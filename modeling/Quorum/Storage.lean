import Quorum.Files

/-!
What a member keeps on stable storage: its log, record by record, and its ballot.

An operation answers with what it did and with the storage as it is afterwards, whether it
succeeded or not.
-/

namespace Quorum

inductive StorageError where
  /-- An append has to be for the position after the last record. -/
  | indexMismatch (expected got : Index)
  | recordTooLarge (size : Nat)
  /-- What is stored is there but cannot be trusted. -/
  | corrupt (reason : String)
  | io (reason : Files.Error)
deriving DecidableEq, Repr

def StorageError.message : StorageError → String
  | indexMismatch expected got => s!"log index mismatch: expected {expected}, got {got}"
  | recordTooLarge size => s!"record of {size} bytes exceeds the maximum frame size"
  | corrupt reason => "corrupt persistent state: " ++ reason
  | io reason => "io error: " ++ reason.name

/-- Storage of the records of a log. -/
class LogStore (σ : Type) where
  /-- Adds a record after the last one, and answers with its index. -/
  append : Entry → σ → Except StorageError Index × σ
  /-- Every record, in order. -/
  readAll : σ → Except StorageError (List Entry) × σ
  /-- Drops every record with an index above the given one. -/
  truncate : Index → σ → Except StorageError Unit × σ
  /-- Index and term of the last record, or zeros. -/
  last : σ → Index × Term

/-- Storage of a ballot, which is replaced as a whole. -/
class BallotStore (σ : Type) where
  /-- The ballot last written, or the first one if none was. -/
  readBallot : σ → Except StorageError Ballot × σ
  writeBallot : Ballot → σ → Except StorageError Unit × σ

/-- Storage that is opened anew when its member restarts. -/
class Reopen (σ : Type) where
  reopen : σ → Except StorageError Unit × σ

end Quorum
