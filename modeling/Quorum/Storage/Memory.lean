import Quorum.Storage

/-!
Storage in memory. It keeps the rule that a log grows one position at a time, and nothing more:
the records it starts with may be any.
-/

namespace Quorum

structure Memory where
  records : List Entry := []
  ballot : Ballot := {}
deriving DecidableEq, Repr

namespace Memory

/-- Index and term of the last of some records. -/
def lastOf (records : List Entry) : Index × Term :=
  match records.getLast? with
  | some e => (e.index, e.term)
  | none => (0, 0)

def append (e : Entry) (m : Memory) : Except StorageError Index × Memory :=
  let expected := (lastOf m.records).1 + 1
  if e.index = expected then (.ok e.index, { m with records := m.records ++ [e] })
  else (.error (.indexMismatch expected e.index), m)

def truncate (k : Index) (m : Memory) : Memory :=
  { m with records := m.records.filter fun e => e.index ≤ k }

instance : LogStore Memory where
  append := append
  readAll m := (.ok m.records, m)
  truncate k m := (.ok (), m.truncate k)
  last m := lastOf m.records

instance : BallotStore Memory where
  readBallot m := (.ok m.ballot, m)
  writeBallot b m := (.ok (), { m with ballot := b })

instance : Reopen Memory where
  reopen m := (.ok (), m)

end Memory

end Quorum
