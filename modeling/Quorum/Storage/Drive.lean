import Quorum.Storage.DataDir
import Quorum.Storage.Memory

/-!
The two kinds of storage as one.
-/

namespace Quorum

inductive Drive where
  | memory (m : Memory)
  | files (d : DataDir)

namespace Drive

/-- Runs an operation on storage in memory or on that in files. -/
def on {α : Type} (inMemory : Memory → α × Memory) (inFiles : DataDir → α × DataDir) :
    Drive → α × Drive
  | memory m =>
    match inMemory m with
    | (a, m) => (a, memory m)
  | files d =>
    match inFiles d with
    | (a, d) => (a, files d)

instance : LogStore Drive where
  append e := on (LogStore.append e) (LogStore.append e)
  readAll := on LogStore.readAll LogStore.readAll
  truncate k := on (LogStore.truncate k) (LogStore.truncate k)
  last
    | memory m => LogStore.last m
    | files d => LogStore.last d

instance : BallotStore Drive where
  readBallot := on BallotStore.readBallot BallotStore.readBallot
  writeBallot b := on (BallotStore.writeBallot b) (BallotStore.writeBallot b)

instance : Reopen Drive where
  reopen := on Reopen.reopen Reopen.reopen

/-- What is in the files. -/
def listing : Drive → List String
  | memory _ => []
  | files d => d.tree.listing []

/-- What is in the files of several, in order. -/
def listings (ds : List Drive) : List String := (ds.flatMap listing).mergeSort fun a b => a ≤ b

end Drive

end Quorum
