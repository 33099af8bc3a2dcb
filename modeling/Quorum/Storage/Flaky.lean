import Quorum.Storage

/-!
Storage that fails a number of times before it does anything.

The operations on the log and those on the ballot fail independently, and a failure leaves what is
stored as it was.
-/

namespace Quorum

structure Flaky (σ : Type) where
  store : σ
  /-- How many of the next log operations fail. -/
  logFaults : Nat := 0
  /-- How many of the next ballot operations fail. -/
  ballotFaults : Nat := 0
  /-- How many appends have reached the store. -/
  appends : Nat := 0

namespace Flaky

variable {σ α : Type}

/-- An operation on the log, unless it is to fail. -/
def onLog (op : σ → Except StorageError α × σ) (f : Flaky σ) :
    Except StorageError α × Flaky σ :=
  match f.logFaults with
  | n + 1 => (.error (.io .other), { f with logFaults := n })
  | 0 =>
    match op f.store with
    | (r, store) => (r, { f with store })

/-- An operation on the ballot, unless it is to fail. -/
def onBallot (op : σ → Except StorageError α × σ) (f : Flaky σ) :
    Except StorageError α × Flaky σ :=
  match f.ballotFaults with
  | n + 1 => (.error (.io .other), { f with ballotFaults := n })
  | 0 =>
    match op f.store with
    | (r, store) => (r, { f with store })

/-- Counts an append that is not to fail. -/
def noteAppend (f : Flaky σ) : Flaky σ :=
  if f.logFaults = 0 then { f with appends := f.appends + 1 } else f

instance [LogStore σ] : LogStore (Flaky σ) where
  append e f := f.noteAppend.onLog (LogStore.append e)
  readAll f := f.onLog LogStore.readAll
  truncate k f := f.onLog (LogStore.truncate k)
  last f := LogStore.last f.store

instance [BallotStore σ] : BallotStore (Flaky σ) where
  readBallot f := f.onBallot BallotStore.readBallot
  writeBallot b f := f.onBallot (BallotStore.writeBallot b)

/-- Opening never fails on purpose, and the faults to come are kept. -/
instance [Reopen σ] : Reopen (Flaky σ) where
  reopen f :=
    match Reopen.reopen f.store with
    | (r, store) => (r, { f with store })

end Flaky

end Quorum
