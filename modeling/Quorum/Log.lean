import Quorum.Kv
import Quorum.Storage
import Quorum.Waits

/-!
The log of a member: its entries, how far they are committed and applied, and who waits for them.

Memory and storage change together: an entry is stored before it is in the log, and dropped from
storage before it leaves the log. What is committed is never dropped.
-/

namespace Quorum

/-- Why a member refuses an append request. -/
inductive Refusal where
  | staleTerm (term current : Term)
  | beyondEnd (prevIndex lastIndex : Index)
  | termMismatch (index : Index) (here sent : Term)
  | gap (got lastIndex : Index)
  | committedConflict (index commit : Index)
  | storage (e : StorageError)
deriving DecidableEq, Repr

def Refusal.message : Refusal → String
  | staleTerm term current => s!"request term {term} is behind the current term {current}"
  | beyondEnd prevIndex lastIndex =>
    s!"prev_log_index {prevIndex} is beyond the local log end {lastIndex}"
  | termMismatch index here sent =>
    s!"term mismatch at index {index}: local term {here}, leader term {sent}"
  | gap got lastIndex => s!"entry {got} would leave a gap after local index {lastIndex}"
  | committedConflict index commit =>
    s!"conflict at index {index} is at or below the commit index {commit}"
  | storage e => e.message

structure Log (μ : Type) where
  /-- The entries 1, 2, 3, … -/
  entries : List Entry := []
  /-- Entries up to here are committed. -/
  commit : Index := 0
  /-- Entries up to here were given to the machine. -/
  applied : Index := 0
  machine : μ
  waits : Waits := {}

namespace Log

variable {μ : Type}

/-! ### Looking at a log -/

/-- The entries from position 0. -/
def slots (l : Log μ) : List Entry := .sentinel :: l.entries

def lastIndex (l : Log μ) : Index := l.entries.length

/-- The position of the next entry. -/
def size (l : Log μ) : Nat := l.entries.length + 1

def entry? (i : Index) (l : Log μ) : Option Entry := l.slots[i]?

/-- The term at a position, 0 where there is none. -/
def termAt (i : Index) (l : Log μ) : Term :=
  match l.entry? i with
  | some e => e.term
  | none => 0

def lastTerm (l : Log μ) : Term := l.termAt l.lastIndex

/-- The newest entries, `count` of them if there are as many, the oldest first. -/
def recent (count : Nat) (l : Log μ) : List Entry := l.entries.drop (l.entries.length - count)

/-- The entries from a position on. -/
def since (i : Index) (l : Log μ) : List Entry := l.slots.drop i

/-! ### Applying -/

variable [Machine μ]

/-- Gives the machine the entry after the last one it was given. -/
def applyNext (l : Log μ) (e : Entry) : Log μ :=
  { l with
    machine := Machine.apply e l.machine
    applied := l.applied + 1
    waits := l.waits.complete (l.applied + 1) }

/-- Gives the machine what is committed and was not given to it, in order. -/
def applyCommitted (l : Log μ) : Log μ :=
  ((l.entries.drop l.applied).take (l.commit - l.applied)).foldl applyNext l

/-- Moves the commit index forward to a position and applies; it never moves back. -/
def commitTo (i : Index) (l : Log μ) : Log μ :=
  if l.commit < i then applyCommitted { l with commit := i } else l

def failWaits (l : Log μ) : Log μ := { l with waits := l.waits.failAll.2 }

/-! ### Log and storage together -/

variable {σ : Type} [LogStore σ]

/-- The records that are numbered 1, 2, 3, … from `next` on, as far as that goes, and whether
that is all of them. -/
def inSequence (next : Index) : List Entry → List Entry × Bool
  | [] => ([], true)
  | e :: es =>
    if e.index = next then
      match inSequence (next + 1) es with
      | (kept, whole) => (e :: kept, whole)
    else ([], false)

/-- The log that is stored. A record out of sequence ends it, and what is behind the end is
dropped from storage. -/
def restore (machine : μ) (store : σ) : Except StorageError (Log μ) × σ :=
  match LogStore.readAll store with
  | (.error e, store) => (.error e, store)
  | (.ok records, store) =>
    match inSequence 1 records with
    | (entries, true) => (.ok { entries, machine }, store)
    | (entries, false) =>
      match LogStore.truncate entries.length store with
      | (.error e, store) => (.error e, store)
      | (.ok (), store) => (.ok { entries, machine }, store)

/-- Adds an entry to storage and then to the log. -/
def push (e : Entry) (l : Log μ) (store : σ) : Except StorageError Unit × Log μ × σ :=
  match LogStore.append e store with
  | (.error err, store) => (.error err, l, store)
  | (.ok _, store) => (.ok (), { l with entries := l.entries ++ [e] }, store)

/-- Drops what is behind a position from storage and then from the log. -/
def dropAfter (i : Index) (l : Log μ) (store : σ) : Except StorageError Unit × Log μ × σ :=
  match LogStore.truncate i store with
  | (.error err, store) => (.error err, l, store)
  | (.ok (), store) => (.ok (), { l with entries := l.entries.take i }, store)

/-- Adds an entry of a request, which has to be for the next position. -/
def place (e : Entry) (l : Log μ) (store : σ) : Except Refusal Unit × Log μ × σ :=
  if e.index ≠ l.size then (.error (.gap e.index l.lastIndex), l, store)
  else match l.push e store with
    | (.error err, l, store) => (.error (.storage err), l, store)
    | (.ok (), l, store) => (.ok (), l, store)

/-- Takes in one entry of a request. One that is there is left; one of another term gives way
with all behind it, unless it is committed. -/
def accept (e : Entry) (l : Log μ) (store : σ) : Except Refusal Unit × Log μ × σ :=
  match l.entry? e.index with
  | none => l.place e store
  | some old =>
    if old.term = e.term then (.ok (), l, store)
    else if e.index ≤ l.commit then (.error (.committedConflict e.index l.commit), l, store)
    else match l.dropAfter (e.index - 1) store with
      | (.error err, l, store) => (.error (.storage err), l, store)
      | (.ok (), l, store) => l.place e store

/-- Takes in the entries of a request up to the first that is refused. -/
def acceptAll : List Entry → Log μ → σ → Except Refusal Unit × Log μ × σ
  | [], l, store => (.ok (), l, store)
  | e :: es, l, store =>
    match l.accept e store with
    | (.error r, l, store) => (.error r, l, store)
    | (.ok (), l, store) => acceptAll es l store

/-- What a leader sends a follower, less who it is. -/
structure Batch where
  term : Term
  prevIndex : Index
  prevTerm : Term
  entries : List Entry
  commit : Index

/-- Whether the log, in the current term of its member, agrees with what comes before a batch. -/
def fits (current : Term) (b : Batch) (l : Log μ) : Except Refusal Unit :=
  if b.term < current then .error (.staleTerm b.term current)
  else if l.lastIndex < b.prevIndex then .error (.beyondEnd b.prevIndex l.lastIndex)
  else if l.termAt b.prevIndex ≠ b.prevTerm then
    .error (.termMismatch b.prevIndex (l.termAt b.prevIndex) b.prevTerm)
  else .ok ()

/-- Takes in a batch and follows the leader's commit index, as far as the log reaches. -/
def follow (current : Term) (b : Batch) (l : Log μ) (store : σ) :
    Except Refusal Unit × Log μ × σ :=
  match l.fits current b with
  | .error r => (.error r, l, store)
  | .ok () =>
    match l.acceptAll b.entries store with
    | (.error r, l, store) => (.error r, l, store)
    | (.ok (), l, store) => (.ok (), l.commitTo (min b.commit l.lastIndex), store)

end Log

end Quorum
