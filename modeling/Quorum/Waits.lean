import Quorum.Basic
import Quorum.Table

/-!
The clients that wait for an entry to be applied.

Each wait is kept under a ticket for good, and the waits still open are filed by position. A wait
leaves `pending` once, by what comes first: the entry is applied, the member stops leading, or the
client gives up.
-/

namespace Quorum

inductive WaitStatus where
  | pending
  | committed
  | failed
  | timedOut
deriving DecidableEq, Repr

def WaitStatus.name : WaitStatus → String
  | pending => "Pending"
  | committed => "Committed"
  | failed => "Failed"
  | timedOut => "TimedOut"

structure Wait where
  index : Index
  status : WaitStatus := .pending
deriving DecidableEq, Repr

/-- Which wait, in the order of registration. -/
abbrev Ticket := Nat

structure Waits where
  /-- Every wait there ever was, by ticket. -/
  all : List Wait := []
  /-- The ticket filed for a position. -/
  filed : Table Index Ticket := []
deriving Repr

/-- A wait that is no longer pending keeps the status it has. -/
def Wait.resolve (outcome : WaitStatus) (w : Wait) : Wait :=
  if w.status = .pending then { w with status := outcome } else w

namespace Waits

def resolve (outcome : WaitStatus) (t : Ticket) (ws : Waits) : Waits :=
  { ws with all := ws.all.modify t (Wait.resolve outcome) }

def status? (t : Ticket) (ws : Waits) : Option WaitStatus := (ws.all[t]?).map (·.status)

/-- The number of waits filed. -/
def size (ws : Waits) : Nat := ws.filed.length

/-- Files a new wait, in the place of one that is filed for the same position. -/
def register (index : Index) (ws : Waits) : Ticket × Waits :=
  (ws.all.length,
    { all := ws.all ++ [{ index }], filed := Table.insert index ws.all.length ws.filed })

/-- Takes the wait for a position out of the file and resolves it. -/
def settle (outcome : WaitStatus) (index : Index) (ws : Waits) : Waits :=
  match Table.find? index ws.filed with
  | none => ws
  | some t => { ws with filed := Table.erase index ws.filed }.resolve outcome t

def complete (index : Index) (ws : Waits) : Waits := ws.settle .committed index

def fail (index : Index) (ws : Waits) : Waits := ws.settle .failed index

/-- Fails every wait filed, and tells how many there were. -/
def failAll (ws : Waits) : Nat × Waits :=
  (ws.filed.length,
    (ws.filed.map (·.2)).foldl (fun ws t => ws.resolve .failed t) { ws with filed := [] })

/-- The client gives up. What is filed for its position goes, whichever wait it is of. -/
def expire (t : Ticket) (ws : Waits) : Waits :=
  match ws.all[t]? with
  | none => ws
  | some w =>
    if w.status = .pending then
      { ws with filed := Table.erase w.index ws.filed }.resolve .timedOut t
    else ws

/-- Every client gives up. -/
def expireAll (ws : Waits) : Waits :=
  (List.range ws.all.length).foldl (fun ws t => ws.expire t) ws

end Waits

end Quorum
