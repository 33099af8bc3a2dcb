import Quorum.Config
import Quorum.Table

/-!
What a leader knows of the members' logs, and what any member knows of who is alive.

Time is told by order alone: what was heard later is fresher, and any span but an empty one is long
enough for all that was heard.
-/

namespace Quorum

/-- A leader's view of one member's log. -/
structure Progress where
  /-- The position to send from. -/
  next : Index := 0
  /-- Up to here the member's log is known to agree. -/
  matched : Index := 0
deriving DecidableEq, Repr

abbrev ProgressTable := Table NodeId Progress

namespace ProgressTable

/-- The table of a new leader whose log ends before position `size`: of the others nothing is
known, and they are sent what comes next. -/
def fresh (c : Config) (size : Nat) : ProgressTable :=
  let peers := c.peers.foldl (fun t id => Table.insert id ⟨size, 0⟩ t) []
  Table.insert c.self ⟨size, size - 1⟩ peers

/-- The row of a member, zeros if there is none. -/
def row (id : NodeId) (t : ProgressTable) : Progress :=
  match Table.find? id t with
  | some p => p
  | none => {}

/-- A member is known to agree up to a position. What was known before still holds. -/
def advance (id : NodeId) (i : Index) (t : ProgressTable) : ProgressTable :=
  let matched := max (t.row id).matched i
  Table.insert id ⟨matched + 1, matched⟩ t

/-- A member refused what it was sent: the next attempt starts one position earlier. -/
def backOff (id : NodeId) (t : ProgressTable) : ProgressTable :=
  let p := t.row id
  Table.insert id { p with next := max (p.next - 1) 1 } t

/-- How many of the members are known to agree up to a position. -/
def count (members : List NodeId) (i : Index) (t : ProgressTable) : Nat :=
  members.countP fun id =>
    match Table.find? id t with
    | some p => decide (i ≤ p.matched)
    | none => false

end ProgressTable

/-- Whom a member has heard of. -/
structure Contacts where
  /-- The leader that sent entries last. -/
  leader : Option NodeId := none
  /-- Everyone heard of, the latest first. -/
  heard : List NodeId := []
deriving DecidableEq, Repr

namespace Contacts

def hear (id : NodeId) (c : Contacts) : Contacts :=
  { c with heard := id :: c.heard.filter (· ≠ id) }

def hearLeader (id : NodeId) (c : Contacts) : Contacts := { c.hear id with leader := some id }

def forgetLeader (c : Contacts) : Contacts := { c with leader := none }

/-- Who leads, as far as a member that does not lead can tell: the leader it heard of or else
whoever it heard of last, each within its span. -/
def likely (timing : Timing) (c : Contacts) : Option NodeId :=
  let anyone := if 0 < timing.peerFresh then c.heard.head? else none
  match c.leader with
  | some id => if 0 < timing.leaderFresh then some id else anyone
  | none => anyone

end Contacts

end Quorum
