import Quorum.Json.Printer
import Quorum.Node

/-!
A report on a member at one point in time.

A report gives the milliseconds since a peer was last heard. Members tell time by order alone, so
a peer that was ever heard was heard just now.
-/

namespace Quorum

/-- What a member reports of a peer. -/
structure PeerStatus where
  id : NodeId
  progress : Progress
  heard : Bool
deriving DecidableEq, Repr

structure Status where
  id : NodeId
  role : Role
  ballot : Ballot
  commit : Index
  applied : Index
  lastIndex : Index
  leader : Option NodeId
  waiting : Nat
  peers : List PeerStatus
deriving DecidableEq, Repr

namespace Node

variable {σ μ : Type}

def peerStatus (n : Node σ μ) : List PeerStatus :=
  n.config.peers.map fun id => ⟨id, n.progress.row id, decide (id ∈ n.contacts.heard)⟩

def status (n : Node σ μ) : Status where
  id := n.id
  role := n.role
  ballot := n.standing.ballot
  commit := n.log.commit
  applied := n.log.applied
  lastIndex := n.log.lastIndex
  leader := n.likelyLeader
  waiting := n.log.waits.size
  peers := n.peerStatus

end Node

namespace PeerStatus

/-- The report of a peer, with the given ways to write that it was heard and that it was not. -/
def toJson (heard silent : Json) (p : PeerStatus) : Json :=
  .record [("node_id", .nat p.id), ("next_index", .nat p.progress.next),
    ("match_index", .nat p.progress.matched),
    ("last_heartbeat_ms_ago", if p.heard then heard else silent)]

end PeerStatus

namespace Status

/-- The report with the given ways to write that a peer was heard and that it was not. -/
def toJsonWith (heard silent : Json) (s : Status) : Json :=
  .record [("node_id", .nat s.id), ("role", .string s.role.name), ("term", .nat s.ballot.term),
    ("voted_for", .option .nat s.ballot.vote), ("commit_index", .nat s.commit),
    ("last_applied", .nat s.applied), ("last_log_index", .nat s.lastIndex),
    ("leader", .option .nat s.leader), ("pending_commits", .nat s.waiting),
    ("peers", .list (PeerStatus.toJson heard silent) s.peers)]

/-- The report, one item a line. -/
def text (s : Status) : String := (s.toJsonWith (.nat 0) .null).pretty

end Status

end Quorum
