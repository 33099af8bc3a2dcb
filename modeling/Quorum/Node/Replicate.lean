import Quorum.Network
import Quorum.Node

/-!
A leader's round to one peer: a request with all that the peer may lack, and what its answer tells.
-/

namespace Quorum

/-- A request that waits for its answer. -/
structure Round where
  peer : NodeId
  request : AppendRequest
deriving DecidableEq, Repr

namespace Node

variable {σ μ : Type}

/-- Where the peer's entries are sent from: position 1 at least, and no later than the end. -/
def sendFrom (peer : NodeId) (n : Node σ μ) : Index :=
  let next :=
    match Table.find? peer n.progress with
    | some p => p.next
    | none => n.log.size
  min (max next 1) n.log.size

/-- The request to a peer, from the given position on. -/
def appendRequest (t : Term) (next : Index) (n : Node σ μ) : AppendRequest where
  leader := n.id
  term := t
  prevIndex := next - 1
  prevTerm := n.log.termAt (next - 1)
  entries := n.log.since next
  commit := n.log.commit

/-- Begins a round. Only a leader sends, and not to itself. -/
def startRound (peer : NodeId) (n : Node σ μ) : Option Round :=
  if peer = n.id then none
  else match n.leaderTerm with
    | none => none
    | some t => if n.attached then some ⟨peer, n.appendRequest t (n.sendFrom peer)⟩ else none

variable [LogStore σ] [BallotStore σ] [Machine μ]

/-- Takes in the answer to a round. A later term ends the leadership; apart from that an answer
counts only while the term of its request is led. -/
def finishRound (r : Round) (reply : Except NetworkError AppendReply) (n : Node σ μ) :
    Node σ μ :=
  match reply with
  | .error _ => n
  | .ok reply =>
    if n.term < reply.term then n.stepDown reply.term
    else if n.leaderTerm ≠ some r.request.term then n
    else if reply.success then
      tryCommit { n with
        progress := n.progress.advance r.peer r.request.lastIndex
        contacts := n.contacts.hear r.peer }
    else { n with progress := n.progress.backOff r.peer }

end Node

end Quorum
