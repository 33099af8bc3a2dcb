import Quorum.Node

/-!
Answering the requests of other members.
-/

namespace Quorum

/-- The request without its sender. -/
def AppendRequest.batch (r : AppendRequest) : Log.Batch :=
  ⟨r.term, r.prevIndex, r.prevTerm, r.entries, r.commit⟩

namespace Node

variable {σ μ : Type} [LogStore σ] [BallotStore σ] [Machine μ]

/-- A candidate's log has to end in a later term, or in the same term and no earlier. -/
def isCurrent (r : VoteRequest) (n : Node σ μ) : Bool :=
  n.log.lastTerm < r.lastTerm || (r.lastTerm = n.log.lastTerm && n.log.lastIndex ≤ r.lastIndex)

/-- Answers a request for a vote. A later term is adopted whether the vote is given or not. -/
def receiveVote (r : VoteRequest) (n : Node σ μ) : VoteReply × Node σ μ :=
  let n := if n.term < r.term then n.stepDown r.term else n
  if n.isCurrent r then
    match n.standing.grant r.term r.candidate n.store with
    | (.error _, standing, store) => (⟨standing.term, false⟩, { n with standing, store })
    | (.ok false, standing, store) => (⟨standing.term, false⟩, { n with standing, store })
    | (.ok true, standing, store) =>
      (⟨standing.term, true⟩, resetTimer { n with standing, store })
  else (⟨n.term, false⟩, n)

/-- Makes way for the leader of a term that is not over. There is none besides this member if it
leads the term itself. -/
def yieldTo (t : Term) (n : Node σ μ) : Option (Node σ μ) :=
  if t < n.term then none
  else if n.term < t then some (n.stepDown t)
  else match n.role with
    | .leader => none
    | .follower => some n
    | .candidate =>
      match n.standing.follow t n.store with
      | (_, standing, store) => some { n with standing, store }

/-- Answers a leader's request. -/
def receiveAppend (r : AppendRequest) (n : Node σ μ) : AppendReply × Node σ μ :=
  match n.yieldTo r.term with
  | none => (⟨n.term, false⟩, n)
  | some n =>
    let n := resetTimer { n with contacts := n.contacts.hearLeader r.leader }
    match n.log.follow n.term r.batch n.store with
    | (.error _, log, store) => (⟨n.term, false⟩, { n with log, store })
    | (.ok (), log, store) => (⟨n.term, true⟩, { n with log, store })

/-- Answers a message, if it is a request. -/
def receive (m : Message) (n : Node σ μ) : Option Message × Node σ μ :=
  match m with
  | .voteRequest r =>
    match n.receiveVote r with
    | (reply, n) => (some (.voteReply reply), n)
  | .appendRequest r =>
    match n.receiveAppend r with
    | (reply, n) => (some (.appendReply reply), n)
  | .voteReply _ => (none, n)
  | .appendReply _ => (none, n)

end Node

end Quorum
