import Quorum.Network
import Quorum.Node

/-!
An election: a candidacy, the count of the votes, and its end.

`startElection` stands for the next term and gives the request that goes to every peer. The answers
come to `countVote` in any order and number, until the count is over; `closeElection` then takes
office or gives up. One member runs one election at a time.
-/

namespace Quorum

namespace Tally

/-- The count is over: there is a majority, or everyone has answered, or the term has passed. -/
def isOver (c : Config) (t : Tally) : Bool :=
  t.overtaken || c.majority ≤ t.votes || c.peers.length ≤ t.replies

end Tally

namespace Node

variable {σ μ : Type} [LogStore σ] [BallotStore σ] [Machine μ]

/-- Stands for the next term, unless an election is under way or the candidacy cannot be stored. -/
def startElection (n : Node σ μ) : Option VoteRequest × Node σ μ :=
  match n.tally with
  | some _ => (none, n)
  | none =>
    match n.standing.stand n.id n.store with
    | (.error _, standing, store) => (none, resetTimer { n with standing, store })
    | (.ok term, standing, store) =>
      let request : VoteRequest := ⟨term, n.id, n.log.lastIndex, n.log.lastTerm⟩
      (some request, { n with standing, store, tally := some { request } })

/-- Counts the answer of one peer, while the count lasts. A vote is a grant for exactly the term
stood for; any other answer from a later term ends the candidacy. -/
def countVote (reply : Except NetworkError VoteReply) (n : Node σ μ) : Node σ μ :=
  match n.tally with
  | none => n
  | some t =>
    if t.isOver n.config then n
    else
      let t := { t with replies := t.replies + 1 }
      match reply with
      | .error _ => { n with tally := some t }
      | .ok r =>
        if r.granted && r.term = t.request.term then
          { n with tally := some { t with votes := t.votes + 1 } }
        else if n.term < r.term then
          stepDown r.term { n with tally := some { t with overtaken := true } }
        else { n with tally := some t }

/-- Takes office in the term stood for: nothing is known of the others' logs, and rounds begin. -/
def takeOffice (standing : Standing) (n : Node σ μ) : Node σ μ :=
  resetTimer <| callRounds { n with
    standing
    tally := none
    progress := .fresh n.config n.log.size
    heartbeats := true }

/-- Gives the candidacy up. Nobody waits on for what it might have committed. -/
def loseElection (t : Term) (n : Node σ μ) : Node σ μ :=
  resetTimer { n with
    standing := (n.standing.withdraw t).2
    tally := none
    log := n.log.failWaits }

/-- Ends the election. It is won with a majority, if the member still stands for that term. -/
def closeElection (n : Node σ μ) : Bool × Node σ μ :=
  match n.tally with
  | none => (false, n)
  | some t =>
    if n.config.majority ≤ t.votes then
      match n.standing.lead t.request.term with
      | (true, standing) => (true, n.takeOffice standing)
      | (false, _) => (false, n.loseElection t.request.term)
    else (false, n.loseElection t.request.term)

end Node

end Quorum
