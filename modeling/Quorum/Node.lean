import Quorum.Log
import Quorum.Message
import Quorum.Progress
import Quorum.Standing

/-!
A member of the cluster as one value: its storage, standing and log, and what it knows of others.

What a member does is a function from this value to the next. Where it has to wait for others the
function ends, and another takes up what comes, so what happens in between is open to the caller.
What it does without waiting is one step here, though its standing, its log and its table of
progress are each guarded by themselves. So it is assumed that nothing comes between standing for
election and reading the end of the log for the request, while an entry that was written is looked
at again, counted and committed, or between the reads that a round is made of. Whatever does come
there is no composition of these functions.
-/

namespace Quorum

/-- An election that is under way. -/
structure Tally where
  /-- What the peers were asked. -/
  request : VoteRequest
  votes : Nat := 1
  replies : Nat := 0
  /-- A reply has shown that the term is over. -/
  overtaken : Bool := false
deriving DecidableEq, Repr

structure Node (σ μ : Type) where
  config : Config
  store : σ
  standing : Standing
  log : Log μ
  progress : ProgressTable := []
  contacts : Contacts := {}
  /-- Rounds are sent at intervals. -/
  heartbeats : Bool := false
  /-- The peers to whom a round is due. A round that is due already does not fall due twice. -/
  due : List NodeId := []
  /-- How often the election timer was set anew. -/
  resets : Nat := 0
  tally : Option Tally := none
  /-- Replication was given the log. Without it nothing is sent, and waits outlast a leadership. -/
  attached : Bool := true

namespace Node

variable {σ μ : Type}

def id (n : Node σ μ) : NodeId := n.config.self

def term (n : Node σ μ) : Term := n.standing.term

def role (n : Node σ μ) : Role := n.standing.role

def leaderTerm (n : Node σ μ) : Option Term := n.standing.leaderTerm

/-- The best guess at who leads. -/
def likelyLeader (n : Node σ μ) : Option NodeId :=
  if n.role = .leader then some n.id else n.contacts.likely n.config.timing

/-- A round to every peer falls due. -/
def callRounds (n : Node σ μ) : Node σ μ := { n with due := n.config.peers }

/-- The election timer starts over. -/
def resetTimer (n : Node σ μ) : Node σ μ := { n with resets := n.resets + 1 }

variable [LogStore σ] [BallotStore σ] [Machine μ]

/-- The member that storage holds: first its ballot is read, then its log. -/
def restore (config : Config) (machine : μ) (store : σ) :
    Except StorageError (Node σ μ) × σ :=
  match Standing.restore store with
  | (.error e, store) => (.error e, store)
  | (.ok standing, store) =>
    match Log.restore machine store with
    | (.error e, store) => (.error e, store)
    | (.ok log, store) => (.ok { config, store, standing, log }, store)

/-! ### Standing -/

/-- Follows in a term and drops all that is a leader's alone. That the term could not be stored
does not keep it from doing so. -/
def stepDown (t : Term) (n : Node σ μ) : Node σ μ :=
  match n.standing.follow t n.store with
  | (_, standing, store) =>
    { n with
      standing, store
      heartbeats := false
      contacts := n.contacts.forgetLeader
      log := if n.attached then n.log.failWaits else n.log }

/-! ### Committing -/

/-- The positions behind the commit index that hold an entry of a term and that a majority is
known to agree up to. Entries of earlier terms are committed with them, never by themselves. -/
def agreed (t : Term) (n : Node σ μ) : List Index :=
  ((n.log.entries.drop n.log.commit).filter fun e =>
    e.term = t && n.config.majority ≤ n.progress.count n.config.members e.index).map (·.index)

/-- A leader commits as far as a majority agrees with it. -/
def tryCommit (n : Node σ μ) : Node σ μ :=
  match n.leaderTerm with
  | none => n
  | some t =>
    match (n.agreed t).max? with
    | none => n
    | some i => { n with log := n.log.commitTo i }

end Node

end Quorum
