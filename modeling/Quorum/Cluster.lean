import Quorum.Node.Client
import Quorum.Node.Election
import Quorum.Node.Receive
import Quorum.Node.Replicate

/-!
Members on one network, each with storage that outlives it.

Elections and rounds run to their end here, one request after the other in the order of the
members. What else reaches members while the first request is under way can be given.
-/

namespace Quorum

/-- A place for a member: it runs, or only its storage and the machine it drove are left. -/
inductive Host (σ μ : Type) where
  | up (n : Node σ μ)
  | down (config : Config) (store : σ) (machine : μ)

namespace Host

variable {σ μ : Type}

def node? : Host σ μ → Option (Node σ μ)
  | up n => some n
  | down .. => none

def config : Host σ μ → Config
  | up n => n.config
  | down c .. => c

def store : Host σ μ → σ
  | up n => n.store
  | down _ s _ => s

def machine : Host σ μ → μ
  | up n => n.log.machine
  | down _ _ m => m

/-- All else is lost. -/
def crash (h : Host σ μ) : Host σ μ := down h.config h.store h.machine

variable [LogStore σ] [BallotStore σ] [Reopen σ] [Machine μ]

/-- Opens storage, checks the configuration and restores the member, with a new machine. -/
def boot (machine : μ) (h : Host σ μ) : Except ClientError Unit × Host σ μ :=
  match Reopen.reopen h.store with
  | (.error e, store) => (.error (.storage e), down h.config store machine)
  | (.ok (), store) =>
    match h.config.check with
    | .error e => (.error (.config e), down h.config store machine)
    | .ok () =>
      match Node.restore h.config machine store with
      | (.error e, store) => (.error (.storage e), down h.config store machine)
      | (.ok n, _) => (.ok (), up n)

end Host

structure Cluster (σ μ : Type) where
  hosts : Table NodeId (Host σ μ) := []
  network : Network := {}

namespace Cluster

variable {σ μ : Type}

/-- The member of that name, if it runs. -/
def node? (id : NodeId) (c : Cluster σ μ) : Option (Node σ μ) :=
  Table.find? id c.hosts >>= Host.node?

/-- Puts a member's new state in its place. -/
def put (id : NodeId) (n : Node σ μ) (c : Cluster σ μ) : Cluster σ μ :=
  { c with hosts := Table.insert id (.up n) c.hosts }

def modify (id : NodeId) (f : Node σ μ → Node σ μ) (c : Cluster σ μ) : Cluster σ μ :=
  match c.node? id with
  | some n => c.put id (f n)
  | none => c

/-- Loses the member, if it runs, and all that it did not store. -/
def crash (id : NodeId) (c : Cluster σ μ) : Cluster σ μ :=
  match Table.find? id c.hosts with
  | some h => { c with hosts := Table.insert id h.crash c.hosts }
  | none => c

variable [LogStore σ] [BallotStore σ] [Machine μ]

/-- Starts the member anew from its storage. -/
def boot [Reopen σ] (machine : μ) (id : NodeId) (c : Cluster σ μ) :
    Except ClientError Unit × Cluster σ μ :=
  match Table.find? id c.hosts with
  | none => (.ok (), c)
  | some h =>
    match h.boot machine with
    | (.error e, h) => (.error e, { c with hosts := Table.insert id h c.hosts })
    | (.ok (), h) =>
      (.ok (), { c with hosts := Table.insert id h c.hosts, network := c.network.register id })

/-- Starts members one after the other, and tells which could not be started. -/
def bootAll [Reopen σ] (machine : μ) :
    List NodeId → Cluster σ μ → List (NodeId × ClientError) × Cluster σ μ
  | [], c => ([], c)
  | id :: ids, c =>
    match c.boot machine id with
    | (.ok (), c) => bootAll machine ids c
    | (.error e, c) =>
      match bootAll machine ids c with
      | (faults, c) => ((id, e) :: faults, c)

/-! ### Messages -/

/-- Hands a message to a member without the network. -/
def hand (id : NodeId) (m : Message) (c : Cluster σ μ) : Option Message × Cluster σ μ :=
  match c.node? id with
  | none => (none, c)
  | some n =>
    match n.receive m with
    | (reply, n) => (reply, c.put id n)

/-- Sends a message, with that many milliseconds for the answer to come. The member that gets it
acts on it even if the answer is late. -/
def send (src dst : NodeId) (ms : Nat) (m : Message) (c : Cluster σ μ) :
    Except NetworkError Message × Cluster σ μ :=
  match c.network.route src dst (c.node? dst) with
  | .error e => (.error e, c)
  | .ok n =>
    match n.receive m with
    | (reply, n) => (Network.answer dst ms reply, c.put dst n)

/-- How a member stands after a message was handed to it, and what it answered. -/
structure Handed where
  role : Role
  term : Term
  reply : Option Message

/-- Hands over messages one after the other; a member that does not run has nothing to show. -/
def handAll : List (NodeId × Message) → Cluster σ μ → List (Option Handed) × Cluster σ μ
  | [], c => ([], c)
  | (id, m) :: rest, c =>
    match c.hand id m with
    | (reply, c) =>
      let shown := (c.node? id).map fun n => ⟨n.role, n.term, reply⟩
      match handAll rest c with
      | (seen, c) => (shown :: seen, c)

/-! ### Elections and rounds -/

/-- Asks one peer for its vote and counts the answer. -/
def askVote (id : NodeId) (r : VoteRequest) (c : Cluster σ μ) (peer : NodeId) : Cluster σ μ :=
  match c.node? id with
  | none => c
  | some n =>
    match c.send id peer n.config.timing.voteReply (.voteRequest r) with
    | (reply, c) => c.modify id (Node.countVote (Network.asVote reply))

/-- Ends the election of a member. -/
def closeElection (id : NodeId) (c : Cluster σ μ) : Bool × Cluster σ μ :=
  match c.node? id with
  | none => (false, c)
  | some n =>
    match n.closeElection with
    | (won, n) => (won, c.put id n)

/-- Runs an election of a member that runs: whether it was won, and what came of the messages
handed over before the first request arrived, if there was a request. -/
def campaign (id : NodeId) (meanwhile : List (NodeId × Message)) (c : Cluster σ μ) :
    (Bool × Option (List (Option Handed))) × Cluster σ μ :=
  match c.node? id with
  | none => ((false, none), c)
  | some n =>
    match n.startElection with
    | (none, n) => ((false, none), c.put id n)
    | (some r, n) =>
      let c := c.put id n
      if n.config.peers = [] then
        match c.closeElection id with
        | (won, c) => ((won, none), c)
      else
        match c.handAll meanwhile with
        | (seen, c) =>
          match (n.config.peers.foldl (askVote id r) c).closeElection id with
          | (won, c) => ((won, some seen), c)

/-- Sends the request of a round and takes in the answer. -/
def exchange (id : NodeId) (ms : Nat) (c : Cluster σ μ) (r : Round) : Cluster σ μ :=
  match c.send id r.peer ms (.appendRequest r.request) with
  | (reply, c) => c.modify id (Node.finishRound r (Network.asAppend reply))

/-- Runs a round of a member to one peer, with what came of the messages handed over before the
request arrived, if there was a request. -/
def replicate (id peer : NodeId) (meanwhile : List (NodeId × Message)) (c : Cluster σ μ) :
    Option (List (Option Handed)) × Cluster σ μ :=
  match c.node? id with
  | none => (none, c)
  | some n =>
    match n.startRound peer with
    | none => (none, c)
    | some r =>
      match c.handAll meanwhile with
      | (seen, c) => (some seen, c.exchange id n.config.timing.appendReply r)

/-- Runs the rounds that are due. They all begin before the first answer comes. -/
def sendDue (id : NodeId) (c : Cluster σ μ) : Cluster σ μ :=
  match c.node? id with
  | none => c
  | some n =>
    (n.due.filterMap n.startRound).foldl (exchange id n.config.timing.appendReply)
      (c.put id { n with due := [] })

/-- A round to every peer in turn. -/
def round (id : NodeId) (c : Cluster σ μ) : Cluster σ μ :=
  match c.node? id with
  | none => c
  | some n => n.config.peers.foldl (fun c peer => (c.replicate id peer []).2) c

end Cluster

end Quorum
