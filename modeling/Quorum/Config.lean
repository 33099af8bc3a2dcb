import Quorum.Files

/-!
What a member knows of its cluster: who votes, and how long things may take.

Membership is fixed for the life of a cluster. A configuration is checked before a member uses it,
since counting a majority means nothing if a member is listed twice.
-/

namespace Quorum

/-- Spans of time, in milliseconds. -/
structure Timing where
  /-- The random election timeout lies between these two. -/
  electionMin : Nat := 1000
  electionMax : Nat := 2000
  /-- The period of a leader's rounds. -/
  heartbeat : Nat := 150
  /-- The deadline of one vote request. -/
  voteReply : Nat := 2000
  /-- How long a candidate collects votes. -/
  voteCollection : Nat := 3000
  /-- The deadline of one append request. -/
  appendReply : Nat := 1000
  /-- How long a client waits for its entry to be applied. -/
  commitWait : Nat := 3000
  /-- A leader heard of within this span counts as the leader. -/
  leaderFresh : Nat := 2000
  /-- Any peer heard of within this span may be named for want of a leader. -/
  peerFresh : Nat := 3000
deriving DecidableEq, Repr

structure Config where
  self : NodeId
  members : List NodeId
  timing : Timing := {}
deriving DecidableEq, Repr

/-- What is wrong with a configuration, or with the document that should hold it. -/
inductive ConfigError where
  | emptyCluster
  | duplicateMember (id : NodeId)
  | unknownSelf (id : NodeId)
  | emptyElectionWindow (min max : Nat)
  | malformed
  | unreadable (reason : Files.Error)
deriving DecidableEq, Repr

def ConfigError.message : ConfigError → String
  | emptyCluster => "cluster has no members"
  | duplicateMember id => s!"node {id} is listed more than once"
  | unknownSelf id => s!"node {id} is not a member of the cluster"
  | emptyElectionWindow min max => s!"election timeout window {min}..{max} ms is empty"
  | malformed => "invalid config json"
  | unreadable reason => "cannot read config: " ++ reason.name

namespace Config

/-- The member at the first position that repeats an earlier one. -/
def firstRepeat? (seen : List NodeId) : List NodeId → Option NodeId
  | [] => none
  | id :: rest => if id ∈ seen then some id else firstRepeat? (id :: seen) rest

/-- Nothing, or the first of the four conditions that fails. -/
def check (c : Config) : Except ConfigError Unit :=
  if c.members = [] then .error .emptyCluster
  else match firstRepeat? [] c.members with
    | some id => .error (.duplicateMember id)
    | none =>
      if c.self ∉ c.members then .error (.unknownSelf c.self)
      else if c.timing.electionMax ≤ c.timing.electionMin then
        .error (.emptyElectionWindow c.timing.electionMin c.timing.electionMax)
      else .ok ()

/-- More than half of the members. -/
def majority (c : Config) : Nat := c.members.length / 2 + 1

/-- The other members, in the order of the configuration. -/
def peers (c : Config) : List NodeId := c.members.filter (· ≠ c.self)

end Config

end Quorum
