import Quorum.Storage

/-!
How a member stands: its ballot and its role, the only place where either changes.

A ballot comes into force only once it is stored, so a member that restarts has forgotten neither
its term nor its vote. Its role it forgets: a restarted member follows.
-/

namespace Quorum

structure Standing where
  ballot : Ballot := {}
  role : Role := .follower
deriving DecidableEq, Repr

namespace Standing

def term (s : Standing) : Term := s.ballot.term

def vote (s : Standing) : Option NodeId := s.ballot.vote

/-- The current term, if the member leads it. -/
def leaderTerm (s : Standing) : Option Term :=
  if s.role = .leader then some s.term else none

/-- Leads a term it stands for; a candidacy that was overtaken leads nothing. -/
def lead (t : Term) (s : Standing) : Bool × Standing :=
  if s.role = .candidate ∧ s.term = t then (true, { s with role := .leader }) else (false, s)

/-- Gives up standing for a term, without leaving the term. -/
def withdraw (t : Term) (s : Standing) : Bool × Standing :=
  if s.role = .candidate ∧ s.term = t then (true, { s with role := .follower }) else (false, s)

variable {σ : Type} [BallotStore σ]

/-- How a member with this storage stands when it starts. -/
def restore (store : σ) : Except StorageError Standing × σ :=
  match BallotStore.readBallot store with
  | (.error e, store) => (.error e, store)
  | (.ok ballot, store) => (.ok { ballot }, store)

/-- Stores a ballot and then takes it, with a role. -/
def adopt (ballot : Ballot) (role : Role) (s : Standing) (store : σ) :
    Except StorageError Unit × Standing × σ :=
  match BallotStore.writeBallot ballot store with
  | (.error e, store) => (.error e, s, store)
  | (.ok (), store) => (.ok (), { ballot, role }, store)

/-- Follows in a term. A later term is adopted, with no vote cast in it; an earlier one is not
gone back to. -/
def follow (t : Term) (s : Standing) (store : σ) : Except StorageError Unit × Standing × σ :=
  if s.term < t then s.adopt ⟨t, none⟩ .follower store
  else (.ok (), { s with role := .follower }, store)

/-- Stands for the next term and votes for itself. -/
def stand (self : NodeId) (s : Standing) (store : σ) : Except StorageError Term × Standing × σ :=
  match s.adopt ⟨s.term.next, some self⟩ .candidate store with
  | (.error e, s, store) => (.error e, s, store)
  | (.ok (), s, store) => (.ok s.term, s, store)

/-- Votes for a candidate in the current term, unless the vote is another's. -/
def cast (candidate : NodeId) (s : Standing) (store : σ) :
    Except StorageError Bool × Standing × σ :=
  match s.vote with
  | some other => (.ok (other = candidate), s, store)
  | none =>
    match s.adopt ⟨s.term, some candidate⟩ s.role store with
    | (.error e, s, store) => (.error e, s, store)
    | (.ok (), s, store) => (.ok true, s, store)

/-- Votes for a candidate in a term. No vote is cast in a term that is over; a later term is
adopted before the vote is cast in it. -/
def grant (t : Term) (candidate : NodeId) (s : Standing) (store : σ) :
    Except StorageError Bool × Standing × σ :=
  if t < s.term then (.ok false, s, store)
  else if s.term < t then
    match s.adopt ⟨t, none⟩ .follower store with
    | (.error e, s, store) => (.error e, s, store)
    | (.ok (), s, store) => s.cast candidate store
  else s.cast candidate store

end Standing

end Quorum
