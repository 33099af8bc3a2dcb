import Quorum.Node
import Quorum.Text.Span

/-!
Appending for a client.

An append has three parts. `write` stores the entry and files a wait for it; `settle` looks again
at who leads and commits what can be; then the client waits until the wait is resolved, or gives up
by `giveUp`. Giving up takes nothing back: the entry may still be committed.
-/

namespace Quorum

inductive ClientError where
  | notLeader (likely : Option NodeId)
  | commitTimeout (index : Index) (ms : Nat)
  | commitAborted (index : Index)
  | storage (e : StorageError)
  | config (e : ConfigError)
deriving DecidableEq, Repr

namespace ClientError

def message : ClientError → String
  | notLeader none => "not leader (likely leader: None)"
  | notLeader (some id) => s!"not leader (likely leader: Some({id}))"
  | commitTimeout index ms => s!"entry {index} was not committed within " ++ Text.span ms
  | commitAborted index => s!"entry {index} was abandoned when this node stepped down"
  | storage e => e.message
  | config e => e.message

/-- Whom the client may turn to instead. -/
def hint : ClientError → Option NodeId
  | notLeader likely => likely
  | _ => none

end ClientError

/-- An entry that was written for a client. -/
structure Written where
  term : Term
  index : Index
  ticket : Ticket
deriving DecidableEq, Repr

namespace Node

variable {σ μ : Type}

/-- How it went for the client, if that is settled. -/
def outcome? (w : Written) (n : Node σ μ) : Option (Except ClientError Index) :=
  match n.log.waits.status? w.ticket with
  | some .committed => some (.ok w.index)
  | some .failed => some (.error (.commitAborted w.index))
  | some .timedOut => some (.error (.commitTimeout w.index n.config.timing.commitWait))
  | _ => none

/-- The client has waited long enough. -/
def giveUp (w : Written) (n : Node σ μ) : Node σ μ :=
  { n with log := { n.log with waits := n.log.waits.expire w.ticket } }

/-- Begins to wait. A client without any time gives up at once. -/
def beginWait (w : Written) (n : Node σ μ) : Node σ μ :=
  if n.config.timing.commitWait = 0 then n.giveUp w else n

/-- What the client is told if nothing happens as long as it waits. By then all that waited before
have given up too, since they all wait equally long. -/
def waitOut (w : Written) (n : Node σ μ) : Except ClientError Index × Node σ μ :=
  match n.outcome? w with
  | some r => (r, n)
  | none =>
    (.error (.commitTimeout w.index n.config.timing.commitWait),
      { n with log := { n.log with waits := n.log.waits.expireAll } })

variable [LogStore σ] [BallotStore σ] [Machine μ]

/-- Stores a command in the term that the member leads and files a wait for it. -/
def write (payload : Bytes) (n : Node σ μ) : Except ClientError Written × Node σ μ :=
  match n.leaderTerm with
  | none => (.error (.notLeader n.likelyLeader), n)
  | some term =>
    let index := n.log.size
    match n.log.push ⟨term, index, payload⟩ n.store with
    | (.error e, log, store) => (.error (.storage e), { n with log, store })
    | (.ok (), log, store) =>
      match log.waits.register index with
      | (ticket, waits) => (.ok ⟨term, index, ticket⟩, { n with log := { log with waits }, store })

/-- Counts the entry as the leader's own and sends it to the peers, or fails its wait if the term is
no longer led: who leads may have changed while the entry was being stored. -/
def settle (w : Written) (n : Node σ μ) : Node σ μ :=
  if n.leaderTerm = some w.term then
    tryCommit (callRounds { n with progress := n.progress.advance n.id w.index })
  else { n with log := { n.log with waits := n.log.waits.fail w.index } }

/-- An append during which nothing else happens, up to the wait. -/
def submit (payload : Bytes) (n : Node σ μ) : Except ClientError Written × Node σ μ :=
  match n.write payload with
  | (.error e, n) => (.error e, n)
  | (.ok w, n) => (.ok w, n.settle w)

/-- What the client is told when it stops waiting. -/
def conclude (w : Written) (n : Node σ μ) : Except ClientError Index × Node σ μ :=
  match n.outcome? w with
  | some r => (r, n)
  | none => (.error (.commitTimeout w.index n.config.timing.commitWait), n.giveUp w)

/-- An append during which nothing else happens. -/
def append (payload : Bytes) (n : Node σ μ) : Except ClientError Index × Node σ μ :=
  match n.submit payload with
  | (.error e, n) => (.error e, n)
  | (.ok w, n) => n.conclude w

end Node

end Quorum
