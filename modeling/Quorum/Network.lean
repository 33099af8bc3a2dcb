import Quorum.Message

/-!
The network inside one process: who is registered, and who is cut off.

A request is handed over on the spot, and its answer is kept only if it comes in time. Time is told
by order alone, so an answer is late just if no time at all was given.
-/

namespace Quorum

/-- Why a request got no answer. -/
inductive NetworkError where
  | unreachable (id : NodeId)
  | timeout (id : NodeId)
  | unexpectedReply
deriving DecidableEq, Repr

def NetworkError.message : NetworkError → String
  | unreachable id => s!"peer {id} is unreachable"
  | timeout id => s!"rpc to peer {id} timed out"
  | unexpectedReply => "peer answered with an unexpected message kind"

structure Network where
  registered : List NodeId := []
  isolated : List NodeId := []
deriving DecidableEq, Repr

namespace Network

def register (id : NodeId) (net : Network) : Network :=
  { net with registered := id :: net.registered.filter (· ≠ id) }

def unregister (id : NodeId) (net : Network) : Network :=
  { net with registered := net.registered.filter (· ≠ id) }

/-- Nothing goes to an isolated member or comes from it. -/
def isolate (id : NodeId) (net : Network) : Network :=
  { net with isolated := id :: net.isolated.filter (· ≠ id) }

def heal (id : NodeId) (net : Network) : Network :=
  { net with isolated := net.isolated.filter (· ≠ id) }

def isIsolated (id : NodeId) (net : Network) : Bool := decide (id ∈ net.isolated)

/-- Messages from `src` are handed on to `dst`. -/
def reaches (src dst : NodeId) (net : Network) : Bool :=
  !net.isIsolated src && !net.isIsolated dst && decide (dst ∈ net.registered)

/-- The one that a message from `src` to `dst` reaches, if `target` is the one that is there. -/
def route {α : Type} (src dst : NodeId) (target : Option α) (net : Network) :
    Except NetworkError α :=
  match target with
  | some a => if net.reaches src dst then .ok a else .error (.unreachable dst)
  | none => .error (.unreachable dst)

/-- What the sender gets of an answer, with that many milliseconds for it to come. -/
def answer (dst : NodeId) (ms : Nat) (reply : Option Message) : Except NetworkError Message :=
  match reply with
  | none => .error .unexpectedReply
  | some m => if ms = 0 then .error (.timeout dst) else .ok m

/-- An answer to a request for a vote is a vote. -/
def asVote (reply : Except NetworkError Message) : Except NetworkError VoteReply :=
  match reply with
  | .error e => .error e
  | .ok (.voteReply r) => .ok r
  | .ok _ => .error .unexpectedReply

/-- The same for an append request. -/
def asAppend (reply : Except NetworkError Message) : Except NetworkError AppendReply :=
  match reply with
  | .error e => .error e
  | .ok (.appendReply r) => .ok r
  | .ok _ => .error .unexpectedReply

end Network

end Quorum
