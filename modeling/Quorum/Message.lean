import Quorum.Basic

/-!
The two requests that members send each other, and their answers.
-/

namespace Quorum

/-- A candidate asks for a vote and says where its log ends. -/
structure VoteRequest where
  term : Term
  candidate : NodeId
  lastIndex : Index
  lastTerm : Term
deriving DecidableEq, Repr

structure VoteReply where
  term : Term
  granted : Bool
deriving DecidableEq, Repr

/-- A leader sends the entries after `prevIndex`; with none it only says that it is there. -/
structure AppendRequest where
  leader : NodeId
  term : Term
  prevIndex : Index
  prevTerm : Term
  entries : List Entry
  commit : Index
deriving DecidableEq, Repr

structure AppendReply where
  term : Term
  success : Bool
deriving DecidableEq, Repr

inductive Message where
  | voteRequest (r : VoteRequest)
  | voteReply (r : VoteReply)
  | appendRequest (r : AppendRequest)
  | appendReply (r : AppendReply)
deriving DecidableEq, Repr

namespace AppendRequest

def isHeartbeat (r : AppendRequest) : Bool := r.entries.isEmpty

/-- Where the log of a member that accepts the request agrees with the sender's. -/
def lastIndex (r : AppendRequest) : Index :=
  match r.entries.getLast? with
  | some e => e.index
  | none => r.prevIndex

end AppendRequest

/-- Every message carries a term. -/
def Message.term : Message → Term
  | voteRequest r => r.term
  | voteReply r => r.term
  | appendRequest r => r.term
  | appendReply r => r.term

end Quorum
