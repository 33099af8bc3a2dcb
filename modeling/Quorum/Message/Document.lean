import Quorum.Json.Basic
import Quorum.Message

/-!
Messages and entries as documents. A message is tagged with the name of its kind; a payload is the
array of its bytes.
-/

namespace Quorum

namespace Entry

def toJson (e : Entry) : Json :=
  .record [("term", .nat e.term), ("index", .nat e.index),
    ("payload", .list (fun b => .nat b.toNat) e.payload)]

def ofJson? (j : Json) : Option Entry := do
  match ← j.fields? ["term", "index", "payload"] with
  | [some term, some index, some payload] =>
    return ⟨← term.word?, ← index.word?, ← payload.list? Json.byte?⟩
  | _ => none

end Entry

namespace VoteRequest

def toJson (r : VoteRequest) : Json :=
  .record [("term", .nat r.term), ("candidate_id", .nat r.candidate),
    ("last_log_index", .nat r.lastIndex), ("last_log_term", .nat r.lastTerm)]

def ofJson? (j : Json) : Option VoteRequest := do
  match ← j.fields? ["term", "candidate_id", "last_log_index", "last_log_term"] with
  | [some term, some candidate, some lastIndex, some lastTerm] =>
    return ⟨← term.word?, ← candidate.word?, ← lastIndex.word?, ← lastTerm.word?⟩
  | _ => none

end VoteRequest

namespace VoteReply

def toJson (r : VoteReply) : Json :=
  .record [("term", .nat r.term), ("vote_granted", .bool r.granted)]

def ofJson? (j : Json) : Option VoteReply := do
  match ← j.fields? ["term", "vote_granted"] with
  | [some term, some granted] => return ⟨← term.word?, ← granted.bool?⟩
  | _ => none

end VoteReply

namespace AppendRequest

def toJson (r : AppendRequest) : Json :=
  .record [("leader_id", .nat r.leader), ("term", .nat r.term),
    ("prev_log_index", .nat r.prevIndex), ("prev_log_term", .nat r.prevTerm),
    ("entries", .list Entry.toJson r.entries), ("leader_commit", .nat r.commit)]

def ofJson? (j : Json) : Option AppendRequest := do
  match ← j.fields? ["leader_id", "term", "prev_log_index", "prev_log_term", "entries",
      "leader_commit"] with
  | [some leader, some term, some prevIndex, some prevTerm, some entries, some commit] =>
    return ⟨← leader.word?, ← term.word?, ← prevIndex.word?, ← prevTerm.word?,
      ← entries.list? Entry.ofJson?, ← commit.word?⟩
  | _ => none

end AppendRequest

namespace AppendReply

def toJson (r : AppendReply) : Json :=
  .record [("term", .nat r.term), ("success", .bool r.success)]

def ofJson? (j : Json) : Option AppendReply := do
  match ← j.fields? ["term", "success"] with
  | [some term, some success] => return ⟨← term.word?, ← success.bool?⟩
  | _ => none

end AppendReply

namespace Message

def kind : Message → String
  | voteRequest _ => "VoteRequest"
  | voteReply _ => "VoteResponse"
  | appendRequest _ => "AppendEntries"
  | appendReply _ => "AppendEntriesResponse"

/-- What the message says, without its kind. -/
def body : Message → Json
  | voteRequest r => r.toJson
  | voteReply r => r.toJson
  | appendRequest r => r.toJson
  | appendReply r => r.toJson

def toJson (m : Message) : Json := .variant m.kind m.body

def ofJson? (j : Json) : Option Message := do
  match ← j.variant? with
  | ("VoteRequest", v) => voteRequest <$> VoteRequest.ofJson? v
  | ("VoteResponse", v) => voteReply <$> VoteReply.ofJson? v
  | ("AppendEntries", v) => appendRequest <$> AppendRequest.ofJson? v
  | ("AppendEntriesResponse", v) => appendReply <$> AppendReply.ofJson? v
  | _ => none

end Message

namespace Role

def toJson (r : Role) : Json := .string r.name

def ofJson? (j : Json) : Option Role := do ofName? (← j.bareVariant?)

end Role

end Quorum
