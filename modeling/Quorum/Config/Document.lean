import Quorum.Config
import Quorum.Json.Printer
import Quorum.Json.Reader
import Quorum.Text.Utf8

/-!
Configurations as documents. Every timing may be left out and takes its default then.
-/

namespace Quorum

namespace Timing

def fieldNames : List String :=
  ["election_timeout_min", "election_timeout_max", "heartbeat_interval", "vote_rpc_timeout",
    "vote_collection_timeout", "append_rpc_timeout", "commit_timeout", "leader_fresh_window",
    "peer_fresh_window"]

/-- The spans in the order of `fieldNames`. -/
def spans (t : Timing) : List Nat :=
  [t.electionMin, t.electionMax, t.heartbeat, t.voteReply, t.voteCollection, t.appendReply,
    t.commitWait, t.leaderFresh, t.peerFresh]

def ofSpans? : List Nat → Option Timing
  | [a, b, c, d, e, f, g, h, i] => some ⟨a, b, c, d, e, f, g, h, i⟩
  | _ => none

theorem ofSpans?_spans (t : Timing) : ofSpans? t.spans = some t := rfl

def toJson (t : Timing) : Json := .record (fieldNames.zip (t.spans.map .nat))

/-- A span that is given, or the one it defaults to. -/
def spanOr (given : Option Json) (default : Nat) : Option Nat :=
  match given with
  | none => some default
  | some j => j.word?

def ofJson? (j : Json) : Option Timing := do
  let given ← j.fields? fieldNames
  let spans ← (given.zip ({} : Timing).spans).mapM fun p => spanOr p.1 p.2
  ofSpans? spans

end Timing

namespace Config

def fieldNames : List String := ["node_id", "members", "raft"]

def toJson (c : Config) : Json :=
  .record [("node_id", .nat c.self), ("members", .list .nat c.members), ("raft", c.timing.toJson)]

def ofJson? (j : Json) : Option Config := do
  match ← j.fields? fieldNames with
  | [some self, some members, timing] =>
    let self ← self.word?
    let members ← members.list? Json.word?
    let timing ← match timing with
      | none => some {}
      | some t => Timing.ofJson? t
    return { self, members, timing }
  | _ => none

/-- The configuration that a text holds, checked. -/
def parse (text : String) : Except ConfigError Config :=
  match Json.parse? text >>= ofJson? with
  | none => .error .malformed
  | some c =>
    match c.check with
    | .error e => .error e
    | .ok () => .ok c

/-- The same for a file. Bytes that are no text cannot be read. -/
def parseFile (path : Files.Path) (tree : Files.Tree) : Except ConfigError Config :=
  match tree.read path with
  | .error e => .error (.unreadable e)
  | .ok bytes =>
    match Utf8.decode bytes with
    | .error _ => .error (.unreadable .invalidData)
    | .ok cs => parse (String.ofList cs)

end Config

end Quorum
