import Quorum.Basic

/-!
JSON documents, and the reading of records and variants out of them.

A record may be written as an object or as the array of its fields in order. An object may hold
fields that the record does not know, and each known one at most once; a field that is not given
is left to the record, which refuses or takes its default.
-/

namespace Quorum

/-- A document. The string of a `text` or of a key is `none` where the literal escapes half of a
surrogate pair: such a literal is well-formed but stands for no text. -/
inductive Json where
  | null
  | bool (b : Bool)
  /-- A number written with digits alone. -/
  | nat (n : Nat)
  /-- A number with a sign, a fraction or an exponent, as it is written. -/
  | decimal (literal : String)
  | text (s : Option String)
  | array (items : List Json)
  | object (members : List (Option String × Json))
deriving Inhabited

namespace Json

def string (s : String) : Json := .text (some s)

def record (fields : List (String × Json)) : Json :=
  .object (fields.map fun f => (some f.1, f.2))

/-- A variant that carries a value is an object with the variant's name as its only key. -/
def variant (name : String) (value : Json) : Json := record [(name, value)]

def option {α : Type} (f : α → Json) : Option α → Json
  | none => .null
  | some a => f a

def list {α : Type} (f : α → Json) (xs : List α) : Json := .array (xs.map f)

def word? : Json → Option Nat
  | .nat n => if n < wordLimit then some n else none
  | _ => none

def bool? : Json → Option Bool
  | .bool b => some b
  | _ => none

def byte? : Json → Option UInt8
  | .nat n => if n < 256 then some (UInt8.ofNat n) else none
  | _ => none

def list? {α : Type} (f : Json → Option α) : Json → Option (List α)
  | .array items => items.mapM f
  | _ => none

/-- What an object gives for a key, the first one if it is there twice. -/
def lookup (name : String) (members : List (Option String × Json)) : Option Json :=
  (members.find? fun m => m.1 == some name).map (·.2)

/-- Every key stands for a text and none of `names` is there twice. -/
def keysFit (names : List String) (members : List (Option String × Json)) : Bool :=
  members.all (·.1.isSome) &&
    names.all fun name => members.countP (fun m => m.1 == some name) ≤ 1

/-- What the document gives for each field of a record with the fields `names`. -/
def fields? (names : List String) : Json → Option (List (Option Json))
  | .array items =>
    if items.length ≤ names.length then
      some (items.map some ++ List.replicate (names.length - items.length) none)
    else none
  | .object members =>
    if keysFit names members then some (names.map fun name => lookup name members) else none
  | _ => none

/-- The name and the value of a variant that carries one. -/
def variant? : Json → Option (String × Json)
  | .object [(some name, value)] => some (name, value)
  | _ => none

/-- The name of a variant that carries nothing: the bare name, or the name with `null`. -/
def bareVariant? : Json → Option String
  | .text s => s
  | .object [(some name, .null)] => some name
  | _ => none

end Json

end Quorum
