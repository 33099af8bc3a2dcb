import Quorum.Text.Blank
import Quorum.Text.Quoted
import Quorum.Text.Utf8

/-!
The key-value store that committed entries drive.

A payload is a command in UTF-8: `SET`, a key and a value, or `DEL` and a key. Blanks at the two
ends of a command do not count, and a blank command does nothing. Words are parted by single
spaces, so a key holds no space, and a value is all that follows.
-/

namespace Quorum

/-- What takes the committed entries of a log, in order. A machine that refuses an entry stays as
it was: the log goes on. -/
class Machine (μ : Type) where
  apply : Entry → μ → μ

/-- Values by key. The pairs are in the order of their keys. -/
structure Kv where
  pairs : List (String × String) := []
deriving DecidableEq, Repr

namespace Kv

inductive Command where
  | nothing
  | set (key value : List Char)
  | delete (key : List Char)
deriving DecidableEq, Repr

inductive Error where
  | illFormed (e : Utf8.Error)
  | unrecognised (index : Index) (text : List Char)
deriving DecidableEq, Repr

def Error.message : Error → String
  | illFormed e => e.message
  | unrecognised index text => s!"unrecognised command at index {index}: " ++ Text.quoted text

/-- What stands before the first space and, if there is a space, what follows it. -/
def cutAtSpace (cs : List Char) : List Char × Option (List Char) :=
  match cs.dropWhile (· ≠ ' ') with
  | [] => (cs, none)
  | _ :: rest => (cs.takeWhile (· ≠ ' '), some rest)

/-- The command of a text without blanks at its ends. -/
def command? (cs : List Char) : Option Command :=
  if cs = [] then some .nothing
  else match cutAtSpace cs with
    | (_, none) => none
    | (word, some rest) =>
      match cutAtSpace rest with
      | (key, some value) => if word = ['S', 'E', 'T'] then some (.set key value) else none
      | (key, none) => if word = ['D', 'E', 'L'] then some (.delete key) else none

/-- The value of a key. -/
def get? (key : String) (kv : Kv) : Option String :=
  (kv.pairs.find? fun p => p.1 == key).map (·.2)

/-- Puts a pair where its key belongs. -/
def insertPair (key value : String) : List (String × String) → List (String × String)
  | [] => [(key, value)]
  | (k, v) :: rest =>
    if key < k then (key, value) :: (k, v) :: rest
    else if k = key then (key, value) :: rest
    else (k, v) :: insertPair key value rest

def insert (key value : String) (kv : Kv) : Kv := ⟨insertPair key value kv.pairs⟩

def erase (key : String) (kv : Kv) : Kv := ⟨kv.pairs.filter fun p => p.1 ≠ key⟩

def run : Command → Kv → Kv
  | .nothing, kv => kv
  | .set key value, kv => kv.insert (String.ofList key) (String.ofList value)
  | .delete key, kv => kv.erase (String.ofList key)

/-- The command of a payload. The index only names the entry in the complaint. -/
def commandOf (e : Entry) : Except Error Command :=
  match Utf8.decode e.payload with
  | .error fault => .error (.illFormed fault)
  | .ok cs =>
    let text := Text.trim cs
    match command? text with
    | some c => .ok c
    | none => .error (.unrecognised e.index text)

def apply (e : Entry) (kv : Kv) : Except Error Kv :=
  match commandOf e with
  | .error err => .error err
  | .ok c => .ok (run c kv)

instance : Machine Kv where
  apply e kv :=
    match kv.apply e with
    | .ok kv' => kv'
    | .error _ => kv

end Kv

end Quorum
