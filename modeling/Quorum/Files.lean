import Quorum.Basic
import Quorum.Files.Path
import Quorum.Table

/-!
A tree of directories and files, and the operations a store needs of it.

The tree is a table from places to what stands there; the root is a directory and is not listed. A
path is followed name by name from the root, so several paths may lead to one place. An operation
answers with the reason it was refused, and what it had changed by then stays changed.
-/

namespace Quorum.Files

/-- Why an operation on the tree was refused. -/
inductive Error where
  | notFound
  | alreadyExists
  | notADirectory
  | isADirectory
  | nameTooLong
  | badName
  | busy
  | invalidData
  | other
deriving DecidableEq, Repr

def Error.name : Error → String
  | notFound => "NotFound"
  | alreadyExists => "AlreadyExists"
  | notADirectory => "NotADirectory"
  | isADirectory => "IsADirectory"
  | nameTooLong => "InvalidFilename"
  | badName => "InvalidInput"
  | busy => "ResourceBusy"
  | invalidData => "InvalidData"
  | other => "Other"

/-- The names on the way down from the root. -/
abbrev Place := List String

inductive Item where
  | dir
  | file (bytes : Bytes)
deriving DecidableEq, Repr

abbrev Tree := Table Place Item

namespace Tree

/-! ### Following paths -/

/-- What stands at a place, whatever stands above it. -/
def item? (q : Place) (t : Tree) : Option Item :=
  if q = [] then some .dir else Table.find? q t

/-- What is asked of a path before it is followed. -/
def admits (p : Path) : Except Error Unit :=
  if p.hasNul then .error .badName
  else if Path.maxSize < p.size then .error .nameTooLong
  else .ok ()

/-- Where a name leads from a place, at which there has to be a directory. -/
def step (t : Tree) (here : Place) (name : String) : Except Error Place :=
  match t.item? here with
  | none => .error .notFound
  | some (.file _) => .error .notADirectory
  | some .dir =>
    if Path.isIdle name then .ok here
    else if name = ".." then .ok here.dropLast
    else if Path.maxName < name.utf8ByteSize then .error .nameTooLong
    else .ok (here ++ [name])

/-- Where a path leads from a place. Only what it leads through has to be there. -/
def follow (t : Tree) (here : Place) : Path → Except Error Place
  | [] => .ok here
  | name :: rest =>
    match t.step here name with
    | .error e => .error e
    | .ok next => follow t next rest

/-- What is at the end of a path. -/
def stat (p : Path) (t : Tree) : Except Error Item := do
  admits p
  let here ← t.follow [] p
  match t.item? here with
  | some i => return i
  | none => throw .notFound

def isDir (p : Path) (t : Tree) : Bool := t.stat p matches .ok .dir

/-- The end of a path, seen from the directory that it is in. -/
structure Target where
  dir : Place
  name : String
  /-- Slashes follow the name: it is to be a directory. -/
  slashed : Bool

/-- The end of a path whose directory is there. -/
def target (p : Path) (t : Tree) : Except Error Target := do
  admits p
  let dir ← t.follow [] (p.unslashed.dropLast ++ ["."])
  return ⟨dir, p.unslashed.getLast?.getD ".", p.unslashed ≠ p⟩

/-- The place at the end of a path, if the last name leads down. -/
def Target.place (g : Target) : Except Error Place :=
  if Path.maxName < g.name.utf8ByteSize then .error .nameTooLong else .ok (g.dir ++ [g.name])

/-- The place of a directory that can be made: nothing is there. -/
def vacant (p : Path) (t : Tree) : Except Error Place := do
  let g ← t.target p
  if Path.isDots g.name then throw .alreadyExists
  let here ← g.place
  if (t.item? here).isSome then throw .alreadyExists
  return here

/-- The place of a file that can be opened: the path does not ask for a directory, and none is
there. -/
def filePlace (p : Path) (t : Tree) : Except Error Place := do
  let g ← t.target p
  if Path.isDots g.name || g.slashed then throw .isADirectory
  let here ← g.place
  if t.item? here = some .dir then throw .isADirectory
  return here

/-- The place of a file that can be removed. -/
def removable (p : Path) (t : Tree) : Except Error Place := do
  let g ← t.target p
  if Path.isDots g.name then throw .isADirectory
  let here ← g.place
  match t.item? here with
  | none => throw .notFound
  | some .dir => throw .isADirectory
  | some (.file _) => if g.slashed then throw .notADirectory else return here

/-- What can be moved: a file, its place, and the place it is to have. -/
def movable (src dst : Path) (t : Tree) : Except Error (Bytes × Place × Place) := do
  let g ← t.target src
  let h ← t.target dst
  if Path.isDots g.name || Path.isDots h.name then throw .busy
  let here ← g.place
  match t.item? here with
  | none => throw .notFound
  | some .dir => throw .isADirectory
  | some (.file bytes) =>
    let there ← h.place
    if g.slashed || h.slashed then throw .notADirectory
    if t.item? there = some .dir then throw .isADirectory
    return (bytes, here, there)

/-! ### Operations -/

/-- Makes one directory. The one above it has to be there. -/
def makeDir (p : Path) (t : Tree) : Except Error Unit × Tree :=
  match t.vacant p with
  | .error e => (.error e, t)
  | .ok here => (.ok (), Table.insert here .dir t)

/-- Makes one directory unless it is there. -/
def ensureDir (p : Path) (t : Tree) : Except Error Unit × Tree :=
  match t.makeDir p with
  | (.error .alreadyExists, t) =>
    if t.isDir p then (.ok (), t) else (.error .alreadyExists, t)
  | r => r

/-- Tries to do something. If what it needs is not there, that is made and it is tried again. -/
def retryAfter (make act : Tree → Except Error Unit × Tree) (t : Tree) :
    Except Error Unit × Tree :=
  match act t with
  | (.error .notFound, t) =>
    match make t with
    | (.ok (), t) => act t
    | r => r
  | r => r

/-- Makes a directory and those above it, given its names from the last one up. -/
def makeUpward : List String → Tree → Except Error Unit × Tree
  | [], t => (.ok (), t)
  | name :: above, t =>
    if Path.isIdle name then makeUpward above t
    else retryAfter (makeUpward above) (ensureDir (name :: above).reverse) t

/-- Makes a directory, and those above it as far as they are missing. -/
def makeDirs (p : Path) (t : Tree) : Except Error Unit × Tree :=
  match p.trimEnd.reverse with
  | [] => (.ok (), t)
  | _ :: above => retryAfter (makeUpward above) (ensureDir p) t

def read (p : Path) (t : Tree) : Except Error Bytes :=
  match t.stat p with
  | .ok (.file bytes) => .ok bytes
  | .ok .dir => .error .isADirectory
  | .error e => .error e

/-- The file at a path now holds `bytes`, whether it was there before or not. -/
def write (p : Path) (bytes : Bytes) (t : Tree) : Except Error Unit × Tree :=
  match t.filePlace p with
  | .error e => (.error e, t)
  | .ok here => (.ok (), Table.insert here (.file bytes) t)

/-- The bytes of the file at a path, which is made if it is not there. -/
def openFile (p : Path) (t : Tree) : Except Error Bytes × Tree :=
  match t.filePlace p with
  | .error e => (.error e, t)
  | .ok here =>
    match t.item? here with
    | some (.file bytes) => (.ok bytes, t)
    | _ => (.ok [], Table.insert here (.file []) t)

def remove (p : Path) (t : Tree) : Except Error Unit × Tree :=
  match t.removable p with
  | .error e => (.error e, t)
  | .ok here => (.ok (), Table.erase here t)

/-- The file at `src` takes the place of what is at `dst`, in one step. -/
def rename (src dst : Path) (t : Tree) : Except Error Unit × Tree :=
  match t.movable src dst with
  | .error e => (.error e, t)
  | .ok (bytes, here, there) => (.ok (), Table.insert there (.file bytes) (Table.erase here t))

/-- A line for each item below a directory, by its way from there: a directory ends in a slash, a
file is followed by its size. -/
def listing (dir : Place) (t : Tree) : List String :=
  (t.filterMap fun (here, i) =>
    match dir.isPrefixOf? here, i with
    | none, _ | some [], _ => none
    | some names, .dir => some (textOf names ++ "/")
    | some names, .file bytes => some (textOf names ++ " " ++ toString bytes.length)).mergeSort
      fun a b => a ≤ b

end Tree

/-- Bytes written over the front of others. -/
def overlay : Bytes → Bytes → Bytes
  | new, [] => new
  | [], old => old
  | b :: new, _ :: old => b :: overlay new old

theorem overlay_eq (new old : Bytes) : overlay new old = new ++ old.drop new.length := by
  fun_induction overlay new old with
  | case1 => simp
  | case2 => simp
  | case3 b new _ old ih => simp [ih]

/-- The bytes of a file after `new` was written at `start`. Bytes that nobody wrote are zero. -/
def overwrite (start : Nat) (new old : Bytes) : Bytes :=
  if old.length ≤ start then old ++ (List.replicate (start - old.length) 0 ++ new)
  else old.take start ++ overlay new (old.drop start)

theorem overwrite_eq (start : Nat) (new old : Bytes) :
    overwrite start new old =
      old.take start ++ List.replicate (start - old.length) 0 ++ new ++
        old.drop (start + new.length) := by
  unfold overwrite
  split
  · rename_i h
    rw [List.take_of_length_le h, List.drop_of_length_le (by omega)]
    simp
  · rename_i h
    have : start - old.length = 0 := by omega
    simp [overlay_eq, this]

end Quorum.Files
