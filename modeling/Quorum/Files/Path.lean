/-!
Paths, as texts between slashes.

Following a path, an empty name and a single point stay where they are, two points lead up, and any
other name leads down. What a path ends in is told without the names that stay where they are; a
path that ends in a slash still asks for a directory.
-/

namespace Quorum.Files

/-- What stands between the slashes, from the root on. -/
abbrev Path := List String

/-- What stands between the slashes of a text. -/
def splitAtSlashes : List Char → List (List Char)
  | [] => [[]]
  | c :: cs =>
    if c = '/' then [] :: splitAtSlashes cs
    else match splitAtSlashes cs with
      | [] => [[c]]
      | name :: names => (c :: name) :: names

def pathOf (s : String) : Path := (splitAtSlashes s.toList).map String.ofList

def textOf (p : Path) : String := "/".intercalate p

namespace Path

/-- The name stays where it is. -/
def isIdle (name : String) : Bool := name == "" || name == "."

/-- The name stays where it is or leads up. -/
def isDots (name : String) : Bool := name == "." || name == ".."

/-- The path without the slashes at its end. -/
def unslashed (p : Path) : Path := (p.reverse.dropWhile (· == "")).reverse

/-- The path without the idle names at its end. -/
def trimEnd (p : Path) : Path := (p.reverse.dropWhile isIdle).reverse

/-- The path without the idle names at both ends. -/
def trim (p : Path) : Path := (trimEnd p).dropWhile isIdle

/-- The path of the directory that is left when the last name is taken away, idle ones apart. -/
def parent (p : Path) : Path := trimEnd (trimEnd p).dropLast

/-- The path is a single name, idle ones behind it apart. The path of its directory is empty and
cannot be opened. -/
def isBare (p : Path) : Bool := (trimEnd p).length == 1

/-- The last name, idle ones apart, unless it leads up. -/
def name? (p : Path) : Option String :=
  match (trimEnd p).getLast? with
  | some ".." => none
  | name => name

/-- The way on from a path. A slash at its end is not doubled. -/
def join (p q : Path) : Path := (if p.getLast? = some "" then p.dropLast else p) ++ q

/-- The bytes of a name at most. -/
def maxName : Nat := 255

/-- The bytes of a whole path at most, with a slash in front of each name. -/
def maxSize : Nat := 4095

def size (p : Path) : Nat := p.foldr (fun name n => name.utf8ByteSize + 1 + n) 0

/-- The character NUL ends a text, so no path can hold it. -/
def hasNul (p : Path) : Bool := p.any fun name => name.toList.contains '\x00'

end Path

end Quorum.Files
