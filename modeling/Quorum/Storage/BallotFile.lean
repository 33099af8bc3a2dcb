import Quorum.Storage
import Quorum.Storage.Frame
import Quorum.Text.Hex

/-!
The file of a ballot.

It holds four bytes of magic, a version, the term, a flag, and the candidate if the flag is set;
numbers have their high byte first. What follows the ballot does not count. A new ballot is
written to a second file that then takes the place of the first, so that a reader finds the old
ballot or the new one and never a part of either.
-/

namespace Quorum

/-- A ballot in a file, with the tree that holds it. -/
structure BallotFile where
  tree : Files.Tree
  path : Files.Path

namespace BallotFile

def magic : Bytes := [0x52, 0x46, 0x54, 0x53]

def version : Nat := 1

/-- Bytes of magic, version, term and flag. -/
def fixedSize : Nat := 20

/-- Why bytes are no ballot. -/
inductive Damage where
  | short (size : Nat)
  | badMagic (found : Bytes)
  | badVersion (found : Nat)
  | noCandidate
  | badFlag (found : Nat)
deriving DecidableEq, Repr

def Damage.message : Damage → String
  | short size => s!"vote file too short: {size} bytes"
  | badMagic found =>
    "bad magic [" ++ ", ".intercalate (found.map fun b => String.ofList (Text.hexByte b)) ++ "]"
  | badVersion found => s!"unsupported vote file version {found}"
  | noCandidate => "vote file missing candidate id"
  | badFlag found => s!"bad vote flag {found}"

def encode (b : Ballot) : Bytes :=
  magic ++ (bigEndian 4 version ++ (bigEndian 8 b.term ++
    match b.vote with
    | none => bigEndian 4 0
    | some candidate => bigEndian 4 1 ++ bigEndian 8 candidate))

def decode (bytes : Bytes) : Except Damage Ballot :=
  if bytes.length < fixedSize then .error (.short bytes.length)
  else if bytes.take 4 ≠ magic then .error (.badMagic (bytes.take 4))
  else
    let found := ofBigEndian ((bytes.drop 4).take 4)
    if found ≠ version then .error (.badVersion found)
    else
      let term := ofBigEndian ((bytes.drop 8).take 8)
      let flag := ofBigEndian ((bytes.drop 16).take 4)
      let rest := bytes.drop fixedSize
      if flag = 0 then .ok ⟨term, none⟩
      else if flag ≠ 1 then .error (.badFlag flag)
      else if rest.length < 8 then .error .noCandidate
      else .ok ⟨term, some (ofBigEndian (rest.take 8))⟩

/-- A file name, parted from what follows its last point. A point in front does not count. -/
def cutExtension (name : List Char) : List Char × List Char :=
  let stem := ((name.reverse.dropWhile (· ≠ '.')).drop 1).reverse
  if stem = [] then (name, []) else (stem, (name.reverse.takeWhile (· ≠ '.')).reverse)

/-- Where a new ballot is written before it takes its place: the name gets another extension. A
name such as `..x` is left with two points without its own, and those lead up and get none. -/
def tempPath (path : Files.Path) : Files.Path :=
  match path.name? with
  | none => path
  | some name =>
    match cutExtension name.toList with
    | (stem, extension) =>
      if stem = ['.'] ∧ extension ≠ [] ∧ path.getLast? = some name then path.dropLast ++ [".."]
      else path.trimEnd.dropLast ++ [String.ofList stem ++ ".meta.tmp"]

/-- Makes the directories of the file. What an interrupted write has left goes. -/
def openFile (path : Files.Path) (tree : Files.Tree) : Except StorageError Unit × Files.Tree :=
  match tree.makeDirs path.parent with
  | (.error e, tree) => (.error (.io e), tree)
  | (.ok (), tree) =>
    match tree.remove (tempPath path) with
    | (.ok (), tree) => (.ok (), tree)
    | (.error .notFound, tree) => (.ok (), tree)
    | (.error e, tree) => (.error (.io e), tree)

/-- Without a file no ballot was ever written. -/
def read (path : Files.Path) (tree : Files.Tree) : Except StorageError Ballot :=
  match tree.read path with
  | .error .notFound => .ok {}
  | .error e => .error (.io e)
  | .ok bytes =>
    match decode bytes with
    | .ok b => .ok b
    | .error d => .error (.corrupt d.message)

/-- Makes sure that the directory of a file that took its place will still hold it. The directory
is there, so it can be opened unless its path is empty. -/
def settle (path : Files.Path) : Except StorageError Unit :=
  if path.isBare then .error (.io .notFound) else .ok ()

/-- Writes a ballot and makes it last. A ballot that took its place stays there even if it could not
be made to last. -/
def write (path : Files.Path) (b : Ballot) (tree : Files.Tree) :
    Except StorageError Unit × Files.Tree :=
  match tree.write (tempPath path) (encode b) with
  | (.error e, tree) => (.error (.io e), tree)
  | (.ok (), tree) =>
    match tree.rename (tempPath path) path with
    | (.error e, tree) => (.error (.io e), tree)
    | (.ok (), tree) => (settle path, tree)

instance : BallotStore BallotFile where
  readBallot b := (read b.path b.tree, b)
  writeBallot ballot b :=
    match write b.path ballot b.tree with
    | (r, tree) => (r, { b with tree })

instance : Reopen BallotFile where
  reopen b :=
    match openFile b.path b.tree with
    | (r, tree) => (r, { b with tree })

end BallotFile

end Quorum
