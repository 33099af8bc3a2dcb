import Quorum.Storage.BallotFile
import Quorum.Storage.Wal

/-!
The data directory of a member: `wal/wal.log` holds its log and `persist.meta` its ballot.
-/

namespace Quorum

/-- An open data directory in a tree of files. -/
structure DataDir where
  tree : Files.Tree
  dir : Files.Path
  wal : Wal

namespace DataDir

def walPath (dir : Files.Path) : Files.Path := dir.join ["wal", "wal.log"]

def ballotPath (dir : Files.Path) : Files.Path := dir.join ["persist.meta"]

/-- Makes the directory if it is not there. -/
def make (dir : Files.Path) (tree : Files.Tree) : Except StorageError Unit × Files.Tree :=
  match tree.makeDirs dir with
  | (.error e, tree) => (.error (.io e), tree)
  | (.ok (), tree) => (.ok (), tree)

/-- Opens the log and then the ballot. -/
def openIn (dir : Files.Path) (tree : Files.Tree) : Except StorageError Wal × Files.Tree :=
  match make dir tree with
  | (.error e, tree) => (.error e, tree)
  | (.ok (), tree) =>
    match Wal.openFile (walPath dir) tree with
    | (.error e, tree) => (.error e, tree)
    | (.ok wal, tree) =>
      match BallotFile.openFile (ballotPath dir) tree with
      | (.error e, tree) => (.error e, tree)
      | (.ok (), tree) => (.ok wal, tree)

/-- The log by itself. -/
def logFile (d : DataDir) : LogFile := ⟨d.tree, walPath d.dir, d.wal⟩

/-- The directory once its log has changed. -/
def withLogFile (d : DataDir) (l : LogFile) : DataDir := { d with tree := l.tree, wal := l.wal }

instance : LogStore DataDir where
  append e d :=
    match LogStore.append e d.logFile with
    | (r, l) => (r, d.withLogFile l)
  readAll d :=
    match LogStore.readAll d.logFile with
    | (r, l) => (r, d.withLogFile l)
  truncate k d :=
    match LogStore.truncate k d.logFile with
    | (r, l) => (r, d.withLogFile l)
  last d := LogStore.last d.logFile

/-- The ballot by itself. -/
def ballotFile (d : DataDir) : BallotFile := ⟨d.tree, ballotPath d.dir⟩

/-- The directory once its ballot has changed. -/
def withBallotFile (d : DataDir) (b : BallotFile) : DataDir := { d with tree := b.tree }

instance : BallotStore DataDir where
  readBallot d :=
    match BallotStore.readBallot d.ballotFile with
    | (r, b) => (r, d.withBallotFile b)
  writeBallot ballot d :=
    match BallotStore.writeBallot ballot d.ballotFile with
    | (r, b) => (r, d.withBallotFile b)

instance : Reopen DataDir where
  reopen d :=
    match openIn d.dir d.tree with
    | (.error e, tree) => (.error e, { d with tree })
    | (.ok wal, tree) => (.ok (), { d with tree, wal })

end DataDir

end Quorum
