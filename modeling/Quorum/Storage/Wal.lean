import Quorum.Storage
import Quorum.Storage.Frame

/-!
The write-ahead log: a file of framed records, grown at its end.

An open log remembers where its records end and what the last one is. Opening cuts the file after
its last whole record, so that the next append continues the sequence.
-/

namespace Quorum

/-- What an open log remembers of its file. -/
structure Wal where
  /-- The bytes that the records take. The next record goes behind them. -/
  size : Nat := 0
  lastIndex : Index := 0
  lastTerm : Term := 0
deriving DecidableEq, Repr

namespace Wal

/-- What to remember of a file in which the given record is the last one. -/
def endingAt : Option Frame.Framed → Wal
  | none => {}
  | some r => ⟨r.stop, r.entry.index, r.entry.term⟩

/-! ### On the bytes of the file -/

/-- The log that bytes hold, and the bytes without what follows the last record. -/
def recover (bytes : Bytes) : Wal × Bytes :=
  let scan := Frame.scan bytes
  ({ endingAt scan.records.getLast? with size := scan.size }, bytes.take scan.size)

/-- An append is refused if its payload is too long, or else if it is not for the next position. -/
def admits (e : Entry) (w : Wal) : Except StorageError Unit :=
  if Frame.maxPayload < e.payload.length then .error (.recordTooLarge e.payload.length)
  else if e.index ≠ w.lastIndex + 1 then .error (.indexMismatch (w.lastIndex + 1) e.index)
  else .ok ()

/-- The log and the bytes once a record is written. -/
def extend (e : Entry) (w : Wal) (bytes : Bytes) : Wal × Bytes :=
  let record := Frame.encode e
  (⟨w.size + record.length, e.index, e.term⟩, Files.overwrite w.size record bytes)

/-- The records, as far as the log reaches. -/
def records (w : Wal) (bytes : Bytes) : List Entry := (Frame.scan (bytes.take w.size)).entries

/-- The log and the bytes once the records above `k` are cut off. -/
def cut (k : Index) (w : Wal) (bytes : Bytes) : Wal × Bytes :=
  if w.lastIndex ≤ k then (w, bytes)
  else
    let kept := (Frame.scan bytes).records.takeWhile fun r => r.entry.index ≤ k
    let w := endingAt kept.getLast?
    (w, bytes.take w.size)

/-! ### On the tree that holds the file -/

/-- Runs a change of the file at `path`. -/
def change (f : Wal → Bytes → Wal × Bytes) (path : Files.Path) (w : Wal) (tree : Files.Tree) :
    Except StorageError Unit × Wal × Files.Tree :=
  match tree.read path with
  | .error e => (.error (.io e), w, tree)
  | .ok bytes =>
    match f w bytes with
    | (w', bytes) =>
      match tree.write path bytes with
      | (.error e, tree) => (.error (.io e), w, tree)
      | (.ok (), tree) => (.ok (), w', tree)

/-- Opens the log at `path`, which is made if it is not there, directories and all. -/
def openFile (path : Files.Path) (tree : Files.Tree) : Except StorageError Wal × Files.Tree :=
  match tree.makeDirs path.parent with
  | (.error e, tree) => (.error (.io e), tree)
  | (.ok (), tree) =>
    match tree.openFile path with
    | (.error e, tree) => (.error (.io e), tree)
    | (.ok bytes, tree) =>
      match recover bytes with
      | (w, bytes) =>
        match tree.write path bytes with
        | (.error e, tree) => (.error (.io e), tree)
        | (.ok (), tree) => (.ok w, tree)

def appendTo (path : Files.Path) (e : Entry) (w : Wal) (tree : Files.Tree) :
    Except StorageError Index × Wal × Files.Tree :=
  match w.admits e with
  | .error err => (.error err, w, tree)
  | .ok () =>
    match change (extend e) path w tree with
    | (.error err, w, tree) => (.error err, w, tree)
    | (.ok (), w, tree) => (.ok e.index, w, tree)

def recordsOf (path : Files.Path) (w : Wal) (tree : Files.Tree) :
    Except StorageError (List Entry) :=
  match tree.read path with
  | .error e => .error (.io e)
  | .ok bytes => .ok (w.records bytes)

def truncateIn (path : Files.Path) (k : Index) (w : Wal) (tree : Files.Tree) :
    Except StorageError Unit × Wal × Files.Tree :=
  change (cut k) path w tree

end Wal

/-- A log in a file, with the tree that holds it. -/
structure LogFile where
  tree : Files.Tree
  path : Files.Path
  /-- What was remembered since the log was opened. -/
  wal : Wal

namespace LogFile

instance : LogStore LogFile where
  append e l :=
    match Wal.appendTo l.path e l.wal l.tree with
    | (r, wal, tree) => (r, { l with wal, tree })
  readAll l := (Wal.recordsOf l.path l.wal l.tree, l)
  truncate k l :=
    match Wal.truncateIn l.path k l.wal l.tree with
    | (r, wal, tree) => (r, { l with wal, tree })
  last l := (l.wal.lastIndex, l.wal.lastTerm)

instance : Reopen LogFile where
  reopen l :=
    match Wal.openFile l.path l.tree with
    | (.error e, tree) => (.error e, { l with tree })
    | (.ok wal, tree) => (.ok (), { l with tree, wal })

end LogFile

end Quorum
