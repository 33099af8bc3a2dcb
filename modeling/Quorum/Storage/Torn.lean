import Quorum.Storage.BallotFile
import Quorum.Storage.Wal

/-!
Operations on files that do not come to their end.

A write that fails, or that a crash cuts short, has written the first bytes of what it was to write
and has left all others alone. An append that fails cuts the file back to where its records end, if
that does not fail too; after a crash nobody does so. A ballot is written to its second file first,
so as long as that file has not taken the place of the first, the first is as it was.
-/

namespace Quorum

/-- The bytes of a file that is given another length. Bytes that nobody wrote are zero. -/
def Files.resize (n : Nat) (bytes : Bytes) : Bytes :=
  bytes.take n ++ List.replicate (n - bytes.length) 0

namespace Wal

/-- The bytes after so many of a record's bytes were written. -/
def tear (written : Nat) (e : Entry) (w : Wal) (bytes : Bytes) : Bytes :=
  Files.overwrite w.size ((Frame.encode e).take written) bytes

/-- A record of which all bytes were written is added. -/
theorem tear_whole {written : Nat} {e : Entry} (h : (Frame.encode e).length ≤ written) (w : Wal)
    (bytes : Bytes) : w.tear written e bytes = (w.extend e bytes).2 := by
  rw [tear, extend, List.take_of_length_le h]

/-- The bytes cut back to where the records end. -/
def rollBack (w : Wal) (bytes : Bytes) : Bytes := Files.resize w.size bytes

end Wal

namespace LogFile

/-- An append that fails after so many bytes were written, if it comes to writing at all. What was
written is cut off again. -/
def failAppend (written : Nat) (e : Entry) (l : LogFile) : Except StorageError Index × LogFile :=
  match l.wal.admits e with
  | .error err => (.error err, l)
  | .ok () =>
    match Wal.change (fun w bytes => (w, w.rollBack (w.tear written e bytes))) l.path l.wal l.tree with
    | (.error err, wal, tree) => (.error err, { l with wal, tree })
    | (.ok (), wal, tree) => (.error (.io .other), { l with wal, tree })

/-- An append that fails after so many bytes were written, and cannot cut them off again either. -/
def strandAppend (written : Nat) (e : Entry) (l : LogFile) :
    Except StorageError Index × LogFile :=
  match l.wal.admits e with
  | .error err => (.error err, l)
  | .ok () =>
    match Wal.change (fun w bytes => (w, w.tear written e bytes)) l.path l.wal l.tree with
    | (.error err, wal, tree) => (.error err, { l with wal, tree })
    | (.ok (), wal, tree) => (.error (.io .other), { l with wal, tree })

end LogFile

/-- Where a crash can catch a log. -/
inductive LogCrash where
  | idle
  /-- So many bytes of the record were written. -/
  | append (e : Entry) (written : Nat)
  /-- The file was cut already, or not yet. -/
  | truncate (k : Index) (cut : Bool)

/-- The log as a crash leaves it. What was remembered of the file is lost when it is opened anew. -/
def LogFile.crash (l : LogFile) : LogCrash → LogFile
  | .idle => l
  | .append e written =>
    match l.wal.admits e with
    | .error _ => l
    | .ok () =>
      match Wal.change (fun w bytes => (w, w.tear written e bytes)) l.path l.wal l.tree with
      | (_, wal, tree) => { l with wal, tree }
  | .truncate k cut => if cut then (LogStore.truncate k l).2 else l

namespace BallotFile

/-- How far the writing of a ballot comes. -/
inductive Reach where
  /-- The second file was not made. -/
  | nothing
  /-- So many bytes are in the second file, or all if there are not as many. -/
  | part (written : Nat)
  /-- The second file has taken the place of the first. -/
  | renamed

/-- The tree after a write that came so far. -/
def writeUpTo (reach : Reach) (path : Files.Path) (b : Ballot) (tree : Files.Tree) : Files.Tree :=
  match reach with
  | .nothing => tree
  | .part written => (tree.write (tempPath path) ((encode b).take written)).2
  | .renamed => (write path b tree).2

/-- A write fills the second file, and then that takes the place of the first. -/
theorem write_eq (path : Files.Path) (b : Ballot) (tree : Files.Tree)
    (h : (tree.write (tempPath path) (encode b)).1 = .ok ()) :
    (write path b tree).2 =
      ((writeUpTo (.part (encode b).length) path b tree).rename (tempPath path) path).2 := by
  rw [writeUpTo, List.take_length, write]
  rcases hw : tree.write (tempPath path) (encode b) with ⟨r, tree'⟩
  rw [hw] at h
  obtain rfl : r = .ok () := h
  dsimp only
  rcases tree'.rename (tempPath path) path with ⟨e | ⟨⟩, tree''⟩ <;> rfl

end BallotFile

end Quorum
