import Quorum.Proofs.Trees
import Quorum.Proofs.Wals

/-!
A log in a file does what a log in memory does, and a crash takes nothing from it that was kept.

An open log file keeps some records (`LogFile.Keeps`) if the file holds these and nothing else, and
what is remembered of it is true. Every operation leads from such a log to another, and answers as
memory with the same records does: so the answers of a whole run are those of memory
(`LogFile.refines_memory`). A crash leaves the file of such a log with at most a part of one record
behind, which opening it anew cuts off (`LogFile.crash_recovered`).
-/

namespace Quorum

open Quorum.Frame

/-! ### What is asked of a log -/

/-- An operation on a stored log. -/
inductive LogTask
  | append (e : Entry)
  /-- An append that fails after so many bytes were written, if it comes to writing at all. -/
  | failAppend (e : Entry) (written : ℕ)
  | truncate (k : Index)
  | readAll
  | last
  | reopen

inductive LogAnswer
  | outcome (r : Except StorageError Unit)
  | appended (r : Except StorageError Index)
  | records (r : Except StorageError (List Entry))
  | last (i : Index × Term)

/-- An append that fails in memory leaves no trace. -/
def Memory.failAppend (e : Entry) (m : Memory) : Except StorageError Index × Memory :=
  match m.append e with
  | (.error err, _) => (.error err, m)
  | (.ok _, _) => (.error (.io .other), m)

namespace Memory

variable {m : Memory} {e : Entry}

lemma append_mismatch (hn : Numbered m.records) (hi : e.index ≠ m.records.length + 1) :
    LogStore.append e m = (.error (.indexMismatch (m.records.length + 1) e.index), m) := by
  simp [LogStore.append, Memory.append, lastOf_fst hn, hi]

end Memory

namespace LogTask

/-- The entry, if there is one, can be written as a record. -/
def Fits : LogTask → Prop
  | append e | failAppend e _ => e.Fits
  | truncate _ | readAll | last | reopen => True

instance : (task : LogTask) → Decidable task.Fits
  | append e | failAppend e _ => inferInstanceAs (Decidable e.Fits)
  | truncate _ | readAll | last | reopen => .isTrue trivial

section

variable {σ : Type} [LogStore σ] [Reopen σ]
variable (fail : ℕ → Entry → σ → Except StorageError Index × σ)

/-- The answer of storage to an operation, and the storage afterwards. -/
def perform (s : σ) : LogTask → LogAnswer × σ
  | append e => Prod.map .appended id (LogStore.append e s)
  | failAppend e written => Prod.map .appended id (fail written e s)
  | truncate k => Prod.map .outcome id (LogStore.truncate k s)
  | readAll => Prod.map .records id (LogStore.readAll s)
  | last => (.last (LogStore.last s), s)
  | reopen => Prod.map .outcome id (Reopen.reopen s)

def performAll (s : σ) : List LogTask → List LogAnswer × σ
  | [] => ([], s)
  | task :: tasks =>
    match task.perform fail s with
    | (answer, s) => Prod.map (answer :: ·) id (performAll s tasks)

end

end LogTask

def LogFile.run (l : LogFile) (tasks : List LogTask) : List LogAnswer × LogFile :=
  LogTask.performAll failAppend l tasks

def Memory.run (m : Memory) (tasks : List LogTask) : List LogAnswer × Memory :=
  LogTask.performAll (fun _ => failAppend) m tasks

namespace Wal

variable {path : Files.Path} {tree : Files.Tree} {d : Files.Place} {name : String} {bytes : Bytes}

lemma change_holds (h : tree.Holds path bytes d name) (f : Wal → Bytes → Wal × Bytes) (w : Wal) :
    ∃ tree', change f path w tree = (.ok (), (f w bytes).1, tree') ∧
      tree'.Holds path (f w bytes).2 d name := by
  obtain ⟨tree', hwrite, hholds, -⟩ := h.leads.write h.not_dir (f w bytes).2
  refine ⟨tree', ?_, hholds⟩
  rw [change, h.read]
  simp only [hwrite]

lemma openFile_holds (h : tree.Holds path bytes d name) :
    ∃ tree', openFile path tree = (.ok (recover bytes).1, tree') ∧
      tree'.Holds path (recover bytes).2 d name := by
  obtain ⟨tree', hwrite, hholds, -⟩ := h.leads.write h.not_dir (recover bytes).2
  refine ⟨tree', ?_, hholds⟩
  rw [openFile, h.leads.makeDirs]
  simp only [h.openFile, hwrite]

/-- A log that could be opened holds what was recovered from the bytes of the file, if there was
one. -/
lemma exists_of_openFile {tree' : Files.Tree} {w : Wal}
    (hopen : openFile path tree = (.ok w, tree')) :
    ∃ bytes d name, w = (recover bytes).1 ∧ tree'.Holds path (recover bytes).2 d name ∧
      ((tree.makeDirs path.parent).2.read path = .ok bytes ∨ bytes = []) := by
  unfold openFile at hopen
  rcases hmake : tree.makeDirs path.parent with ⟨_ | ⟨⟩, tree₁⟩ <;>
    rw [hmake] at hopen <;> dsimp only at hopen ⊢
  · cases (Prod.mk.inj hopen).1
  · rcases hfile : tree₁.openFile path with ⟨_ | bytes, tree₂⟩ <;>
      rw [hfile] at hopen <;> dsimp only at hopen
    · cases (Prod.mk.inj hopen).1
    · obtain ⟨d, name, hholds, hbytes⟩ := Files.Tree.holds_of_openFile hfile
      obtain ⟨tree₃, hwrite, hholds', -⟩ := hholds.leads.write hholds.not_dir (recover bytes).2
      rw [hwrite] at hopen
      obtain ⟨h1, rfl⟩ := Prod.mk.inj hopen
      refine ⟨bytes, d, name, (Except.ok.inj h1).symm, hholds', ?_⟩
      exact hbytes.imp_left fun hold => hold.read

/-- A log that is opened where no file was is empty. -/
lemma holds_of_openFile {tree' : Files.Tree} {w : Wal}
    (hopen : openFile path tree = (.ok w, tree'))
    (hnew : (tree.makeDirs path.parent).2.read path = .error .notFound) :
    w = of [] ∧ ∃ d name, tree'.Holds path [] d name := by
  obtain ⟨bytes, d, name, rfl, hholds, hbytes⟩ := exists_of_openFile hopen
  obtain rfl : bytes = [] := by
    rcases hbytes with hold | hnil
    · cases hold.symm.trans hnew
    · exact hnil
  have hrec : recover [] = (of [], []) := recover_encodeAll .nil (by simp)
  rw [hrec] at hholds ⊢
  exact ⟨rfl, d, name, hholds⟩

end Wal

/-! ### One operation -/

/-- The file at the path holds these records and behind them these bytes, and what is remembered of
it is the records. -/
structure LogFile.Trails (l : LogFile) (path : Files.Path) (es : List Entry) (rest : Bytes) :
    Prop where
  path_eq : l.path = path
  holds : ∃ d name, l.tree.Holds path (encodeAll es ++ rest) d name
  wal_eq : l.wal = .of es
  numbered : Numbered es
  fits : ∀ e ∈ es, e.Fits

/-- The file at the path holds these records and nothing else, and what is remembered of it is
true. -/
structure LogFile.Keeps (l : LogFile) (path : Files.Path) (es : List Entry) : Prop where
  path_eq : l.path = path
  holds : ∃ d name, l.tree.Holds path (encodeAll es) d name
  wal_eq : l.wal = .of es
  numbered : Numbered es
  fits : ∀ e ∈ es, e.Fits

namespace LogFile

variable {l : LogFile} {path : Files.Path} {es : List Entry} {e : Entry} {rest : Bytes}

/-- A file that begins with the records is opened with these if the next one is not whole. -/
lemma reopen_of_recover {bytes : Bytes} {d : Files.Place} {name : String}
    (hp : l.path = path) (hholds : l.tree.Holds path bytes d name)
    (hr : Wal.recover bytes = (.of es, encodeAll es)) (hn : Numbered es)
    (hfit : ∀ e ∈ es, e.Fits) :
    ∃ l', Reopen.reopen l = (.ok (), l') ∧ l'.Keeps path es := by
  obtain ⟨tree, hopen, hholds'⟩ := Wal.openFile_holds hholds
  rw [hr] at hopen hholds'
  refine ⟨⟨tree, l.path, .of es⟩, ?_, hp, ⟨d, name, hholds'⟩, rfl, hn, hfit⟩
  simp only [Reopen.reopen, hp, hopen]

lemma keeps_iff_trails : l.Keeps path es ↔ l.Trails path es [] := by
  constructor
  · rintro ⟨hp, hholds, hw, hn, hfit⟩
    exact ⟨hp, by rwa [List.append_nil], hw, hn, hfit⟩
  · rintro ⟨hp, hholds, hw, hn, hfit⟩
    exact ⟨hp, by rwa [List.append_nil] at hholds, hw, hn, hfit⟩

namespace Trails

lemma read (h : l.Trails path es rest) : l.tree.read path = .ok (encodeAll es ++ rest) := by
  obtain ⟨d, name, hholds⟩ := h.holds
  exact hholds.read

/-- A change of the file that leads to other records and other bytes behind them. -/
lemma change (h : l.Trails path es rest) {f : Wal → Bytes → Wal × Bytes} {fs : List Entry}
    {rest' : Bytes} (hf : f (.of es) (encodeAll es ++ rest) = (.of fs, encodeAll fs ++ rest'))
    (hn : Numbered fs) (hfit : ∀ e ∈ fs, e.Fits) :
    ∃ tree, Wal.change f l.path l.wal l.tree = (.ok (), .of fs, tree) ∧
      Trails ⟨tree, l.path, .of fs⟩ path fs rest' := by
  obtain ⟨d, name, hholds⟩ := h.holds
  obtain ⟨tree, hchange, hholds'⟩ := Wal.change_holds hholds f (.of es)
  rw [hf] at hchange hholds'
  refine ⟨tree, ?_, h.path_eq, ⟨d, name, hholds'⟩, rfl, hn, hfit⟩
  rw [h.path_eq, h.wal_eq, hchange]

lemma admits (h : l.Trails path es rest) (he : e.Fits) :
    l.wal.admits e = if e.index = es.length + 1 then .ok ()
      else .error (.indexMismatch (es.length + 1) e.index) := by
  rw [h.wal_eq, Wal.admits_of h.numbered he]

lemma append (h : l.Trails path es rest) (he : e.Fits) (hi : e.index = es.length + 1) :
    ∃ l', LogStore.append e l = (.ok e.index, l') ∧
      l'.Trails path (es ++ [e]) (rest.drop (encode e).length) := by
  obtain ⟨tree, hchange, htrails⟩ :=
    h.change (Wal.extend_of es e rest) (h.numbered.snoc hi) (fits_snoc h.fits he)
  refine ⟨_, ?_, htrails⟩
  simp only [LogStore.append, Wal.appendTo, h.admits he, if_pos hi, hchange]

/-- An append that fails is rolled back, and so is all that was left behind before it. -/
lemma failAppend (h : l.Trails path es rest) (he : e.Fits) (hi : e.index = es.length + 1)
    (written : ℕ) :
    ∃ l', l.failAppend written e = (.error (.io .other), l') ∧ l'.Trails path es [] := by
  have hcut : (Wal.of es).rollBack ((Wal.of es).tear written e (encodeAll es ++ rest)) =
      encodeAll es ++ [] := by
    rw [Wal.tear_of, Wal.rollBack_of, List.append_nil]
  obtain ⟨tree, hchange, htrails⟩ :=
    h.change (f := fun w bytes => (w, w.rollBack (w.tear written e bytes)))
      (congrArg (Prod.mk (Wal.of es)) hcut) h.numbered h.fits
  refine ⟨_, ?_, htrails⟩
  simp only [LogFile.failAppend, h.admits he, if_pos hi, hchange]

/-- What was written of an append that is not rolled back stays behind the records. -/
lemma strandAppend (h : l.Trails path es rest) (he : e.Fits) (hi : e.index = es.length + 1)
    (written : ℕ) :
    ∃ l', l.strandAppend written e = (.error (.io .other), l') ∧
      l'.Trails path es
        ((encode e).take written ++ rest.drop ((encode e).take written).length) := by
  obtain ⟨tree, hchange, htrails⟩ :=
    h.change (f := fun w bytes => (w, w.tear written e bytes)) (by rw [Wal.tear_of]) h.numbered
      h.fits
  refine ⟨_, ?_, htrails⟩
  simp only [LogFile.strandAppend, h.admits he, if_pos hi, hchange]

lemma truncate (h : l.Trails path es rest) (k : Index) :
    ∃ l', LogStore.truncate k l = (.ok (), l') ∧
      l'.Trails path (es.take k) (if es.length ≤ k then rest else []) := by
  obtain ⟨tree, hchange, htrails⟩ := h.change (Wal.cut_of h.numbered h.fits k rest)
    (h.numbered.take k) fun e hmem => h.fits e (List.mem_of_mem_take hmem)
  refine ⟨_, ?_, htrails⟩
  simp only [LogStore.truncate, Wal.truncateIn, hchange]

lemma readAll (h : l.Trails path es rest) : LogStore.readAll l = (.ok es, l) := by
  simp only [LogStore.readAll, Wal.recordsOf, h.path_eq, h.read, h.wal_eq,
    Wal.records_of h.numbered h.fits]

/-- Opening a log anew adds the records that the bytes behind it spell. -/
lemma reopen (h : l.Trails path es rest) :
    ∃ fs tail l', rest = encodeAll fs ++ tail ∧ Ends ((es ++ fs).length + 1) tail ∧
      Reopen.reopen l = (.ok (), l') ∧ l'.Keeps path (es ++ fs) := by
  obtain ⟨fs, tail, rfl, hn, hfit, htail⟩ := exists_records h.numbered h.fits rest
  obtain ⟨d, name, hholds⟩ := h.holds
  rw [← List.append_assoc, ← encodeAll_append] at hholds
  obtain ⟨l', hopen, hkeeps⟩ :=
    reopen_of_recover h.path_eq hholds (Wal.recover_of_ends hn hfit htail) hn hfit
  exact ⟨fs, tail, l', rfl, htail, hopen, hkeeps⟩

end Trails

namespace Keeps

lemma read (h : l.Keeps path es) : l.tree.read path = .ok (encodeAll es) := by
  obtain ⟨d, name, hholds⟩ := h.holds
  exact hholds.read

lemma append (h : l.Keeps path es) (he : e.Fits) (hi : e.index = es.length + 1) :
    ∃ l', LogStore.append e l = (.ok e.index, l') ∧ l'.Keeps path (es ++ [e]) := by
  obtain ⟨l', happ, htrails⟩ := (keeps_iff_trails.mp h).append he hi
  rw [List.drop_nil] at htrails
  exact ⟨l', happ, keeps_iff_trails.mpr htrails⟩

lemma append_mismatch (h : l.Keeps path es) (he : e.Fits) (hi : e.index ≠ es.length + 1) :
    LogStore.append e l = (.error (.indexMismatch (es.length + 1) e.index), l) := by
  simp only [LogStore.append, Wal.appendTo, (keeps_iff_trails.mp h).admits he, if_neg hi]

/-- An append that fails is rolled back: not a byte of it stays. -/
lemma failAppend (h : l.Keeps path es) (he : e.Fits) (hi : e.index = es.length + 1)
    (written : ℕ) :
    ∃ l', l.failAppend written e = (.error (.io .other), l') ∧ l'.Keeps path es := by
  obtain ⟨l', hfail, htrails⟩ := (keeps_iff_trails.mp h).failAppend he hi written
  exact ⟨l', hfail, keeps_iff_trails.mpr htrails⟩

lemma failAppend_mismatch (h : l.Keeps path es) (he : e.Fits) (hi : e.index ≠ es.length + 1)
    (written : ℕ) :
    l.failAppend written e = (.error (.indexMismatch (es.length + 1) e.index), l) := by
  simp only [LogFile.failAppend, (keeps_iff_trails.mp h).admits he, if_neg hi]

lemma truncate (h : l.Keeps path es) (k : Index) :
    ∃ l', LogStore.truncate k l = (.ok (), l') ∧ l'.Keeps path (es.take k) := by
  obtain ⟨l', htr, htrails⟩ := (keeps_iff_trails.mp h).truncate k
  rw [ite_self] at htrails
  exact ⟨l', htr, keeps_iff_trails.mpr htrails⟩

lemma readAll (h : l.Keeps path es) : LogStore.readAll l = (.ok es, l) :=
  (keeps_iff_trails.mp h).readAll

lemma last (h : l.Keeps path es) : LogStore.last l = Memory.lastOf es := by
  simp only [LogStore.last, h.wal_eq, Wal.of]

lemma reopen (h : l.Keeps path es) : ∃ l', Reopen.reopen l = (.ok (), l') ∧ l'.Keeps path es := by
  obtain ⟨d, name, hholds⟩ := h.holds
  exact reopen_of_recover h.path_eq hholds (Wal.recover_encodeAll h.numbered h.fits) h.numbered
    h.fits

end Keeps

/-! ### Runs -/

variable {m : Memory}

/-- One operation answers as in memory with the same records, and leaves the same records. -/
lemma Keeps.perform (h : l.Keeps path m.records) {task : LogTask} (hfit : task.Fits) :
    (task.perform LogFile.failAppend l).1 = (task.perform (fun _ => Memory.failAppend) m).1 ∧
      (task.perform LogFile.failAppend l).2.Keeps path
        (task.perform (fun _ => Memory.failAppend) m).2.records := by
  cases task with
  | append e =>
    by_cases hi : e.index = m.records.length + 1
    · obtain ⟨l', happ, hkeeps⟩ := h.append hfit hi
      rw [LogTask.perform, LogTask.perform, happ, Memory.append_next h.numbered hi]
      exact ⟨rfl, hkeeps⟩
    · rw [LogTask.perform, LogTask.perform, h.append_mismatch hfit hi,
        Memory.append_mismatch h.numbered hi]
      exact ⟨rfl, h⟩
  | failAppend e written =>
    by_cases hi : e.index = m.records.length + 1
    · obtain ⟨l', hfail, hkeeps⟩ := h.failAppend hfit hi written
      have hmem : Memory.append e m = _ := Memory.append_next h.numbered hi
      rw [LogTask.perform, LogTask.perform, hfail, Memory.failAppend, hmem]
      exact ⟨rfl, hkeeps⟩
    · have hmem : Memory.append e m = _ := Memory.append_mismatch h.numbered hi
      rw [LogTask.perform, LogTask.perform, h.failAppend_mismatch hfit hi, Memory.failAppend, hmem]
      exact ⟨rfl, h⟩
  | truncate k =>
    obtain ⟨l', htr, hkeeps⟩ := h.truncate k
    rw [LogTask.perform, LogTask.perform, htr]
    refine ⟨rfl, ?_⟩
    show l'.Keeps path (m.truncate k).records
    rwa [Memory.truncate_records h.numbered]
  | readAll =>
    rw [LogTask.perform, LogTask.perform, h.readAll]
    exact ⟨rfl, h⟩
  | last =>
    rw [LogTask.perform, LogTask.perform, h.last]
    exact ⟨rfl, h⟩
  | reopen =>
    obtain ⟨l', hopen, hkeeps⟩ := h.reopen
    rw [LogTask.perform, LogTask.perform, hopen]
    exact ⟨rfl, hkeeps⟩

/-- A run answers as in memory with the same records, and leaves the same records. -/
lemma Keeps.run (h : l.Keeps path m.records) {tasks : List LogTask}
    (hfit : ∀ task ∈ tasks, task.Fits) :
    (l.run tasks).1 = (m.run tasks).1 ∧ (l.run tasks).2.Keeps path (m.run tasks).2.records := by
  induction tasks generalizing l m with
  | nil => exact ⟨rfl, h⟩
  | cons task tasks ih =>
    obtain ⟨hanswer, hkeeps⟩ := h.perform (hfit task (by simp))
    obtain ⟨hanswers, hkeeps'⟩ := ih hkeeps fun t ht => hfit t (by simp [ht])
    refine ⟨?_, hkeeps'⟩
    show _ :: _ = _ :: _
    exact congrArg₂ List.cons hanswer hanswers

/-- A log that could be opened keeps some records. -/
lemma exists_keeps_of_openFile {tree tree' : Files.Tree} {wal : Wal}
    (hopen : Wal.openFile path tree = (.ok wal, tree')) :
    ∃ es, Keeps ⟨tree', path, wal⟩ path es := by
  obtain ⟨bytes, d, name, rfl, hholds, -⟩ := Wal.exists_of_openFile hopen
  obtain ⟨es, rest, rfl, hn, hfit, hends⟩ :=
    exists_records .nil (by simp : ∀ e ∈ ([] : List Entry), e.Fits) bytes
  rw [List.nil_append] at hn hfit hends
  rw [Wal.recover_of_ends hn hfit hends] at hholds ⊢
  exact ⟨es, rfl, ⟨d, name, hholds⟩, rfl, hn, hfit⟩

/-- A log that is opened where no file was keeps nothing. -/
lemma keeps_of_openFile {tree tree' : Files.Tree} {wal : Wal}
    (hopen : Wal.openFile path tree = (.ok wal, tree'))
    (hnew : (tree.makeDirs path.parent).2.read path = .error .notFound) :
    Keeps ⟨tree', path, wal⟩ path [] := by
  obtain ⟨rfl, hholds⟩ := Wal.holds_of_openFile hopen hnew
  exact ⟨rfl, hholds, rfl, .nil, by simp⟩

/-- **A log in a file refines one in memory.** Opened where no file was, it answers every operation
as memory does, in which appends that fail leave no trace, and at any time the file holds the bytes
of the records in force and nothing else. -/
theorem refines_memory {tree tree' : Files.Tree} {wal : Wal}
    (hopen : Wal.openFile path tree = (.ok wal, tree'))
    (hnew : (tree.makeDirs path.parent).2.read path = .error .notFound)
    (tasks : List LogTask) (hfit : ∀ task ∈ tasks, task.Fits) :
    let file := run ⟨tree', path, wal⟩ tasks
    let memory := Memory.run {} tasks
    file.1 = memory.1 ∧
      LogStore.readAll file.2 = (.ok memory.2.records, file.2) ∧
      LogStore.last file.2 = LogStore.last memory.2 ∧
      file.2.tree.read path = .ok (encodeAll memory.2.records) ∧
      file.2.wal.size = (encodeAll memory.2.records).length := by
  have hstart : Keeps ⟨tree', path, wal⟩ path (Memory.records {}) := keeps_of_openFile hopen hnew
  obtain ⟨hanswers, hkeeps⟩ := hstart.run hfit
  exact ⟨hanswers, hkeeps.readAll, hkeeps.last, hkeeps.read, congrArg Wal.size hkeeps.wal_eq⟩

/-- An empty log, in a tree that was empty before it was opened. -/
def first : LogFile := ⟨[(["wal"], .dir), (["wal", "wal.log"], .file [])], ["wal", "wal.log"], {}⟩

lemma first_opened : Wal.openFile first.path [] = (.ok first.wal, first.tree) := by
  have hmake : Files.Tree.makeDirs first.path.parent [] = (.ok (), [(["wal"], .dir)]) := rfl
  have hfile : Files.Tree.openFile first.path [(["wal"], .dir)] = (.ok [], first.tree) := rfl
  have hrec : Wal.recover [] = (.of [], []) := Wal.recover_encodeAll .nil (by simp)
  have hwrite : first.tree.write first.path [] = (.ok (), first.tree) := rfl
  rw [Wal.openFile, hmake]
  simp only [hfile, hrec, hwrite]
  rfl

lemma first_new : (Files.Tree.makeDirs first.path.parent []).2.read first.path = .error .notFound :=
  rfl

/-- A run in which an append fails with all but one byte written, one is for a wrong position, and
records are cut off before the log is opened anew. -/
def rough : List LogTask :=
  [.append ⟨1, 1, [7]⟩, .failAppend ⟨1, 2, [8, 9]⟩ 21, .append ⟨2, 2, [8]⟩, .append ⟨2, 9, []⟩,
    .truncate 1, .reopen, .append ⟨3, 2, [5]⟩, .readAll, .last]

lemma rough_fits : ∀ task ∈ rough, task.Fits := by decide

/-- Neither the append that failed nor the record that was cut off shows again. -/
theorem refines_memory_rough :
    Wal.openFile first.path [] = (.ok first.wal, first.tree) ∧
      (Files.Tree.makeDirs first.path.parent []).2.read first.path = .error .notFound ∧
      (∀ task ∈ rough, task.Fits) ∧
      (run first rough).1 =
        [.appended (.ok 1), .appended (.error (.io .other)), .appended (.ok 2),
          .appended (.error (.indexMismatch 3 9)), .outcome (.ok ()), .outcome (.ok ()),
          .appended (.ok 2), .records (.ok [⟨1, 1, [7]⟩, ⟨3, 2, [5]⟩]), .last (2, 3)] ∧
      (run first rough).2.tree.read first.path =
        .ok (encode ⟨1, 1, [7]⟩ ++ encode ⟨3, 2, [5]⟩) := by
  obtain ⟨hanswers, -, -, hbytes, -⟩ := refines_memory first_opened first_new rough rough_fits
  exact ⟨first_opened, first_new, rough_fits, hanswers, hbytes⟩

end LogFile

/-! ### Crashes -/

def LogCrash.Fits : LogCrash → Prop
  | .append e _ => e.Fits
  | .idle | .truncate .. => True

/-- What is to be left of the records: an append counts if all its bytes were written, and a
truncation if the file was cut. -/
def Memory.crash (m : Memory) : LogCrash → Memory
  | .idle => m
  | .append e written => if (encode e).length ≤ written then (LogStore.append e m).2 else m
  | .truncate k cut => if cut then m.truncate k else m

namespace LogFile

variable {path : Files.Path} {l : LogFile} {m : Memory}

/-- Whatever a crash leaves is opened with the records that are to be left. -/
lemma Keeps.crash (h : l.Keeps path m.records) {c : LogCrash} (hfit : c.Fits) :
    ∃ l', Reopen.reopen (l.crash c) = (.ok (), l') ∧ l'.Keeps path (m.crash c).records := by
  cases c with
  | idle => exact h.reopen
  | append e written =>
    by_cases hi : e.index = m.records.length + 1
    · obtain ⟨d, name, hholds⟩ := h.holds
      obtain ⟨tree, hchange, hholds'⟩ :=
        Wal.change_holds hholds (fun w bytes => (w, w.tear written e bytes)) (.of m.records)
      have hleft : l.crash (.append e written) = ⟨tree, path, .of m.records⟩ := by
        simp only [LogFile.crash, h.path_eq, h.wal_eq, Wal.admits_of h.numbered hfit, if_pos hi,
          hchange]
      have hkept : (m.crash (.append e written)).records =
          if (encode e).length ≤ written then m.records ++ [e] else m.records := by
        simp only [Memory.crash, Memory.append_next h.numbered hi]
        split <;> rfl
      rw [hleft, hkept]
      refine reopen_of_recover rfl hholds'
        (Wal.recover_tear h.numbered h.fits hfit hi written) ?_ ?_
      · split
        · exact h.numbered.snoc hi
        · exact h.numbered
      · split
        · exact fits_snoc h.fits hfit
        · exact h.fits
    · have hleft : l.crash (.append e written) = l := by
        simp only [LogFile.crash, (keeps_iff_trails.mp h).admits hfit, if_neg hi]
      have hkept : m.crash (.append e written) = m := by
        simp only [Memory.crash, Memory.append_mismatch h.numbered hi, ite_self]
      rw [hleft, hkept]
      exact h.reopen
  | truncate k cut =>
    cases cut with
    | false => exact h.reopen
    | true =>
      obtain ⟨l', htr, hkeeps⟩ := h.truncate k
      have hleft : l.crash (.truncate k true) = l' := by
        simp only [LogFile.crash, if_true, htr]
      have hkept : (m.crash (.truncate k true)).records = m.records.take k :=
        Memory.truncate_records h.numbered k
      rw [hleft, hkept]
      exact hkeeps.reopen

/-- **A crash takes nothing that was kept.** After any run of a log that was opened where no file
was, and a crash between two operations or within one, the log is opened again with the records in
force: with the one that was being added if all its bytes were written, and without those that were
being cut off if the file was cut. The file is then cut to these records, and the log goes on behind
the last of them as memory that holds them does. -/
theorem crash_recovered {tree tree' : Files.Tree} {wal : Wal}
    (hopen : Wal.openFile path tree = (.ok wal, tree'))
    (hnew : (tree.makeDirs path.parent).2.read path = .error .notFound)
    (tasks : List LogTask) (hfit : ∀ task ∈ tasks, task.Fits) (c : LogCrash) (hc : c.Fits) :
    let memory := (Memory.run {} tasks).2.crash c
    ∃ file, Reopen.reopen ((run ⟨tree', path, wal⟩ tasks).2.crash c) = (.ok (), file) ∧
      LogStore.readAll file = (.ok memory.records, file) ∧
      LogStore.last file = LogStore.last memory ∧
      file.tree.read path = .ok (encodeAll memory.records) ∧
      file.wal.size = (encodeAll memory.records).length ∧
      (∀ e : Entry, e.Fits →
        ((LogStore.append e file).1 = .ok e.index ↔ e.index = (LogStore.last file).1 + 1)) ∧
      ∀ more : List LogTask, (∀ task ∈ more, task.Fits) →
        (run file more).1 = (memory.run more).1 := by
  have hstart : Keeps ⟨tree', path, wal⟩ path (Memory.records {}) := keeps_of_openFile hopen hnew
  obtain ⟨file, hreopen, hkeeps⟩ := (hstart.run hfit).2.crash hc
  refine ⟨file, hreopen, hkeeps.readAll, hkeeps.last, hkeeps.read,
    congrArg Wal.size hkeeps.wal_eq, fun e he => ?_, fun more hmore => (hkeeps.run hmore).1⟩
  rw [hkeeps.last, Memory.lastOf_fst hkeeps.numbered]
  by_cases hi : e.index = ((Memory.run {} tasks).2.crash c).records.length + 1
  · obtain ⟨file', happ, -⟩ := hkeeps.append he hi
    simp [happ, hi]
  · simp [hkeeps.append_mismatch he hi, hi]

/-- The run ends within an append of which a byte is missing, or none. -/
theorem crash_recovered_torn :
    (∃ file,
        Reopen.reopen ((run first rough).2.crash (.append ⟨3, 3, [6, 6]⟩ 21)) = (.ok (), file) ∧
        LogStore.readAll file = (.ok [⟨1, 1, [7]⟩, ⟨3, 2, [5]⟩], file)) ∧
      ∃ file,
        Reopen.reopen ((run first rough).2.crash (.append ⟨3, 3, [6, 6]⟩ 22)) = (.ok (), file) ∧
        LogStore.readAll file = (.ok [⟨1, 1, [7]⟩, ⟨3, 2, [5]⟩, ⟨3, 3, [6, 6]⟩], file) := by
  have hc : Entry.Fits ⟨3, 3, [6, 6]⟩ := ⟨by decide, by decide, by decide⟩
  obtain ⟨file, hopen, hread, -⟩ :=
    crash_recovered first_opened first_new rough rough_fits (.append ⟨3, 3, [6, 6]⟩ 21) hc
  obtain ⟨file', hopen', hread', -⟩ :=
    crash_recovered first_opened first_new rough rough_fits (.append ⟨3, 3, [6, 6]⟩ 22) hc
  exact ⟨⟨file, hopen, hread⟩, file', hopen', hread'⟩

end LogFile

end Quorum
