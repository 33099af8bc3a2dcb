import Quorum.Proofs.BallotFiles
import Quorum.Proofs.FileLogs
import Quorum.Storage.DataDir

/-!
The log and the ballot of a data directory do not meet.

Each has a place of its own (`DataDir.Houses`). What is done to the log changes nothing in the tree
but its file, and a ballot that was written is all that has changed then, as its second file has
come and gone. So a directory answers any mixture of operations as a log in memory and a ballot
beside it do that have nothing in common (`Separate`), of which each answers as if there were no
other (`DataDir.stores_apart`).
-/

namespace Quorum

open Files.Tree (Spares)

/-! ### The log and the rest of the tree -/

namespace Wal

variable {path : Files.Path} {tree : Files.Tree} {d : Files.Place} {name : String} {bytes : Bytes}

lemma change_spares (h : tree.Holds path bytes d name) (f : Wal → Bytes → Wal × Bytes) (w : Wal) :
    Spares tree (change f path w tree).2.2 [d ++ [name]] := by
  obtain ⟨tree', hwrite, -, hspare⟩ := h.leads.write h.not_dir (f w bytes).2
  rw [change, h.read]
  simpa only [hwrite] using hspare

lemma openFile_spares (h : tree.Holds path bytes d name) :
    Spares tree (openFile path tree).2 [d ++ [name]] := by
  obtain ⟨tree', hwrite, -, hspare⟩ := h.leads.write h.not_dir (recover bytes).2
  rw [openFile, h.leads.makeDirs]
  simpa only [h.openFile, hwrite] using hspare

end Wal

namespace LogFile

variable {l : LogFile} {path : Files.Path} {es : List Entry} {tree : Files.Tree}
  {d : Files.Place} {name : String} {bytes : Bytes} {ys : List Files.Place}

/-- Whatever is done to a log, its file is all that changes. -/
lemma perform_spares (h : l.tree.Holds l.path bytes d name) (task : LogTask) :
    Spares l.tree (task.perform failAppend l).2.tree [d ++ [name]] := by
  have hsame : Spares l.tree l.tree [d ++ [name]] := .refl _ _
  cases task with
  | append e =>
    have hspare := Wal.change_spares h (Wal.extend e) l.wal
    simp only [LogTask.perform, LogStore.append, Wal.appendTo]
    rcases l.wal.admits e with err | ⟨⟩
    · exact hsame
    · generalize Wal.change _ l.path l.wal l.tree = r at hspare ⊢
      rcases r with ⟨_ | _, wal, tree⟩ <;> exact hspare
  | failAppend e written =>
    have hspare :=
      Wal.change_spares h (fun w bytes => (w, w.rollBack (w.tear written e bytes))) l.wal
    simp only [LogTask.perform, failAppend]
    rcases l.wal.admits e with err | ⟨⟩
    · exact hsame
    · generalize Wal.change _ l.path l.wal l.tree = r at hspare ⊢
      rcases r with ⟨_ | _, wal, tree⟩ <;> exact hspare
  | truncate k =>
    have hspare := Wal.change_spares h (Wal.cut k) l.wal
    simp only [LogTask.perform, LogStore.truncate, Wal.truncateIn]
    exact hspare
  | readAll => exact hsame
  | last => exact hsame
  | reopen =>
    have hspare := Wal.openFile_spares h
    simp only [LogTask.perform, Reopen.reopen]
    generalize Wal.openFile l.path l.tree = r at hspare ⊢
    rcases r with ⟨_ | _, tree⟩ <;> exact hspare

/-- A log goes on in a tree in which its file is what it was. -/
lemma Keeps.of_spares (h : l.Keeps path es) (hspare : Spares l.tree tree ys)
    (hplace : ∀ d name, l.tree.Leads path d name → d ++ [name] ∉ ys) :
    Keeps { l with tree } path es := by
  obtain ⟨d, name, hholds⟩ := h.holds
  refine { h with holds := ⟨d, name, hholds.leads.mono hspare.dirs, ?_⟩ }
  rw [hspare.elsewhere _ (hplace d name hholds.leads), hholds.file]

lemma openFile_of_reopen {l' : LogFile} (h : Reopen.reopen l = (.ok (), l')) :
    Wal.openFile l.path l.tree = (.ok l'.wal, l'.tree) := by
  simp only [Reopen.reopen] at h
  split at h
  · cases (Prod.mk.inj h).1
  · rename_i hopen
    rw [hopen, ← (Prod.mk.inj h).2]

end LogFile

/-! ### What is asked of a directory -/

/-- An operation on a data directory. -/
inductive DirTask
  /-- One on the log. To open it anew is to open the whole directory anew. -/
  | log (task : LogTask)
  | writeBallot (b : Ballot)
  | readBallot
  /-- The log is opened anew, and the ballot is not. -/
  | reopenLog
  /-- The ballot is opened anew, and the log is not. -/
  | reopenBallot

inductive DirAnswer
  | log (a : LogAnswer)
  /-- A ballot was written. -/
  | written (r : Except StorageError Unit)
  /-- One store was opened anew. -/
  | opened (r : Except StorageError Unit)
  | ballot (r : Except StorageError Ballot)

namespace DirTask

def Fits : DirTask → Prop
  | log task => task.Fits
  | writeBallot b => b.Fits
  | readBallot | reopenLog | reopenBallot => True

instance : (task : DirTask) → Decidable task.Fits
  | log task => inferInstanceAs (Decidable task.Fits)
  | writeBallot b => inferInstanceAs (Decidable b.Fits)
  | readBallot | reopenLog | reopenBallot => .isTrue trivial

/-- The operation on the log, if it is one. -/
def log? : DirTask → Option LogTask
  | log task => some task
  | _ => none

/-- What is read of the ballot in a run: what was written last, or what was read at the start. -/
def readings (r : Except StorageError Ballot) : List DirTask → List (Except StorageError Ballot)
  | [] => []
  | writeBallot b :: tasks => readings (.ok b) tasks
  | readBallot :: tasks => r :: readings r tasks
  | _ :: tasks => readings r tasks

end DirTask

namespace DirAnswer

def log? : DirAnswer → Option LogAnswer
  | log a => some a
  | _ => none

def ballot? : DirAnswer → Option (Except StorageError Ballot)
  | ballot r => some r
  | _ => none

end DirAnswer

namespace DataDir

/-- An append that fails after so many bytes were written, if it comes to writing at all. -/
def failAppend (written : ℕ) (e : Entry) (d : DataDir) : Except StorageError Index × DataDir :=
  Prod.map id d.withLogFile (d.logFile.failAppend written e)

def perform (d : DataDir) : DirTask → DirAnswer × DataDir
  | .log task => Prod.map .log id (task.perform failAppend d)
  | .writeBallot b => Prod.map .written id (BallotStore.writeBallot b d)
  | .readBallot => Prod.map .ballot id (BallotStore.readBallot d)
  | .reopenLog => Prod.map .opened d.withLogFile (Reopen.reopen d.logFile)
  | .reopenBallot => Prod.map .opened d.withBallotFile (Reopen.reopen d.ballotFile)

def run (d : DataDir) : List DirTask → List DirAnswer × DataDir
  | [] => ([], d)
  | task :: tasks =>
    match d.perform task with
    | (answer, d) => Prod.map (answer :: ·) id (d.run tasks)

@[simp] lemma dir_withLogFile (d : DataDir) (l : LogFile) : (d.withLogFile l).dir = d.dir := rfl

@[simp] lemma dir_withBallotFile (d : DataDir) (b : BallotFile) :
    (d.withBallotFile b).dir = d.dir := rfl

/-- Only to open the log anew is another thing for a directory than for the log by itself. -/
lemma perform_log_of_ne {task : LogTask} (htask : task ≠ .reopen) (d : DataDir) :
    task.perform failAppend d =
      Prod.map id d.withLogFile (task.perform LogFile.failAppend d.logFile) := by
  cases task with
  | reopen => exact absurd rfl htask
  | _ => rfl

lemma dir_reopen (d : DataDir) : (Reopen.reopen d).2.dir = d.dir := by
  simp only [Reopen.reopen]
  rcases openIn d.dir d.tree with ⟨_ | _, tree⟩ <;> rfl

lemma dir_perform (d : DataDir) (task : DirTask) : (d.perform task).2.dir = d.dir := by
  cases task with
  | log task =>
    by_cases htask : task = .reopen
    · simp [perform, htask, LogTask.perform, dir_reopen]
    · simp [perform, perform_log_of_ne htask]
  | writeBallot b => rfl
  | readBallot => rfl
  | reopenLog => simp [perform]
  | reopenBallot => simp [perform]

/-- Whatever is done in a directory, it goes by the same path. -/
lemma dir_run (d : DataDir) (tasks : List DirTask) : (d.run tasks).2.dir = d.dir := by
  induction tasks generalizing d with
  | nil => rfl
  | cons task tasks ih => exact (ih _).trans (d.dir_perform task)

end DataDir

/-! ### Two stores with nothing in common -/

/-- A log in memory, and beside it what is read of a ballot and what is answered to a write of
one. -/
structure Separate where
  memory : Memory
  reading : Except StorageError Ballot
  settled : Except StorageError Unit

namespace Separate

def perform (s : Separate) : DirTask → DirAnswer × Separate
  | .log task =>
    Prod.map .log (fun memory => { s with memory })
      (task.perform (fun _ => Memory.failAppend) s.memory)
  | .writeBallot b => (.written s.settled, { s with reading := .ok b })
  | .readBallot => (.ballot s.reading, s)
  | .reopenLog | .reopenBallot => (.opened (.ok ()), s)

def run (s : Separate) : List DirTask → List DirAnswer × Separate
  | [] => ([], s)
  | task :: tasks =>
    match s.perform task with
    | (answer, s) => Prod.map (answer :: ·) id (s.run tasks)

/-- The log answers as if there were no ballot. -/
lemma run_log (s : Separate) (tasks : List DirTask) :
    (s.run tasks).1.filterMap DirAnswer.log? =
      (s.memory.run (tasks.filterMap DirTask.log?)).1 := by
  induction tasks generalizing s with
  | nil => rfl
  | cons task tasks ih =>
    cases task with
    | log task => exact congrArg (_ :: ·) (ih _)
    | writeBallot b => exact ih _
    | readBallot => exact ih _
    | reopenLog => exact ih _
    | reopenBallot => exact ih _

/-- The ballot is read as if there were no log. -/
lemma run_ballot (s : Separate) (tasks : List DirTask) :
    (s.run tasks).1.filterMap DirAnswer.ballot? = DirTask.readings s.reading tasks := by
  induction tasks generalizing s with
  | nil => rfl
  | cons task tasks ih =>
    cases task with
    | log task => exact ih _
    | writeBallot b => exact ih _
    | readBallot => exact congrArg (_ :: ·) (ih _)
    | reopenLog => exact ih _
    | reopenBallot => exact ih _

/-- Every write of the ballot is answered alike. -/
lemma written_run (s : Separate) (tasks : List DirTask) {r : Except StorageError Unit}
    (hr : DirAnswer.written r ∈ (s.run tasks).1) : r = s.settled := by
  induction tasks generalizing s with
  | nil => exact absurd hr List.not_mem_nil
  | cons task tasks ih =>
    have hkept : (s.perform task).2.settled = s.settled := by cases task <;> rfl
    rcases List.mem_cons.mp hr with hnow | hlater
    · cases task <;> simp_all [perform, Prod.map]
    · exact (ih _ hlater).trans hkept

/-- To open a store anew does not fail. -/
lemma opened_run (s : Separate) (tasks : List DirTask) {r : Except StorageError Unit}
    (hr : DirAnswer.opened r ∈ (s.run tasks).1) : r = .ok () := by
  induction tasks generalizing s with
  | nil => exact absurd hr List.not_mem_nil
  | cons task tasks ih =>
    rcases List.mem_cons.mp hr with hnow | hlater
    · cases task <;> simp_all [Prod.map]
    · exact ih _ hlater

end Separate

namespace DataDir

open Files.Tree (admits_of_isPrefix admits_of_join makeDirs_of_dir read_of_dir)

variable {d : DataDir} {dir : Files.Path} {p : Files.Place} {temp : String} {s : Separate}
  {tree tree' : Files.Tree} {wal : Wal}

/-! ### The places in a directory -/

lemma plain_of_mem_wal : ∀ name ∈ ["wal", "wal.log"], Files.Path.IsPlain name := by
  have hwal : Files.Path.IsPlain "wal" := ⟨by decide, by decide, by decide⟩
  have hlog : Files.Path.IsPlain "wal.log" := ⟨by decide, by decide, by decide⟩
  simp [hwal, hlog]

lemma plain_of_mem_ballot : ∀ name ∈ ["persist.meta"], Files.Path.IsPlain name := by
  have hmeta : Files.Path.IsPlain "persist.meta" := ⟨by decide, by decide, by decide⟩
  simp [hmeta]

/-- The directory that is to keep the ballot can be synced unless its path is empty. -/
lemma settle_ballotPath (dir : Files.Path) :
    BallotFile.settle (ballotPath dir) =
      if dir = [] ∨ dir = [""] then .error (.io .notFound) else .ok () := by
  have hend : (ballotPath dir).trimEnd = ballotPath dir := Files.Path.trimEnd_join _ rfl
  have hbare : (ballotPath dir).isBare = true ↔ dir = [] ∨ dir = [""] := by
    rw [Files.Path.isBare, hend, ballotPath, Files.Path.join]
    rcases List.eq_nil_or_concat' dir with rfl | ⟨above, name, rfl⟩
    · simp
    · by_cases hname : name = ""
      · simp [hname]
      · simp [hname, List.append_eq_singleton_iff]
  rw [BallotFile.settle]
  exact if_congr hbare rfl rfl

/-- The places of the log and of the ballot in the directory that has this place. -/
def places (p : Files.Place) : List Files.Place := [p ++ ["wal", "wal.log"], p ++ ["persist.meta"]]

/-- The directory is there and holds, each at its place, the log and the ballot that are to be in
it, and no second file of a ballot. -/
structure Houses (d : DataDir) (p : Files.Place) (temp : String) (s : Separate) : Prop where
  base : d.tree.Dir d.dir p
  log : d.logFile.Keeps (walPath d.dir) s.memory.records
  site : BallotFile.Site (ballotPath d.dir) p "persist.meta" temp d.tree
  free : d.tree.item? (p ++ ["persist.meta"]) ≠ some .dir
  gone : d.tree.item? (p ++ [temp]) = none
  reading : BallotFile.read (ballotPath d.dir) d.tree = s.reading
  settled : BallotFile.settle (ballotPath d.dir) = s.settled

namespace Houses

lemma readAll (h : d.Houses p temp s) : LogStore.readAll d = (.ok s.memory.records, d) := by
  have hread : LogStore.readAll d = Prod.map id d.withLogFile (LogStore.readAll d.logFile) := rfl
  rw [hread, h.log.readAll]
  rfl

/-- The log changes, and its file is all that does. -/
lemma log_changed (h : d.Houses p temp s) {l : LogFile} {memory : Memory}
    (hlog : l.Keeps (walPath d.dir) memory.records)
    (hspare : Spares d.tree l.tree [p ++ ["wal", "wal.log"]]) :
    (d.withLogFile l).Houses p temp { s with memory } := by
  have hgone : l.tree.item? (p ++ [temp]) = none := by
    rw [hspare.elsewhere _ (by simp), h.gone]
  have hmeta : l.tree.item? (p ++ ["persist.meta"]) = d.tree.item? (p ++ ["persist.meta"]) :=
    hspare.elsewhere _ (by simp)
  have hsite : BallotFile.Site (ballotPath d.dir) p "persist.meta" temp l.tree :=
    h.site.mono hspare.dirs (by simp [hgone])
  refine ⟨h.base.mono hspare.dirs, ?_, hsite, ?_, hgone, ?_, h.settled⟩
  · have hl : (d.withLogFile l).logFile = l := by
      rw [logFile, withLogFile, ← hlog.path_eq]
    rwa [hl]
  · show l.tree.item? _ ≠ _
    rw [hmeta]
    exact h.free
  · exact (h.site.read_eq hsite hmeta).trans h.reading

/-- The ballot changes, and its file is all that does. -/
lemma ballot_changed (h : d.Houses p temp s) {reading : Except StorageError Ballot}
    (hspare : Spares d.tree tree [p ++ ["persist.meta"]])
    (hfree : tree.item? (p ++ ["persist.meta"]) ≠ some .dir)
    (hread : BallotFile.read (ballotPath d.dir) tree = reading) :
    ({ d with tree } : DataDir).Houses p temp { s with reading } := by
  have hgone : tree.item? (p ++ [temp]) = none := by
    rw [hspare.elsewhere _ (by simpa using h.site.apart), h.gone]
  refine ⟨h.base.mono hspare.dirs, ?_, h.site.mono hspare.dirs (by simp [hgone]), hfree, hgone,
    hread, h.settled⟩
  refine h.log.of_spares hspare fun e name hleads => ?_
  rw [hleads.place_join h.base plain_of_mem_wal]
  simp

/-- An operation on the log answers as in memory, and leaves the ballot alone. -/
lemma perform_log (h : d.Houses p temp s) {task : LogTask} (hfit : task.Fits) :
    (task.perform LogFile.failAppend d.logFile).1 =
        (task.perform (fun _ => Memory.failAppend) s.memory).1 ∧
      (d.withLogFile (task.perform LogFile.failAppend d.logFile).2).Houses p temp
        { s with memory := (task.perform (fun _ => Memory.failAppend) s.memory).2 } ∧
      Spares d.tree (task.perform LogFile.failAppend d.logFile).2.tree
        [p ++ ["wal", "wal.log"]] := by
  obtain ⟨hanswer, hkeeps⟩ := h.log.perform hfit
  obtain ⟨e, name, hholds⟩ := h.log.holds
  have hspare := LogFile.perform_spares hholds task
  rw [hholds.leads.place_join h.base plain_of_mem_wal] at hspare
  exact ⟨hanswer, h.log_changed hkeeps hspare, hspare⟩

lemma reopenLog (h : d.Houses p temp s) :
    ∃ l, Reopen.reopen d.logFile = (.ok (), l) ∧ (d.withLogFile l).Houses p temp s ∧
      Spares d.tree l.tree [p ++ ["wal", "wal.log"]] := by
  have hfit : LogTask.reopen.Fits := trivial
  have hlog := h.perform_log hfit
  rcases hreopen : Reopen.reopen d.logFile with ⟨r, l⟩
  simp only [LogTask.perform, hreopen, Prod.map, id] at hlog
  obtain ⟨hanswer, hhouses, hspare⟩ := hlog
  obtain rfl : r = .ok () := LogAnswer.outcome.inj hanswer
  exact ⟨l, rfl, hhouses, hspare⟩

/-- What opens the log anew opens the whole directory anew: there is nothing else to do. -/
lemma reopen (h : d.Houses p temp s) :
    ∃ l, Reopen.reopen d = (.ok (), d.withLogFile l) ∧ (d.withLogFile l).Houses p temp s ∧
      Spares d.tree l.tree [p ++ ["wal", "wal.log"]] := by
  obtain ⟨l, hreopen, hhouses, hspare⟩ := h.reopenLog
  have hadmits : Files.Tree.admits (d.dir.join ["persist.meta"]) = .ok () := h.site.admitted
  have hmake : d.tree.makeDirs d.dir = (.ok (), d.tree) :=
    makeDirs_of_dir (admits_of_join hadmits) h.base
  have hwal : Wal.openFile (walPath d.dir) d.tree = (.ok l.wal, l.tree) :=
    LogFile.openFile_of_reopen (l := d.logFile) hreopen
  have hballot : BallotFile.openFile (ballotPath d.dir) l.tree = (.ok (), l.tree) :=
    hhouses.site.openFile_gone hhouses.gone
  refine ⟨l, ?_, hhouses, hspare⟩
  have hopen : openIn d.dir d.tree = (.ok l.wal, l.tree) := by
    simp only [openIn, make, hmake, hwal, hballot]
  simp only [Reopen.reopen, hopen, withLogFile]

/-- One operation answers as the two stores do that have nothing in common, and leaves what they
hold. -/
lemma perform (h : d.Houses p temp s) {task : DirTask} (hfit : task.Fits) :
    (d.perform task).1 = (s.perform task).1 ∧
      (d.perform task).2.Houses p temp (s.perform task).2 ∧
      Spares d.tree (d.perform task).2.tree (places p) := by
  have hsame : Spares d.tree d.tree (places p) := .refl _ _
  cases task with
  | log task =>
    by_cases htask : task = .reopen
    · obtain ⟨l, hreopen, hhouses, hspare⟩ := h.reopen
      subst htask
      simp only [DataDir.perform, LogTask.perform, hreopen, Prod.map, id]
      exact ⟨rfl, hhouses, hspare.mono (by simp [places])⟩
    · obtain ⟨hanswer, hhouses, hspare⟩ := h.perform_log hfit
      simp only [DataDir.perform, Separate.perform, perform_log_of_ne htask, Prod.map, id]
      exact ⟨congrArg _ hanswer, hhouses, hspare.mono (by simp [places])⟩
  | writeBallot b =>
    have hend : (ballotPath d.dir).trimEnd = ballotPath d.dir := Files.Path.trimEnd_join _ rfl
    obtain ⟨tree, hwrite, -, hnew, hnone, hboth, hread⟩ := h.site.replace hend h.free hfit
    have hspare : Spares d.tree tree [p ++ ["persist.meta"]] :=
      hboth.of_cons (hnone.trans h.gone.symm)
    simp only [DataDir.perform, BallotStore.writeBallot, ballotFile, hwrite, withBallotFile,
      Prod.map, id]
    exact ⟨congrArg DirAnswer.written h.settled, h.ballot_changed hspare hnew.not_dir hread,
      hspare.mono (by simp [places])⟩
  | readBallot => exact ⟨congrArg DirAnswer.ballot h.reading, h, hsame⟩
  | reopenLog =>
    obtain ⟨l, hreopen, hhouses, hspare⟩ := h.reopenLog
    simp only [DataDir.perform, hreopen, Prod.map]
    exact ⟨rfl, hhouses, hspare.mono (by simp [places])⟩
  | reopenBallot =>
    have hopen := h.site.openFile_gone h.gone
    simp only [DataDir.perform, Reopen.reopen, ballotFile, hopen, withBallotFile, Prod.map]
    exact ⟨rfl, h, hsame⟩

/-- So does a whole run. -/
lemma run (h : d.Houses p temp s) {tasks : List DirTask} (hfit : ∀ task ∈ tasks, task.Fits) :
    (d.run tasks).1 = (s.run tasks).1 ∧ (d.run tasks).2.Houses p temp (s.run tasks).2 ∧
      Spares d.tree (d.run tasks).2.tree (places p) := by
  induction tasks generalizing d s with
  | nil => exact ⟨rfl, h, .refl _ _⟩
  | cons task tasks ih =>
    obtain ⟨htask, htasks⟩ := List.forall_mem_cons.mp hfit
    obtain ⟨hanswer, hhouses, hspare⟩ := h.perform htask
    obtain ⟨hanswers, hhouses', hspare'⟩ := ih hhouses htasks
    refine ⟨?_, hhouses', hspare.trans hspare'⟩
    show _ :: _ = _ :: _
    exact congrArg₂ List.cons hanswer hanswers

end Houses

/-! ### Directories that were opened -/

lemma openIn_cases (h : openIn dir tree = (.ok wal, tree')) :
    ∃ tree₁ tree₂, make dir tree = (.ok (), tree₁) ∧
      Wal.openFile (walPath dir) tree₁ = (.ok wal, tree₂) ∧
      BallotFile.openFile (ballotPath dir) tree₂ = (.ok (), tree') := by
  unfold openIn at h
  rcases hmake : make dir tree with ⟨_ | ⟨⟩, tree₁⟩ <;> rw [hmake] at h <;> dsimp only at h
  · cases (Prod.mk.inj h).1
  rcases hwal : Wal.openFile (walPath dir) tree₁ with ⟨_ | w, tree₂⟩ <;> rw [hwal] at h <;>
    dsimp only at h
  · cases (Prod.mk.inj h).1
  rcases hballot : BallotFile.openFile (ballotPath dir) tree₂ with ⟨_ | ⟨⟩, tree₃⟩ <;>
    rw [hballot] at h <;> dsimp only at h
  · cases (Prod.mk.inj h).1
  obtain ⟨h1, rfl⟩ := Prod.mk.inj h
  obtain rfl := Except.ok.inj h1
  exact ⟨tree₁, tree₂, rfl, hwal, hballot⟩

/-- A directory that could be opened houses a log and, if its file can be read where it is there, a
ballot. -/
lemma exists_houses (hopen : openIn dir tree = (.ok wal, tree'))
    (hread : ∀ e, BallotFile.read (ballotPath dir) tree' ≠ .error (.io e)) :
    ∃ p temp es,
      Houses ⟨tree', dir, wal⟩ p temp
        ⟨⟨es, {}⟩, BallotFile.read (ballotPath dir) tree', BallotFile.settle (ballotPath dir)⟩ ∧
      (((make dir tree).2.makeDirs (walPath dir).parent).2.read (walPath dir) = .error .notFound →
        es = []) := by
  obtain ⟨tree₁, tree₂, hmake, hwal, hballot⟩ := openIn_cases hopen
  obtain ⟨es, hlog⟩ := LogFile.exists_keeps_of_openFile hwal
  obtain ⟨e, name, hholds⟩ := hlog.holds
  obtain ⟨p, hbase, -⟩ := Files.Tree.Dir.of_join hholds.leads.follow
  -- the directory of the ballot is there already, so opening the ballot makes none
  have hadmits : Files.Tree.admits (dir.join ["wal", "wal.log"]) = .ok () := hholds.leads.admitted
  have hparent : tree₂.makeDirs (ballotPath dir).parent = (.ok (), tree₂) := by
    have hadmits' := admits_of_isPrefix (admits_of_join hadmits) dir.trimEnd_isPrefix
    rw [ballotPath, Files.Path.parent_join dir rfl]
    exact makeDirs_of_dir hadmits' hbase.trimEnd
  have hbytes := BallotFile.bytes_of_read hread
  obtain ⟨d, name', temp, hsite, hgone, hspare⟩ := BallotFile.exists_site hballot hbytes
  rw [hparent] at hspare
  have hbase' : tree'.Dir dir p := hbase.mono hspare.dirs
  have hend : (ballotPath dir).trimEnd = ballotPath dir := Files.Path.trimEnd_join _ rfl
  have hleads : tree'.Leads (ballotPath dir) d name' := hend ▸ hsite.leads
  obtain ⟨rfl, hname⟩ := List.append_inj' (hleads.place_join hbase' plain_of_mem_ballot) rfl
  obtain rfl : name' = "persist.meta" := List.singleton_inj.mp hname
  refine ⟨d, temp, es, ⟨hbase', ?_, hsite, fun hdir => ?_, hgone, rfl, rfl⟩, fun hnew => ?_⟩
  · refine hlog.of_spares hspare fun e name hleads => ?_
    rw [hleads.place_join hbase plain_of_mem_wal]
    simp
  · have hrefused := read_of_dir hsite.admitted ⟨hleads.follow, hdir⟩
    rw [hrefused] at hbytes
    simp at hbytes
  · rw [hmake] at hnew
    have hempty := (LogFile.keeps_of_openFile hwal hnew).readAll
    exact Except.ok.inj (Prod.mk.inj (hlog.readAll.symm.trans hempty)).1

/-- **The two stores of a directory do not meet.** Let a directory be opened, with a file of a
ballot that can be read, though it may be damaged, or with none. However operations on the log,
writes and readings of the ballot, and openings of one store or both follow each other, the log
answers as one in memory that is asked only those of the log, and a reading finds the ballot that
was written last. At the start that is what the files held: no records where no file of a log was,
and the first ballot where none was written. Every opening succeeds, and so does every write of a
ballot unless the path of the directory is empty: then the directory cannot be synced, and the write
reports that although its ballot is in place. When they are done there is no second file, and
nothing in the tree has changed but the two files. -/
theorem stores_apart (hopen : openIn dir tree = (.ok wal, tree'))
    (hread : ∀ e, BallotFile.read (ballotPath dir) tree' ≠ .error (.io e))
    (tasks : List DirTask) (hfit : ∀ task ∈ tasks, task.Fits) :
    let start : DataDir := ⟨tree', dir, wal⟩
    let final := start.run tasks
    ∃ es old p,
      LogStore.readAll start = (.ok es, start) ∧
      BallotStore.readBallot start = (old, start) ∧
      (((make dir tree).2.makeDirs (walPath dir).parent).2.read (walPath dir) = .error .notFound →
        es = []) ∧
      (tree'.read (ballotPath dir) = .error .notFound → old = .ok {}) ∧
      final.1.filterMap DirAnswer.log? =
        (Memory.run { records := es } (tasks.filterMap DirTask.log?)).1 ∧
      final.1.filterMap DirAnswer.ballot? = DirTask.readings old tasks ∧
      (∀ r, DirAnswer.written r ∈ final.1 →
        r = if dir = [] ∨ dir = [""] then .error (.io .notFound) else .ok ()) ∧
      (∀ r, DirAnswer.opened r ∈ final.1 → r = .ok ()) ∧
      final.2.tree.stat (BallotFile.tempPath (ballotPath dir)) = .error .notFound ∧
      tree'.Dir dir p ∧
      Spares tree' final.2.tree [p ++ ["wal", "wal.log"], p ++ ["persist.meta"]] := by
  obtain ⟨p, temp, es, hstart, hnew⟩ := exists_houses hopen hread
  intro start final
  obtain ⟨hanswers, hfinal, hspare⟩ := hstart.run hfit
  refine ⟨es, BallotFile.read (ballotPath dir) tree', p, hstart.readAll, rfl, hnew,
    fun hnone => ?_, ?_, ?_, fun r hr => ?_, fun r hr => ?_, ?_, hstart.base, hspare⟩
  · simp only [BallotFile.read, hnone]
  · rw [hanswers, Separate.run_log]
  · rw [hanswers, Separate.run_ballot]
  · rw [hanswers] at hr
    rw [Separate.written_run _ tasks hr, settle_ballotPath]
  · rw [hanswers] at hr
    exact Separate.opened_run _ tasks hr
  · have hgone := hfinal.site.aside.stat_none hfinal.gone
    rwa [start.dir_run] at hgone

/-- A directory that was opened where nothing was. -/
def fresh : DataDir where
  tree := [(["data"], .dir), (["data", "wal"], .dir), (["data", "wal", "wal.log"], .file [])]
  dir := ["data"]
  wal := {}

lemma fresh_opened : openIn fresh.dir [] = (.ok fresh.wal, fresh.tree) := by
  have hmake : make fresh.dir [] = (.ok (), [(["data"], .dir)]) := rfl
  have hparent : Files.Tree.makeDirs (walPath fresh.dir).parent [(["data"], .dir)] =
      (.ok (), [(["data"], .dir), (["data", "wal"], .dir)]) := rfl
  have hfile : Files.Tree.openFile (walPath fresh.dir)
      [(["data"], .dir), (["data", "wal"], .dir)] = (.ok [], fresh.tree) := rfl
  have hrec : Wal.recover [] = (.of [], []) := Wal.recover_encodeAll .nil (by simp)
  have hwrite : fresh.tree.write (walPath fresh.dir) [] = (.ok (), fresh.tree) := rfl
  have hwal : Wal.openFile (walPath fresh.dir) [(["data"], .dir)] = (.ok (.of []), fresh.tree) := by
    rw [Wal.openFile, hparent]
    simp only [hfile, hrec, hwrite]
  have hballot : BallotFile.openFile (ballotPath fresh.dir) fresh.tree = (.ok (), fresh.tree) := rfl
  rw [openIn, hmake]
  simp only [hwal, hballot]
  rfl

lemma fresh_read (e : Files.Error) :
    BallotFile.read (ballotPath fresh.dir) fresh.tree ≠ .error (.io e) := by
  have hread : BallotFile.read (ballotPath fresh.dir) fresh.tree = .ok {} := rfl
  simp [hread]

/-- A run in which the stores are opened anew between votes and records. -/
def mixed : List DirTask :=
  [.readBallot, .writeBallot ⟨10, some 1⟩, .log (.append ⟨10, 1, [7]⟩), .log .reopen, .readBallot,
    .log (.append ⟨10, 2, [8, 9]⟩), .reopenBallot, .writeBallot ⟨11, none⟩, .reopenLog,
    .log (.truncate 1), .log (.append ⟨11, 2, [5]⟩), .log .readAll, .readBallot]

lemma mixed_fits : ∀ task ∈ mixed, task.Fits := by decide

/-- The log is what it would be without the ballot, and the ballot what it would be without the
log. -/
theorem stores_apart_mixed :
    openIn fresh.dir [] = (.ok fresh.wal, fresh.tree) ∧
      (fresh.run mixed).1.filterMap DirAnswer.log? =
        [.appended (.ok 1), .outcome (.ok ()), .appended (.ok 2), .outcome (.ok ()),
          .appended (.ok 2), .records (.ok [⟨10, 1, [7]⟩, ⟨11, 2, [5]⟩])] ∧
      (fresh.run mixed).1.filterMap DirAnswer.ballot? =
        [.ok {}, .ok ⟨10, some 1⟩, .ok ⟨11, none⟩] ∧
      (fresh.run mixed).2.tree.stat ["data", "persist.meta.tmp"] = .error .notFound := by
  obtain ⟨es, old, p, -, -, hlog, hballot, hlogs, hballots, -, -, hgone, -⟩ :=
    stores_apart fresh_opened fresh_read mixed mixed_fits
  obtain rfl := hlog rfl
  obtain rfl := hballot rfl
  exact ⟨fresh_opened, hlogs, hballots, hgone⟩

end DataDir

end Quorum
