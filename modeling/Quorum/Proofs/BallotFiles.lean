import Quorum.Proofs.BallotBytes
import Quorum.Proofs.Trees
import Quorum.Storage.Torn

/-!
The file of a ballot is replaced as a whole.

Wherever a ballot can be kept, the second file has a name of its own in the same directory
(`BallotFile.Site`, `BallotFile.site_of_openFile`). So whatever is in the second file, and however
far a write comes, the first file holds the ballot from before or the new one. Over any sequence of
writes that succeed, fail or are cut short, with crashes and openings between them, what is read is
the last ballot that was written or one of those that were tried after it
(`BallotFile.replaced_whole`).
-/

namespace Quorum

namespace BallotFile

open Files.Tree (KeepsDirs Spares dir_of_makeDirs keepsDirs_remove leads_of_remove
  leads_trimEnd_of_read read_congr read_of_dir)

variable {path : Files.Path} {tree tree' : Files.Tree} {d : Files.Place} {name temp : String}
  {b : Ballot}

/-! ### The second file -/

/-- A name is left as it is, or parted at a point behind which no other stands. -/
lemma cutExtension_cases {cs stem extension : List Char}
    (h : cutExtension cs = (stem, extension)) :
    stem = cs ∨ cs = stem ++ '.' :: extension ∧ '.' ∉ extension := by
  have hsplit : cs.rdropWhile (· ≠ '.') ++ cs.rtakeWhile (· ≠ '.') = cs :=
    List.rdropWhile_append_rtakeWhile
  have hstem : ((cs.reverse.dropWhile (· ≠ '.')).drop 1).reverse =
      (cs.rdropWhile (· ≠ '.')).dropLast := by
    rw [List.rdropWhile, List.drop_one, List.dropLast_reverse]
  unfold cutExtension at h
  dsimp only at h
  rw [hstem] at h
  split_ifs at h with hnil
  · exact Or.inl (Prod.mk.inj h).1.symm
  · obtain ⟨rfl, rfl⟩ := Prod.mk.inj h
    refine Or.inr ⟨?_, ?_⟩
    · have hne : cs.rdropWhile (· ≠ '.') ≠ [] := by
        intro hdrop
        rw [hdrop] at hnil
        exact hnil rfl
      have hlast : (cs.rdropWhile (· ≠ '.')).getLast hne = '.' := by
        simpa using List.rdropWhile_last_not (· ≠ '.') cs hne
      have hstem' : (cs.rdropWhile (· ≠ '.')).dropLast ++ ['.'] = cs.rdropWhile (· ≠ '.') := by
        have := List.dropLast_append_getLast hne
        rwa [hlast] at this
      calc cs = cs.rdropWhile (· ≠ '.') ++ cs.rtakeWhile (· ≠ '.') := hsplit.symm
        _ = ((cs.rdropWhile (· ≠ '.')).dropLast ++ ['.']) ++ cs.rtakeWhile (· ≠ '.') := by
          rw [hstem']
        _ = _ := List.append_assoc _ _ _
    · intro hmem
      simpa using List.mem_rtakeWhile_imp hmem

/-- The second file does not have the name of the first. -/
lemma aside_ne {stem extension : List Char}
    (h : cutExtension name.toList = (stem, extension)) :
    String.ofList stem ++ ".meta.tmp" ≠ name := by
  intro heq
  have hlist : name.toList = stem ++ ".meta.tmp".toList := by
    rw [← heq, String.toList_append, String.toList_ofList]
  rcases cutExtension_cases h with hstem | ⟨hname, hpoint⟩
  · rw [hstem] at hlist
    have hlen := congrArg List.length hlist
    simp at hlen
  · rw [hlist] at hname
    have hext := List.append_cancel_left hname
    apply hpoint
    rw [← (List.cons.inj hext).2]
    decide

lemma tempPath_cases (h : path.trimEnd.getLast? = some name) (hup : name ≠ "..") :
    path.getLast? = some name ∧ tempPath path = path.dropLast ++ [".."] ∨
      ∃ aside, aside ≠ "" ∧ aside ≠ name ∧ tempPath path = path.trimEnd.dropLast ++ [aside] := by
  have hname : path.name? = some name := by
    unfold Files.Path.name?
    rw [h]
    split
    · rename_i heq
      exact absurd (Option.some.inj heq) hup
    · rfl
  rcases hcut : cutExtension name.toList with ⟨stem, extension⟩
  simp only [tempPath, hname, hcut]
  split
  · rename_i hpoints
    exact Or.inl ⟨hpoints.2.2, rfl⟩
  · refine Or.inr ⟨_, fun hempty => ?_, aside_ne hcut, rfl⟩
    have hlen := congrArg (fun s => s.toList.length) hempty
    simp at hlen

/-! ### Where a ballot can be kept -/

/-- The path is that of a file that is there or can be, and the second file has its own name beside
it. Nothing but slashes and points may follow the name of the file. -/
structure Site (path : Files.Path) (d : Files.Place) (name temp : String) (tree : Files.Tree) :
    Prop where
  admitted : Files.Tree.admits path = .ok ()
  leads : tree.Leads path.trimEnd d name
  aside : tree.Leads (tempPath path) d temp
  apart : temp ≠ name
  free : tree.item? (d ++ [temp]) ≠ some .dir

/-- A ballot that could be opened, and whose file can be read if it is there, has a place where it
is kept. Opening leaves no second file beside it. -/
lemma exists_site (hopen : openFile path tree = (.ok (), tree'))
    (hbytes : tree'.read path = .error .notFound ∨ ∃ bytes, tree'.read path = .ok bytes) :
    ∃ d name temp, Site path d name temp tree' ∧ tree'.item? (d ++ [temp]) = none ∧
      Spares (tree.makeDirs path.parent).2 tree' [d ++ [temp]] := by
  unfold openFile at hopen
  rcases hmake : tree.makeDirs path.parent with ⟨e | ⟨⟩, tree₁⟩ <;> rw [hmake] at hopen <;>
    dsimp only at hopen
  · cases (Prod.mk.inj hopen).1
  obtain ⟨d, hparent⟩ := dir_of_makeDirs hmake
  have hdir : tree₁.Dir path.trimEnd.dropLast d := .of_trimEnd hparent
  rcases hrem : tree₁.remove (tempPath path) with ⟨r, tree₂⟩
  rw [hrem] at hopen
  obtain ⟨hr, rfl⟩ : (r = .ok () ∨ r = .error .notFound) ∧ tree₂ = tree' := by
    split at hopen <;> rename_i heq <;> obtain ⟨rfl, rfl⟩ := Prod.mk.inj heq
    · exact ⟨Or.inl rfl, (Prod.mk.inj hopen).2⟩
    · exact ⟨Or.inr rfl, (Prod.mk.inj hopen).2⟩
    · cases (Prod.mk.inj hopen).1
  have hkeeps := keepsDirs_remove hrem
  obtain ⟨hadm, name, hleads⟩ := leads_trimEnd_of_read (hdir.mono hkeeps) hbytes
  have hroute := hleads.route
  have hlast : path.trimEnd.getLast? = some name := by
    rw [hroute]
    simp
  rcases tempPath_cases hlast hleads.plain.up with ⟨hend, htemp⟩ | ⟨aside, hne, hapart, htemp⟩
  · -- the second file would be the directory above
    have htrim : path.trimEnd = path := by
      obtain ⟨q, rfl⟩ := List.getLast?_eq_some_iff.mp hend
      exact Files.Path.trimEnd_snoc q hleads.plain.idle
    rw [htrim] at hdir
    rw [htemp] at hrem
    obtain ⟨hup, -⟩ := leads_of_remove hdir (by decide) hrem hr
    exact absurd rfl hup.plain.up
  · rw [htemp] at hrem
    obtain ⟨haside, hfree⟩ := leads_of_remove hdir hne hrem hr
    obtain ⟨r', tree₃, hrem', -, hnone, hspare⟩ := haside.remove hfree
    obtain ⟨rfl, rfl⟩ := Prod.mk.inj (hrem.symm.trans hrem')
    exact ⟨d, name, aside,
      ⟨hadm, hleads, htemp ▸ haside.mono hkeeps, hapart, by simp [hnone]⟩, hnone, hspare⟩

/-- Only if the file cannot be read is that of no ballot. -/
lemma bytes_of_read (h : ∀ e, read path tree ≠ .error (.io e)) :
    tree.read path = .error .notFound ∨ ∃ bytes, tree.read path = .ok bytes := by
  unfold read at h
  split at h
  · exact Or.inl ‹_›
  · exact absurd rfl (h _)
  · exact Or.inr ⟨_, ‹_›⟩

lemma site_of_openFile {old : Ballot} (hopen : openFile path tree = (.ok (), tree'))
    (hread : read path tree' = .ok old) : ∃ d name temp, Site path d name temp tree' := by
  obtain ⟨d, name, temp, hsite, -⟩ :=
    exists_site hopen (bytes_of_read fun e he => by rw [hread] at he; cases he)
  exact ⟨d, name, temp, hsite⟩

namespace Site

lemma place_ne (h : Site path d name temp tree) : d ++ [name] ≠ d ++ [temp] := by
  simpa using h.apart.symm

/-- What is read depends on the first file only. -/
lemma read_eq (h : Site path d name temp tree) (h' : Site path d name temp tree')
    (hi : tree'.item? (d ++ [name]) = tree.item? (d ++ [name])) :
    read path tree' = read path tree := by
  rw [read, read, read_congr h.admitted h'.leads h.leads hi]

lemma mono (h : Site path d name temp tree) (hk : KeepsDirs tree tree')
    (hfree : tree'.item? (d ++ [temp]) ≠ some .dir) : Site path d name temp tree' :=
  ⟨h.admitted, h.leads.mono hk, h.aside.mono hk, h.apart, hfree⟩

/-- The second file can be written, and the first does not change. -/
lemma writeAside (h : Site path d name temp tree) (bytes : Bytes) :
    ∃ tree', tree.write (tempPath path) bytes = (.ok (), tree') ∧ Site path d name temp tree' ∧
      tree'.Holds (tempPath path) bytes d temp ∧ Spares tree tree' [d ++ [temp]] ∧
      read path tree' = read path tree := by
  obtain ⟨tree', hwrite, hholds, hspare⟩ := h.aside.write h.free bytes
  have hsite := h.mono hspare.dirs hholds.not_dir
  have hsame := hspare.elsewhere (d ++ [name]) (by simpa using h.place_ne)
  exact ⟨tree', hwrite, hsite, hholds, hspare, h.read_eq hsite hsame⟩

lemma makeDirs (h : Site path d name temp tree) :
    tree.makeDirs path.parent = (.ok (), tree) := by
  have hmake := h.leads.makeDirs
  rwa [Files.Path.parent, show path.trimEnd.trimEnd = path.trimEnd from
    List.rdropWhile_idempotent _ _] at hmake

/-- Opening leaves no second file, and the first as it was. -/
lemma openFile (h : Site path d name temp tree) :
    ∃ tree', openFile path tree = (.ok (), tree') ∧ Site path d name temp tree' ∧
      tree'.stat (tempPath path) = .error .notFound ∧ read path tree' = read path tree := by
  obtain ⟨r, tree', hrem, hr, hnone, hspare⟩ := h.aside.remove h.free
  have hsite : Site path d name temp tree' := h.mono hspare.dirs (by simp [hnone])
  have hsame := hspare.elsewhere (d ++ [name]) (by simpa using h.place_ne)
  refine ⟨tree', ?_, hsite, hsite.aside.stat_none hnone, h.read_eq hsite hsame⟩
  rw [BallotFile.openFile, h.makeDirs]
  rcases hr with rfl | rfl <;> simp only [hrem]

/-- Without a second file there is nothing to do. -/
lemma openFile_gone (h : Site path d name temp tree) (hgone : tree.item? (d ++ [temp]) = none) :
    BallotFile.openFile path tree = (.ok (), tree) := by
  rw [BallotFile.openFile, h.makeDirs]
  simp only [h.aside.remove_none hgone]

/-- A ballot takes the place of the one from before, or that one stays. -/
lemma write (h : Site path d name temp tree) (hb : b.Fits) :
    ∃ r tree', write path b tree = (r, tree') ∧ Site path d name temp tree' ∧
      (read path tree' = .ok b ∨ r ≠ .ok () ∧ read path tree' = read path tree) := by
  obtain ⟨tree₁, hwrite, hsite, hholds, -, hsame⟩ := h.writeAside (encode b)
  rcases hholds.rename path with ⟨e, hren⟩ | ⟨d', name', tree₂, hren, hnew, hk, hgone⟩
  · refine ⟨.error (.io e), tree₁, ?_, hsite, Or.inr ⟨by simp, hsame⟩⟩
    rw [BallotFile.write, hwrite]
    simp only [hren]
  · refine ⟨settle path, tree₂, ?_, hsite.mono hk hgone, Or.inl ?_⟩
    · rw [BallotFile.write, hwrite]
      simp only [hren]
    · rw [read, hnew.read]
      simp only [decode_encode hb]

/-- Where a ballot can be read no directory is in the way of another. -/
lemma not_dir {old : Ballot} (h : Site path d name temp tree) (hread : read path tree = .ok old)
    (hend : path.trimEnd = path) : tree.item? (d ++ [name]) ≠ some .dir := by
  intro hdir
  have hleads : tree.Leads path d name := hend ▸ h.leads
  have := read_of_dir h.admitted ⟨hleads.follow, hdir⟩
  rw [read, this] at hread
  cases hread

/-- On a path that ends in the name of the file, with no directory in its way, a ballot takes its
place, whether it can be made to last or not. The second file is gone then. -/
lemma replace (h : Site path d name temp tree) (hend : path.trimEnd = path)
    (hfile : tree.item? (d ++ [name]) ≠ some .dir) (hb : b.Fits) :
    ∃ tree', BallotFile.write path b tree = (settle path, tree') ∧
      Site path d name temp tree' ∧ tree'.Holds path (encode b) d name ∧
      tree'.item? (d ++ [temp]) = none ∧ Spares tree tree' [d ++ [temp], d ++ [name]] ∧
      read path tree' = .ok b := by
  obtain ⟨tree₁, hwrite, hsite, haside, hspare, -⟩ := h.writeAside (encode b)
  have hleads : tree₁.Leads path d name := hend ▸ hsite.leads
  have hfile₁ : tree₁.item? (d ++ [name]) ≠ some .dir := by
    rwa [hspare.elsewhere (d ++ [name]) (by simpa using h.place_ne)]
  obtain ⟨tree₂, hren, hnew, hmoved, hspare'⟩ := haside.rename_onto hleads hfile₁
  have hnone : tree₂.item? (d ++ [temp]) = none := hmoved h.place_ne.symm
  refine ⟨tree₂, ?_, hsite.mono hspare'.dirs (by simp [hnone]), hnew, hnone,
    (hspare.mono (by simp)).trans hspare', ?_⟩
  · rw [BallotFile.write, hwrite]
    simp only [hren]
  · rw [read, hnew.read]
    simp only [decode_encode hb]

end Site

/-- However far a write comes, the ballot from before is read or the new one. -/
lemma Site.writeUpTo (h : Site path d name temp tree) (hb : b.Fits) (reach : Reach) :
    Site path d name temp (writeUpTo reach path b tree) ∧
      (read path (writeUpTo reach path b tree) = read path tree ∨
        read path (writeUpTo reach path b tree) = .ok b) := by
  cases reach with
  | nothing => exact ⟨h, Or.inl rfl⟩
  | part written =>
    obtain ⟨tree₁, hwrite, hsite, -, -, hsame⟩ := h.writeAside ((encode b).take written)
    simp only [BallotFile.writeUpTo, hwrite]
    exact ⟨hsite, Or.inl hsame⟩
  | renamed =>
    obtain ⟨r, tree₁, hwrite, hsite, hread⟩ := h.write hb
    simp only [BallotFile.writeUpTo, hwrite]
    exact ⟨hsite, hread.symm.imp And.right id⟩

/-- The file is opened anew: the second file is gone then, and the ballot is what is read. -/
def Reopens (file : BallotFile) (b : Ballot) : Prop :=
  ∃ file', Reopen.reopen file = (.ok (), file') ∧
    file'.tree.stat (tempPath file.path) = .error .notFound ∧
    BallotStore.readBallot file' = (.ok b, file')

lemma Site.reopens (h : Site path d name temp tree) (hread : read path tree = .ok b) :
    Reopens ⟨tree, path⟩ b := by
  obtain ⟨tree', hopen, -, hgone, hsame⟩ := h.openFile
  refine ⟨⟨tree', path⟩, ?_, hgone, ?_⟩
  · simp only [Reopen.reopen, hopen]
  · simp only [BallotStore.readBallot, hsame, hread]

end BallotFile

/-! ### A sequence of writes -/

/-- What happens to the file of a ballot. -/
inductive BallotTask
  | write (b : Ballot)
  /-- The writing of a ballot fails or is cut short. -/
  | stop (reach : BallotFile.Reach) (b : Ballot)
  /-- A second file is left behind, whatever is in it. -/
  | leave (bytes : Bytes)
  | reopen
  /-- A crash. One of the trees that there were since a directory was last synced may come back. -/
  | crash (back : ℕ)

def BallotTask.Fits : BallotTask → Prop
  | write b | stop _ b => b.Fits
  | leave _ | reopen | crash _ => True

instance : (task : BallotTask) → Decidable task.Fits
  | .write b | .stop _ b => inferInstanceAs (Decidable b.Fits)
  | .leave _ | .reopen | .crash _ => .isTrue trivial

/-- The file of a ballot, with what may be read in it. -/
structure BallotWatch where
  file : BallotFile
  /-- The trees that there were since a directory was last synced, from the last one back. -/
  unsynced : List Files.Tree := []
  /-- The ballot of the last write that succeeded, or the one from the start, behind those that were
  tried since. -/
  candidates : List Ballot

namespace BallotWatch

/-- Another tree, of which no directory is synced yet. -/
def become (tree : Files.Tree) (w : BallotWatch) : BallotWatch :=
  { w with file := { w.file with tree }, unsynced := w.file.tree :: w.unsynced }

def attempt (b : Ballot) (w : BallotWatch) : BallotWatch :=
  { w with candidates := b :: w.candidates }

def perform (w : BallotWatch) : BallotTask → BallotWatch
  | .write b =>
    match BallotStore.writeBallot b w.file with
    | (.ok (), file) => { file, candidates := [b] }
    | (.error _, file) => (w.become file.tree).attempt b
  | .stop reach b => (w.become (BallotFile.writeUpTo reach w.file.path b w.file.tree)).attempt b
  | .leave bytes => w.become (w.file.tree.write (BallotFile.tempPath w.file.path) bytes).2
  | .reopen => w.become (Reopen.reopen w.file).2.tree
  | .crash back =>
    { w with file := { w.file with tree := w.unsynced.getD back w.file.tree }, unsynced := [] }

def performAll (w : BallotWatch) (tasks : List BallotTask) : BallotWatch := tasks.foldl perform w

variable {path : Files.Path} {d : Files.Place} {name temp : String} {w : BallotWatch}

/-- The ballot has its place in the tree, and a candidate is read. -/
structure Shows (w : BallotWatch) (path : Files.Path) (d : Files.Place) (name temp : String)
    (tree : Files.Tree) : Prop where
  site : BallotFile.Site path d name temp tree
  read : ∃ b ∈ w.candidates, BallotFile.read path tree = .ok b

/-- In the tree that there is, and in each that may come back, a candidate is read. -/
structure Sound (w : BallotWatch) (path : Files.Path) (d : Files.Place) (name temp : String) :
    Prop where
  path_eq : w.file.path = path
  now : w.Shows path d name temp w.file.tree
  back : ∀ tree ∈ w.unsynced, w.Shows path d name temp tree

namespace Sound

lemma attempt (h : w.Sound path d name temp) (b : Ballot) :
    (w.attempt b).Sound path d name temp := by
  have hmore : ∀ tree, w.Shows path d name temp tree →
      (w.attempt b).Shows path d name temp tree := by
    intro tree ht
    obtain ⟨c, hc, hread⟩ := ht.read
    exact ⟨ht.site, c, List.mem_cons_of_mem b hc, hread⟩
  exact ⟨h.path_eq, hmore _ h.now, fun tree ht => hmore tree (h.back tree ht)⟩

lemma become (h : w.Sound path d name temp) {tree : Files.Tree}
    (ht : w.Shows path d name temp tree) : (w.become tree).Sound path d name temp := by
  refine ⟨h.path_eq, ⟨ht.site, ht.read⟩, fun old hold => ?_⟩
  rcases List.mem_cons.mp hold with rfl | hold
  · exact ⟨h.now.site, h.now.read⟩
  · exact ⟨(h.back old hold).site, (h.back old hold).read⟩

/-- The tree in which a ballot was tried shows that one or a candidate from before. -/
lemma attempt_become (h : w.Sound path d name temp) {tree : Files.Tree} {b : Ballot}
    (hsite : BallotFile.Site path d name temp tree)
    (hread : BallotFile.read path tree = BallotFile.read path w.file.tree ∨
      BallotFile.read path tree = .ok b) :
    ((w.become tree).attempt b).Sound path d name temp := by
  refine (h.attempt b).become ⟨hsite, ?_⟩
  rcases hread with hsame | hnew
  · obtain ⟨c, hc, hread⟩ := h.now.read
    exact ⟨c, List.mem_cons_of_mem b hc, hsame.trans hread⟩
  · exact ⟨b, List.mem_cons_self, hnew⟩

lemma perform (h : w.Sound path d name temp) {task : BallotTask} (hfit : task.Fits) :
    (w.perform task).Sound path d name temp := by
  obtain ⟨⟨tree, _⟩, unsynced, candidates⟩ := w
  obtain rfl := h.path_eq
  have hsite := h.now.site
  cases task with
  | write b =>
    obtain ⟨r, tree', hwrite, hsite', hread⟩ := hsite.write hfit
    rcases r with e | ⟨⟩
    · simp only [BallotWatch.perform, BallotStore.writeBallot, hwrite]
      exact h.attempt_become hsite' (hread.symm.imp And.right id)
    · simp only [BallotWatch.perform, BallotStore.writeBallot, hwrite]
      have hnew := hread.resolve_right fun hold => hold.1 rfl
      exact ⟨rfl, ⟨hsite', b, List.mem_cons_self, hnew⟩, by simp⟩
  | stop reach b =>
    obtain ⟨hsite', hread⟩ := hsite.writeUpTo hfit reach
    exact h.attempt_become hsite' hread
  | leave bytes =>
    obtain ⟨tree', hwrite, hsite', -, -, hsame⟩ := hsite.writeAside bytes
    obtain ⟨c, hc, hread⟩ := h.now.read
    simp only [BallotWatch.perform, hwrite]
    exact h.become ⟨hsite', c, hc, hsame.trans hread⟩
  | reopen =>
    obtain ⟨tree', hopen, hsite', -, hsame⟩ := hsite.openFile
    obtain ⟨c, hc, hread⟩ := h.now.read
    simp only [BallotWatch.perform, Reopen.reopen, hopen]
    exact h.become ⟨hsite', c, hc, hsame.trans hread⟩
  | crash back =>
    refine ⟨rfl, ?_, by simp [BallotWatch.perform]⟩
    have hback : ∀ t ∈ tree :: unsynced, BallotWatch.Shows _ _ d name temp t :=
      List.forall_mem_cons.mpr ⟨h.now, h.back⟩
    have hmem : unsynced.getD back tree ∈ tree :: unsynced := by
      rw [List.getD_eq_getElem?_getD]
      rcases hget : unsynced[back]? with _ | t
      · exact List.mem_cons_self
      · exact List.mem_cons_of_mem _ (List.mem_of_getElem? hget)
    exact ⟨(hback _ hmem).site, (hback _ hmem).read⟩

lemma performAll (h : w.Sound path d name temp) {tasks : List BallotTask}
    (hfit : ∀ task ∈ tasks, task.Fits) : (w.performAll tasks).Sound path d name temp := by
  induction tasks generalizing w with
  | nil => exact h
  | cons task tasks ih =>
    obtain ⟨htask, htasks⟩ := List.forall_mem_cons.mp hfit
    exact ih (h.perform htask) htasks

end Sound

end BallotWatch

namespace BallotFile

variable {path : Files.Path} {tree tree' : Files.Tree} {old : Ballot}

/-- **A ballot is replaced as a whole.** From a file that was opened and read, over any sequence of
writes that succeed, fail or are cut short, with second files left behind, crashes and openings
between them, what is read is the ballot of the last write that succeeded, or of one that was tried
since; the one from the start counts until a write succeeds. Opening the file removes the second one
and does not change what is read. However far the next write comes, it is then the ballot from
before that is read, or the new one. Where the path ends in the name of the file, the next write
puts the new one in place if it is not stopped, and succeeds unless the path is that name alone:
then the directory cannot be synced, and the write reports that although its ballot is in place. -/
theorem replaced_whole (hopen : openFile path tree = (.ok (), tree'))
    (hread : read path tree' = .ok old) (tasks : List BallotTask)
    (hfit : ∀ task ∈ tasks, task.Fits) :
    let w := BallotWatch.performAll { file := ⟨tree', path⟩, candidates := [old] } tasks
    ∃ b ∈ w.candidates, BallotStore.readBallot w.file = (.ok b, w.file) ∧ w.file.Reopens b ∧
      ∀ new : Ballot, new.Fits →
        (∀ reach,
          let cut : BallotFile := { w.file with tree := writeUpTo reach path new w.file.tree }
          cut.Reopens b ∨ cut.Reopens new) ∧
        (path.trimEnd = path →
          (BallotStore.writeBallot new w.file).1 =
              (if path.isBare then .error (.io .notFound) else .ok ()) ∧
            (BallotStore.readBallot (BallotStore.writeBallot new w.file).2).1 = .ok new) := by
  obtain ⟨d, name, temp, hsite⟩ := site_of_openFile hopen hread
  have hstart : BallotWatch.Sound { file := ⟨tree', path⟩, candidates := [old] } path d name temp :=
    ⟨rfl, ⟨hsite, old, List.mem_cons_self, hread⟩, by simp⟩
  intro w
  have hw : w.Sound path d name temp := hstart.performAll hfit
  obtain ⟨b, hb, hnow⟩ := hw.now.read
  have hfile : w.file = ⟨w.file.tree, path⟩ := by rw [← hw.path_eq]
  have hput := hw.now.site
  refine ⟨b, hb, ?_, ?_, fun new hnew => ⟨fun reach => ?_, fun hend => ?_⟩⟩
  · rw [hfile]
    simp only [BallotStore.readBallot, hnow]
  · rw [hfile]
    exact hput.reopens hnow
  · obtain ⟨hput', hcut⟩ := hput.writeUpTo hnew reach
    rw [hfile]
    exact hcut.imp (fun hsame => hput'.reopens (hsame.trans hnow)) hput'.reopens
  · obtain ⟨written, hwrite, -, -, -, -, hnew⟩ :=
      hput.replace hend (hput.not_dir hnow hend) hnew
    rw [hfile]
    simp only [BallotStore.writeBallot, BallotStore.readBallot, hwrite]
    exact ⟨rfl, hnew⟩

/-- A ballot that was stored before. -/
def worn : BallotFile where
  path := ["data", "persist.meta"]
  tree := [(["data"], .dir), (["data", "persist.meta"], .file (encode ⟨4, some 2⟩))]

/-- A crash had left a part of another one behind. -/
lemma worn_opened :
    openFile worn.path (Table.insert ["data", "persist.meta.tmp"] (.file [82, 70]) worn.tree) =
      (.ok (), worn.tree) := rfl

lemma worn_read : read worn.path worn.tree = .ok ⟨4, some 2⟩ := rfl

/-- One write succeeds. One is cut short after nine bytes, before a crash; one has the new name in
place when the sync of the directory fails. -/
def tried : List BallotTask :=
  [.write ⟨5, some 1⟩, .stop (.part 9) ⟨6, none⟩, .crash 0, .reopen, .leave [82, 70, 84],
    .stop .renamed ⟨7, some 3⟩]

lemma tried_fits : ∀ task ∈ tried, task.Fits := by decide

/-- What is read after the run above is one of the last three ballots, and not the first. -/
theorem replaced_whole_tried :
    let w := BallotWatch.performAll { file := worn, candidates := [⟨4, some 2⟩] } tried
    w.candidates = [⟨7, some 3⟩, ⟨6, none⟩, ⟨5, some 1⟩] ∧
      ∃ b ∈ w.candidates, BallotStore.readBallot w.file = (.ok b, w.file) ∧ w.file.Reopens b := by
  obtain ⟨b, hb, hnow, hopens, -⟩ := replaced_whole worn_opened worn_read tried tried_fits
  exact ⟨rfl, b, hb, hnow, hopens⟩

end BallotFile

end Quorum
