import Mathlib.Data.List.DropRight
import Mathlib.Tactic
import Quorum.Files

/-!
Files in a tree, as a store sees them.

A path whose directory is there, and that ends in a name that leads down, is the path of one place
(`Tree.Dir`, `Path.IsPlain`). Reading, writing, removing and renaming are then questions about what
stands at that place, and as long as no directory goes or comes in its way the path goes on to lead
there. So a file that was written is read back, and stays what it is while others are written.
-/

namespace Quorum.Files

namespace Path

/-- The name leads down from where it is. -/
structure IsPlain (name : String) : Prop where
  idle : isIdle name = false
  up : name ≠ ".."
  size : name.utf8ByteSize ≤ maxName

lemma IsPlain.ne_empty {name : String} (h : IsPlain name) : name ≠ "" := by
  rintro rfl
  simpa [isIdle] using h.idle

lemma IsPlain.not_isDots {name : String} (h : IsPlain name) : isDots name = false := by
  have hidle := h.idle
  have hup := h.up
  simp_all [isIdle, isDots]

lemma IsPlain.of_not_isDots {name : String} (hne : name ≠ "") (h : isDots name = false)
    (hsize : ¬ maxName < name.utf8ByteSize) : IsPlain name := by
  refine ⟨?_, ?_, Nat.le_of_not_lt hsize⟩
  · simp_all [isDots, isIdle]
  · simp_all [isDots]

lemma unslashed_snoc (q : Path) {name : String} (h : name ≠ "") :
    unslashed (q ++ [name]) = q ++ [name] :=
  List.rdropWhile_concat_neg _ _ _ (by simpa using h)

lemma trimEnd_snoc (q : Path) {name : String} (h : isIdle name = false) :
    trimEnd (q ++ [name]) = q ++ [name] :=
  List.rdropWhile_concat_neg _ _ _ (by simp [h])

lemma trimEnd_isPrefix (p : Path) : p.trimEnd <+: p := List.rdropWhile_prefix _ _

/-- Behind its trimmed end a path has idle names only. -/
lemma eq_trimEnd_append (p : Path) :
    ∃ idles : List String, p = p.trimEnd ++ idles ∧ ∀ name ∈ idles, isIdle name = true :=
  ⟨p.rtakeWhile isIdle, (List.rdropWhile_append_rtakeWhile (p := isIdle)).symm,
    fun _ h => List.mem_rtakeWhile_imp h⟩

lemma trimEnd_cases (p : Path) :
    p.trimEnd = [] ∨ ∃ q name, p.trimEnd = q ++ [name] ∧ isIdle name = false := by
  rcases List.eq_nil_or_concat' p.trimEnd with h | ⟨q, name, h⟩
  · exact Or.inl h
  · refine Or.inr ⟨q, name, h, ?_⟩
    have hdrop : p.rdropWhile isIdle = q ++ [name] := h
    have hlast := List.rdropWhile_last_not isIdle p (by simp [hdrop])
    simpa [hdrop] using hlast

lemma unslashed_append (p : Path) : p.unslashed ++ p.rtakeWhile (· == "") = p :=
  List.rdropWhile_append_rtakeWhile

lemma ne_empty_of_unslashed {p q : Path} {name : String} (h : p.unslashed = q ++ [name]) :
    name ≠ "" := by
  have hdrop : p.rdropWhile (· == "") = q ++ [name] := h
  have hlast := List.rdropWhile_last_not (· == "") p (by simp [hdrop])
  simpa [hdrop] using hlast

/-- Slashes are empty names, which stay where they are. -/
lemma idle_of_mem_slashes {p : Path} : ∀ name ∈ p.rtakeWhile (· == ""), isIdle name = true := by
  intro name hmem
  obtain rfl : name = "" := by simpa using List.mem_rtakeWhile_imp hmem
  rfl

lemma size_append (q r : Path) : (q ++ r).size = q.size + r.size := by
  induction q with
  | nil => simp [size]
  | cons name q ih =>
    simp only [size, List.cons_append, List.foldr_cons] at ih ⊢
    omega

lemma join_cases (p : Path) :
    (∀ q, p.join q = p ++ q) ∨ ∃ base, p = base ++ [""] ∧ ∀ q, p.join q = base ++ q := by
  by_cases h : p.getLast? = some ""
  · obtain ⟨base, rfl⟩ := List.getLast?_eq_some_iff.mp h
    refine Or.inr ⟨base, rfl, fun q => ?_⟩
    simp [join]
  · refine Or.inl fun q => ?_
    simp [join, h]

lemma trimEnd_join (p : Path) {name : String} (h : isIdle name = false) :
    (p.join [name]).trimEnd = p.join [name] := by
  rcases p.join_cases with hp | ⟨base, -, hp⟩ <;> rw [hp] <;> exact trimEnd_snoc _ h

/-- One name on from a path, its directory is that path. -/
lemma parent_join (p : Path) {name : String} (h : isIdle name = false) :
    (p.join [name]).parent = p.trimEnd := by
  rw [parent, trimEnd_join p h]
  rcases p.join_cases with hp | ⟨base, rfl, hp⟩ <;> rw [hp, List.dropLast_concat]
  exact (List.rdropWhile_concat_pos isIdle base "" rfl).symm

end Path

/-! ### Results in a row -/

section

variable {ε α β : Type} {f : α → Except ε β}

@[simp] lemma ok_bind (a : α) (f : α → Except ε β) : Except.ok a >>= f = f a := rfl

@[simp] lemma error_bind (e : ε) (f : α → Except ε β) : Except.error e >>= f = .error e := rfl

@[simp] lemma pure_eq_ok (a : α) : (pure a : Except ε α) = .ok a := rfl

@[simp] lemma throw_eq_error (e : ε) : (throw e : Except ε α) = .error e := rfl

lemma exists_of_bind {x : Except ε α} {b : β} (h : x >>= f = .ok b) :
    ∃ a, x = .ok a ∧ f a = .ok b := by
  rcases x with e | a
  · cases h
  · exact ⟨a, rfl, h⟩

end

namespace Tree

variable {t t' : Tree} {p q : Path} {here d : Place} {name : String} {bytes : Bytes} {i : Item}

/-! ### What stands where -/

lemma item?_insert (h : here ≠ []) (y : Place) :
    item? y (Table.insert here i t) = if here = y then some i else t.item? y := by
  by_cases hy : y = []
  · simp [item?, hy, h]
  · simp [item?, hy, Table.find?_insert]

lemma item?_erase (h : here ≠ []) (y : Place) :
    item? y (Table.erase here t) = if here = y then none else t.item? y := by
  by_cases hy : y = []
  · simp [item?, hy, h]
  · simp [item?, hy, Table.find?_erase]

/-- Every directory of a tree is one in another. -/
def KeepsDirs (t t' : Tree) : Prop := ∀ y, t.item? y = some .dir → t'.item? y = some .dir

lemma keepsDirs_insert (h : t.item? here ≠ some .dir) (i : Item) :
    KeepsDirs t (Table.insert here i t) := by
  intro y hy
  have hne : here ≠ [] := by
    rintro rfl
    exact h rfl
  have hxy : here ≠ y := by
    rintro rfl
    exact h hy
  rw [item?_insert hne, if_neg hxy, hy]

lemma keepsDirs_erase (h : t.item? here ≠ some .dir) : KeepsDirs t (Table.erase here t) := by
  intro y hy
  have hne : here ≠ [] := by
    rintro rfl
    exact h rfl
  have hxy : here ≠ y := by
    rintro rfl
    exact h hy
  rw [item?_erase hne, if_neg hxy, hy]

/-- From one tree to another no directory goes, and what stands where stays, these places apart. -/
structure Spares (t t' : Tree) (ys : List Place) : Prop where
  dirs : KeepsDirs t t'
  elsewhere : ∀ y ∉ ys, t'.item? y = t.item? y

namespace Spares

variable {s : Tree} {xs ys : List Place}

lemma refl (t : Tree) (ys : List Place) : Spares t t ys := ⟨fun _ hy => hy, fun _ _ => rfl⟩

lemma trans (h : Spares s t ys) (h' : Spares t t' ys) : Spares s t' ys :=
  ⟨fun y hy => h'.dirs y (h.dirs y hy), fun y hy => (h'.elsewhere y hy).trans (h.elsewhere y hy)⟩

lemma mono (h : Spares t t' xs) (hsub : xs ⊆ ys) : Spares t t' ys :=
  ⟨h.dirs, fun y hy => h.elsewhere y fun hmem => hy (hsub hmem)⟩

/-- A place at which the same stands as before is spared too. -/
lemma of_cons (h : Spares t t' (here :: ys)) (hsame : t'.item? here = t.item? here) :
    Spares t t' ys := by
  refine ⟨h.dirs, fun y hy => ?_⟩
  by_cases hhere : y = here
  · rw [hhere, hsame]
  · exact h.elsewhere y (by simp [hhere, hy])

end Spares

/-! ### Following paths -/

lemma follow_append (t : Tree) (here : Place) (p q : Path) :
    t.follow here (p ++ q) = (t.follow here p).bind fun d => t.follow d q := by
  induction p generalizing here with
  | nil => rfl
  | cons name p ih =>
    simp only [List.cons_append, follow]
    rcases t.step here name with e | next
    · rfl
    · exact ih next

lemma step_ok (h : t.step here name = .ok d) : t.item? here = some .dir := by
  unfold step at h
  split at h
  · cases h
  · cases h
  · assumption

lemma step_idle (h : t.item? here = some .dir) (hidle : Path.isIdle name = true) :
    t.step here name = .ok here := by
  simp [step, h, hidle]

lemma step_plain (h : t.item? here = some .dir) (hname : Path.IsPlain name) :
    t.step here name = .ok (here ++ [name]) := by
  simp [step, h, hname.idle, hname.up, Nat.not_lt.mpr hname.size]

/-- What a path leads through are directories, and those stay. -/
lemma follow_mono (h : KeepsDirs t t') (hp : t.follow here p = .ok d) :
    t'.follow here p = .ok d := by
  induction p generalizing here with
  | nil => exact hp
  | cons name p ih =>
    rw [follow] at hp ⊢
    rcases hs : t.step here name with e | next <;> rw [hs] at hp
    · cases hp
    · have hdir := step_ok hs
      have hs' : t'.step here name = .ok next := by
        rw [← hs, step, step, hdir, h _ hdir]
      rw [hs']
      exact ih hp

lemma follow_idles (h : t.item? here = some .dir) {idles : List String}
    (hidle : ∀ name ∈ idles, Path.isIdle name = true) : t.follow here idles = .ok here := by
  induction idles with
  | nil => rfl
  | cons name idles ih =>
    rw [follow, step_idle h (hidle name (by simp))]
    exact ih fun n hn => hidle n (by simp [hn])

lemma isPlain_of_follow (hne : name ≠ "") (hdots : Path.isDots name = false)
    (h : t.follow here (name :: p) = .ok d) : Path.IsPlain name := by
  refine .of_not_isDots hne hdots fun hlong => ?_
  have hidle : Path.isIdle name = false := by simp_all [Path.isIdle, Path.isDots]
  have hup : name ≠ ".." := by
    rintro rfl
    cases hdots
  rw [follow] at h
  rcases hs : t.step here name with e | next <;> rw [hs] at h
  · cases h
  · simp [step, step_ok hs, hidle, hup, hlong] at hs

/-- Names that lead down are the names of places. -/
lemma follow_plains {names : List String} (hplain : ∀ name ∈ names, Path.IsPlain name)
    (h : t.follow here names = .ok d) : d = here ++ names := by
  induction names generalizing here with
  | nil => simpa using (Except.ok.inj h).symm
  | cons name names ih =>
    obtain ⟨hname, hnames⟩ := List.forall_mem_cons.mp hplain
    rw [follow] at h
    rcases hs : t.step here name with e | next <;> rw [hs] at h
    · cases h
    · rw [step_plain (step_ok hs) hname] at hs
      obtain rfl := Except.ok.inj hs
      simpa using ih hnames h

/-- The path leads to a directory. -/
structure Dir (t : Tree) (q : Path) (d : Place) : Prop where
  leads : t.follow [] q = .ok d
  isDir : t.item? d = some .dir

namespace Dir

lemma nil (t : Tree) : t.Dir [] [] := ⟨rfl, rfl⟩

lemma mono (h : t.Dir q d) (hk : KeepsDirs t t') : t'.Dir q d :=
  ⟨follow_mono hk h.leads, hk d h.isDir⟩

lemma append (h : t.Dir q d) (p : Path) : t.follow [] (q ++ p) = t.follow d p := by
  rw [follow_append, h.leads]
  rfl

/-- What is behind the last name but stays where it is makes no difference. -/
lemma append_idles (h : t.Dir q d) {idles : List String}
    (hidle : ∀ name ∈ idles, Path.isIdle name = true) : t.Dir (q ++ idles) d := by
  refine ⟨?_, h.isDir⟩
  rw [h.append, follow_idles h.isDir hidle]

lemma of_trimEnd (h : t.Dir q.trimEnd d) : t.Dir q d := by
  obtain ⟨idles, hq, hidle⟩ := Path.eq_trimEnd_append q
  rw [hq]
  exact h.append_idles hidle

/-- A path through a directory goes on from there. -/
lemma of_append (h : t.follow [] (q ++ name :: p) = .ok here) :
    ∃ d, t.Dir q d ∧ t.follow d (name :: p) = .ok here := by
  rw [follow_append] at h
  rcases hq : t.follow [] q with e | d <;> rw [hq] at h
  · cases h
  · refine ⟨d, ⟨hq, ?_⟩, h⟩
    replace h : t.follow d (name :: p) = .ok here := h
    rw [follow] at h
    rcases hs : t.step d name with e | next <;> rw [hs] at h
    · cases h
    · exact step_ok hs

lemma of_append_idles {idles : List String} (h : t.Dir (q ++ idles) d)
    (hidle : ∀ name ∈ idles, Path.isIdle name = true) : t.Dir q d := by
  rcases idles with _ | ⟨name, idles⟩
  · rwa [List.append_nil] at h
  · obtain ⟨d', hd', hlast⟩ := of_append h.leads
    rw [follow_idles hd'.isDir hidle] at hlast
    obtain rfl := Except.ok.inj hlast
    exact hd'

lemma trimEnd (h : t.Dir q d) : t.Dir q.trimEnd d := by
  obtain ⟨idles, hq, hidle⟩ := Path.eq_trimEnd_append q
  rw [hq] at h
  exact h.of_append_idles hidle

lemma unslashed (h : t.Dir q d) : t.Dir q.unslashed d := by
  rw [← q.unslashed_append] at h
  exact h.of_append_idles Path.idle_of_mem_slashes

/-- The way on from a directory. -/
lemma join (h : t.Dir q d) (p : Path) : t.follow [] (q.join p) = t.follow d p := by
  rcases q.join_cases with hq | ⟨base, rfl, hq⟩ <;> rw [hq]
  · exact h.append p
  · have hbase : t.Dir base d := h.of_append_idles (by simp [Path.isIdle])
    exact hbase.append p

lemma of_join (h : t.follow [] (q.join (name :: p)) = .ok here) :
    ∃ d, t.Dir q d ∧ t.follow d (name :: p) = .ok here := by
  rcases q.join_cases with hq | ⟨base, rfl, hq⟩ <;> rw [hq] at h
  · exact of_append h
  · obtain ⟨d, hd, hlast⟩ := of_append h
    exact ⟨d, hd.append_idles (by simp [Path.isIdle]), hlast⟩

lemma of_point (h : t.follow [] (q ++ ["."]) = .ok d) : t.Dir q d := by
  obtain ⟨d', hd', hlast⟩ := of_append h
  rw [follow, step_idle hd'.isDir rfl] at hlast
  obtain rfl : d' = d := Except.ok.inj hlast
  exact hd'

lemma point (h : t.Dir q d) : t.follow [] (q ++ ["."]) = .ok d := by
  rw [h.append, follow, step_idle h.isDir rfl]
  rfl

/-- There are directories all the way down to what a path leads to. -/
lemma above (h : t.Dir q d) : t.item? d.dropLast = some .dir := by
  have key : ∀ (p : Path) (here : Place), (∀ k < here.length, t.item? (here.take k) = some .dir) →
      t.follow here p = .ok d → ∀ k < d.length, t.item? (d.take k) = some .dir := by
    intro p
    induction p with
    | nil =>
      intro here hhere hp
      obtain rfl : here = d := Except.ok.inj hp
      exact hhere
    | cons name p ih =>
      intro here hhere hp
      rw [follow] at hp
      rcases hs : t.step here name with e | next <;> rw [hs] at hp
      · cases hp
      · refine ih next ?_ hp
        have hdir := step_ok hs
        rw [step, hdir] at hs
        dsimp only at hs
        split_ifs at hs <;> obtain rfl := Except.ok.inj hs
        · exact hhere
        · intro k hk
          rw [List.length_dropLast] at hk
          rw [List.dropLast_eq_take, List.take_take, min_eq_left (by omega)]
          exact hhere k (by omega)
        · intro k hk
          simp only [List.length_append, List.length_singleton] at hk
          rw [List.take_append_of_le_length (by omega)]
          rcases Nat.lt_or_ge k here.length with hlt | hge
          · exact hhere k hlt
          · rwa [List.take_of_length_le hge]
  rcases Nat.eq_zero_or_pos d.length with h0 | hpos
  · rw [List.length_eq_zero_iff.mp h0]
    rfl
  · rw [List.dropLast_eq_take]
    exact key q [] (by simp) h.leads _ (by omega)

end Dir

/-! ### What is asked of a path -/

lemma admits_of_le (h : admits p = .ok ()) (hnul : q.hasNul = true → p.hasNul = true)
    (hsize : q.size ≤ p.size) : admits q = .ok () := by
  unfold admits at h ⊢
  split_ifs at h with hp hlong
  rw [if_neg fun hq => hp (hnul hq), if_neg]
  omega

lemma admits_of_isPrefix (h : admits p = .ok ()) (hq : q <+: p) : admits q = .ok () := by
  obtain ⟨r, rfl⟩ := hq
  refine admits_of_le h (fun hnul => ?_) ?_
  · rw [Path.hasNul, List.any_append, Bool.or_eq_true]
    exact Or.inl hnul
  · rw [Path.size_append]
    omega

/-- A path can be followed as far as the way on from it can. -/
lemma admits_of_join (h : admits (p.join (name :: q)) = .ok ()) : admits p = .ok () := by
  rcases p.join_cases with hp | ⟨base, rfl, hp⟩ <;> rw [hp] at h
  · exact admits_of_isPrefix h (List.prefix_append _ _)
  · refine admits_of_le h (fun hnul => ?_) ?_
    · rw [Path.hasNul, List.any_append, Bool.or_eq_true] at hnul ⊢
      exact hnul.imp_right fun hempty => absurd hempty (by simp)
    · rw [Path.size_append, Path.size_append]
      simp only [Path.size, List.foldr_cons, List.foldr_nil, String.utf8ByteSize_empty]
      omega

lemma target_snoc (hadm : admits (q ++ [name]) = .ok ()) (hne : name ≠ "") (hd : t.Dir q d) :
    t.target (q ++ [name]) = .ok ⟨d, name, false⟩ := by
  simp [target, hadm, Path.unslashed_snoc q hne, hd.point]

/-- The path ends in a name that leads down from a directory that is there. -/
structure Leads (t : Tree) (p : Path) (d : Place) (name : String) : Prop where
  admitted : admits p = .ok ()
  route : p = p.dropLast ++ [name]
  plain : Path.IsPlain name
  dir : t.Dir p.dropLast d

namespace Leads

lemma mono (h : t.Leads p d name) (hk : KeepsDirs t t') : t'.Leads p d name :=
  { h with dir := h.dir.mono hk }

lemma target (h : t.Leads p d name) : t.target p = .ok ⟨d, name, false⟩ := by
  have hadm := h.admitted
  rw [h.route] at hadm ⊢
  exact target_snoc hadm h.plain.ne_empty h.dir

lemma place (h : t.Leads p d name) (slashed : Bool) :
    Target.place ⟨d, name, slashed⟩ = .ok (d ++ [name]) := by
  simp [Target.place, Nat.not_lt.mpr h.plain.size]

lemma follow (h : t.Leads p d name) : t.follow [] p = .ok (d ++ [name]) := by
  rw [h.route, h.dir.append, Tree.follow, step_plain h.dir.isDir h.plain]
  rfl

/-- The place at the end of the way on from a directory by names that lead down. -/
lemma place_join {names : List String} (h : t.Leads (q.join names) d name) (hq : t.Dir q here)
    (hplain : ∀ name ∈ names, Path.IsPlain name) : d ++ [name] = here ++ names := by
  have hfollow := h.follow
  rw [hq.join] at hfollow
  exact follow_plains hplain hfollow

lemma stat (h : t.Leads p d name) {i : Item} (hi : t.item? (d ++ [name]) = some i) :
    t.stat p = .ok i := by
  simp [Tree.stat, h.admitted, h.follow, hi]

lemma stat_none (h : t.Leads p d name) (hi : t.item? (d ++ [name]) = none) :
    t.stat p = .error .notFound := by
  simp [Tree.stat, h.admitted, h.follow, hi]

lemma filePlace (h : t.Leads p d name) (hi : t.item? (d ++ [name]) ≠ some .dir) :
    t.filePlace p = .ok (d ++ [name]) := by
  simp [Tree.filePlace, h.target, h.place, h.plain.not_isDots, hi]

end Leads

lemma of_target {g : Target} (h : t.target p = .ok g) :
    admits p = .ok () ∧ t.Dir p.unslashed.dropLast g.dir ∧
      g.name = p.unslashed.getLast?.getD "." ∧ g.slashed = decide (p.unslashed ≠ p) := by
  obtain ⟨⟨⟩, hadm, h⟩ := exists_of_bind h
  obtain ⟨d, hd, h⟩ := exists_of_bind h
  obtain rfl := Except.ok.inj h
  exact ⟨hadm, .of_point hd, rfl, rfl⟩

/-- A path that does not ask for a directory, and ends in a name that is not too long and does not
stay or lead up, leads to one place. -/
lemma leads_of_target {g : Target} (h : t.target p = .ok g) (hdots : Path.isDots g.name = false)
    (hslash : g.slashed = false) (hplace : g.place = .ok here) :
    t.Leads p g.dir g.name ∧ here = g.dir ++ [g.name] := by
  obtain ⟨hadm, hdir, hname, hslashed⟩ := of_target h
  have hun : p.unslashed = p := by simpa [hslash] using hslashed
  rw [hun] at hdir hname
  rcases List.eq_nil_or_concat' p with rfl | ⟨q, last, rfl⟩
  · rw [hname] at hdots
    cases hdots
  · have hlast : g.name = last := by simpa using hname
    have hne : last ≠ "" := by
      have hlast' := List.rdropWhile_eq_self_iff.mp hun (by simp)
      simpa using hlast'
    unfold Target.place at hplace
    split_ifs at hplace with hlong
    obtain rfl := Except.ok.inj hplace
    exact ⟨⟨hadm, by simp [hlast], .of_not_isDots (hlast ▸ hne) hdots hlong, hdir⟩, rfl⟩

/-- A file can be made only at a path that leads to one place. -/
lemma leads_of_filePlace (h : t.filePlace p = .ok here) :
    ∃ d name, t.Leads p d name ∧ here = d ++ [name] ∧ t.item? here ≠ some .dir := by
  obtain ⟨g, hg, h⟩ := exists_of_bind h
  split at h
  · cases h
  · rename_i hname
    obtain ⟨there, hplace, h⟩ := exists_of_bind h
    split at h
    · cases h
    · rename_i hdir
      obtain rfl := Except.ok.inj h
      rw [Bool.not_eq_true, Bool.or_eq_false_iff] at hname
      obtain ⟨hleads, hthere⟩ := leads_of_target hg hname.1 hname.2 hplace
      exact ⟨g.dir, g.name, hleads, hthere, hdir⟩

/-! ### One file -/

/-- The path leads to a file with the given bytes. -/
structure Holds (t : Tree) (p : Path) (bytes : Bytes) (d : Place) (name : String) : Prop where
  leads : t.Leads p d name
  file : t.item? (d ++ [name]) = some (.file bytes)

namespace Holds

lemma read (h : t.Holds p bytes d name) : t.read p = .ok bytes := by
  simp [Tree.read, h.leads.stat h.file]

lemma not_dir (h : t.Holds p bytes d name) : t.item? (d ++ [name]) ≠ some .dir := by
  simp [h.file]

end Holds

/-- What is written to a path is there afterwards, and all else is as it was. -/
lemma Leads.write (h : t.Leads p d name) (hi : t.item? (d ++ [name]) ≠ some .dir) (bytes : Bytes) :
    ∃ t', t.write p bytes = (.ok (), t') ∧ t'.Holds p bytes d name ∧
      Spares t t' [d ++ [name]] := by
  have hne : d ++ [name] ≠ [] := by simp
  have hk := keepsDirs_insert hi (.file bytes)
  refine ⟨Table.insert (d ++ [name]) (.file bytes) t, ?_, ⟨h.mono hk, ?_⟩, hk, fun y hy => ?_⟩
  · rw [Tree.write, h.filePlace hi]
  · rw [item?_insert hne, if_pos rfl]
  · rw [item?_insert hne, if_neg (Ne.symm (by simpa using hy))]

lemma Holds.openFile (h : t.Holds p bytes d name) : t.openFile p = (.ok bytes, t) := by
  rw [Tree.openFile, h.leads.filePlace h.not_dir]
  simp only [h.file]

/-- A file that could be opened is there, with the bytes that were read or none. -/
lemma holds_of_openFile (h : t.openFile p = (.ok bytes, t')) :
    ∃ d name, t'.Holds p bytes d name ∧ (t.Holds p bytes d name ∨ bytes = []) := by
  unfold Tree.openFile at h
  split at h
  · cases h
  · rename_i here hplace
    obtain ⟨d, name, hleads, rfl, hdir⟩ := leads_of_filePlace hplace
    split at h
    · rename_i old hold
      obtain ⟨h1, rfl⟩ := Prod.mk.inj h
      obtain rfl := Except.ok.inj h1
      exact ⟨d, name, ⟨hleads, hold⟩, Or.inl ⟨hleads, hold⟩⟩
    · obtain ⟨h1, rfl⟩ := Prod.mk.inj h
      obtain rfl := Except.ok.inj h1
      refine ⟨d, name, ⟨hleads.mono (keepsDirs_insert hdir _), ?_⟩, Or.inr rfl⟩
      rw [item?_insert (by simp), if_pos rfl]

/-! ### Directories that are there already -/

/-- A path that leads to a directory is not vacant. -/
lemma vacant_of_dir (hadm : admits p = .ok ()) (h : t.Dir p d) :
    t.vacant p = .error .alreadyExists := by
  have hend := h.unslashed
  rcases List.eq_nil_or_concat' p.unslashed with hp | ⟨q, name, hp⟩ <;> rw [hp] at hend
  · have hpoint : t.follow [] ["."] = .ok [] := (Dir.nil t).point
    have htarget : t.target p = .ok ⟨[], ".", decide (p.unslashed ≠ p)⟩ := by
      simp [target, hadm, hp, hpoint]
    simp [vacant, htarget, Path.isDots]
  · obtain ⟨d', hd', hlast⟩ := Dir.of_append hend.leads
    have htarget : t.target p = .ok ⟨d', name, decide (p.unslashed ≠ p)⟩ := by
      simp [target, hadm, hp, hd'.point]
    rcases hdots : Path.isDots name with _ | _
    · have hplain : Path.IsPlain name :=
        isPlain_of_follow (Path.ne_empty_of_unslashed hp) hdots hlast
      obtain rfl := follow_plains (by simpa using hplain) hlast
      simp [vacant, htarget, hdots, Target.place, Nat.not_lt.mpr hplain.size, h.isDir]
    · simp [vacant, htarget, hdots]

lemma stat_of_dir (hadm : admits p = .ok ()) (h : t.Dir p d) : t.stat p = .ok .dir := by
  simp [Tree.stat, hadm, h.leads, h.isDir]

lemma isDir_of_dir (hadm : admits p = .ok ()) (h : t.Dir p d) : t.isDir p = true := by
  rw [isDir, stat_of_dir hadm h]

/-- Where a directory is there already, making it and those above it changes nothing. -/
lemma makeDirs_of_dir (hadm : admits p = .ok ()) (h : t.Dir p d) :
    t.makeDirs p = (.ok (), t) := by
  have hensure : t.ensureDir p = (.ok (), t) := by
    rw [ensureDir, makeDir, vacant_of_dir hadm h]
    simp [isDir_of_dir hadm h]
  unfold makeDirs
  split
  · rfl
  · rw [retryAfter, hensure]

/-- A directory that is made is there. -/
lemma dir_of_vacant (h : t.vacant p = .ok here) : Dir (Table.insert here .dir t) p here := by
  obtain ⟨g, hg, h⟩ := exists_of_bind h
  split at h
  · cases h
  · rename_i hdots
    obtain ⟨there, hplace, h⟩ := exists_of_bind h
    split at h
    · cases h
    · rename_i hnone
      obtain rfl := Except.ok.inj h
      obtain ⟨-, hdir, hname, -⟩ := of_target hg
      rcases List.eq_nil_or_concat' p.unslashed with hnil | ⟨q, last, hlast⟩
      · rw [hname, hnil] at hdots
        exact absurd rfl hdots
      · obtain rfl : g.name = last := by rw [hname, hlast]; simp
        have hne : g.name ≠ "" := Path.ne_empty_of_unslashed hlast
        unfold Target.place at hplace
        split_ifs at hplace with hlong
        obtain rfl := Except.ok.inj hplace
        have hplain : Path.IsPlain g.name := .of_not_isDots hne (by simpa using hdots) hlong
        have hfree : t.item? (g.dir ++ [g.name]) ≠ some .dir := fun hd => hnone (by rw [hd]; rfl)
        have hkeeps := keepsDirs_insert hfree .dir
        have hd : Dir (Table.insert (g.dir ++ [g.name]) .dir t) q g.dir := by
          rw [hlast, List.dropLast_concat] at hdir
          exact hdir.mono hkeeps
        have hself : item? (g.dir ++ [g.name]) (Table.insert (g.dir ++ [g.name]) .dir t) =
            some .dir := by
          rw [item?_insert (by simp), if_pos rfl]
        have hq : Dir (Table.insert (g.dir ++ [g.name]) .dir t) (q ++ [g.name])
            (g.dir ++ [g.name]) := by
          refine ⟨?_, hself⟩
          rw [hd.append, follow, step_plain hd.isDir hplain]
          rfl
        rw [← hlast] at hq
        rw [← p.unslashed_append]
        exact hq.append_idles Path.idle_of_mem_slashes

lemma dir_of_isDir (h : t.isDir p = true) : ∃ d, t.Dir p d := by
  unfold isDir at h
  split at h
  · rename_i hstat
    obtain ⟨⟨⟩, -, hstat⟩ := exists_of_bind hstat
    obtain ⟨d, hd, hstat⟩ := exists_of_bind hstat
    split at hstat
    · rename_i i hi
      obtain rfl := Except.ok.inj hstat
      exact ⟨d, hd, hi⟩
    · cases hstat
  · cases h

lemma dir_of_ensureDir (h : t.ensureDir p = (.ok (), t')) : ∃ d, Dir t' p d := by
  unfold ensureDir makeDir at h
  rcases hv : t.vacant p with e | here <;> rw [hv] at h
  · dsimp only at h
    split at h
    · rename_i heq
      obtain ⟨-, rfl⟩ := Prod.mk.inj heq
      split at h
      · rename_i hdir
        obtain ⟨-, rfl⟩ := Prod.mk.inj h
        exact dir_of_isDir hdir
      · cases (Prod.mk.inj h).1
    · cases (Prod.mk.inj h).1
  · obtain ⟨-, rfl⟩ := Prod.mk.inj h
    exact ⟨here, dir_of_vacant hv⟩

lemma exists_of_retryAfter {make act : Tree → Except Error Unit × Tree}
    (h : retryAfter make act t = (.ok (), t')) : ∃ s, act s = (.ok (), t') := by
  unfold retryAfter at h
  split at h
  · split at h
    · exact ⟨_, h⟩
    · rename_i hmake
      exact absurd h (hmake t')
  · exact ⟨t, h⟩

/-- After directories were made, the path leads to one. -/
lemma dir_of_makeDirs (h : t.makeDirs p = (.ok (), t')) : ∃ d, Dir t' p d := by
  unfold makeDirs at h
  split at h
  · rename_i hnil
    have hp : p.trimEnd = [] := by simpa using hnil
    exact ⟨[], .of_trimEnd (hp ▸ .nil t')⟩
  · obtain ⟨s, hs⟩ := exists_of_retryAfter h
    exact dir_of_ensureDir hs

/-- Opening a file anew finds its directory. -/
lemma Leads.makeDirs (h : t.Leads p d name) : t.makeDirs p.parent = (.ok (), t) := by
  have hend : p.trimEnd = p := by
    rw [h.route]
    exact Path.trimEnd_snoc _ h.plain.idle
  have hadm : admits p.dropLast = .ok () :=
    admits_of_isPrefix h.admitted (List.dropLast_prefix p)
  have hadm' := admits_of_isPrefix hadm (Path.trimEnd_isPrefix p.dropLast)
  rw [Path.parent, hend]
  exact makeDirs_of_dir hadm' h.dir.trimEnd

/-! ### Reading past the end of a name -/

lemma read_of_dir (hadm : admits p = .ok ()) (h : t.Dir p d) :
    t.read p = .error .isADirectory := by
  rw [Tree.read, stat_of_dir hadm h]

lemma read_of_not_admits {e : Error} (h : admits p = .error e) :
    t.read p = .error e ∧ e ≠ .notFound := by
  refine ⟨by simp [Tree.read, Tree.stat, h], ?_⟩
  rintro rfl
  unfold admits at h
  split_ifs at h <;> simp at h

/-- What is read at a path depends only on what stands at the place that its last name leads to. -/
lemma read_congr (hadm : admits p = .ok ()) (h : t.Leads p.trimEnd d name)
    (h' : t'.Leads p.trimEnd d name) (hi : t.item? (d ++ [name]) = t'.item? (d ++ [name])) :
    t.read p = t'.read p := by
  obtain ⟨idles, hp, hidle⟩ := Path.eq_trimEnd_append p
  have hfollow : ∀ s : Tree, s.Leads p.trimEnd d name →
      s.follow [] p = s.follow (d ++ [name]) idles := by
    intro s hs
    conv_lhs => rw [hp]
    rw [follow_append, hs.follow]
    rfl
  have hcases : (∃ e, t.follow [] p = .error e ∧ t'.follow [] p = .error e) ∨
      t.follow [] p = .ok (d ++ [name]) ∧ t'.follow [] p = .ok (d ++ [name]) := by
    rw [hfollow t h, hfollow t' h']
    rcases idles with _ | ⟨n, idles⟩
    · exact Or.inr ⟨rfl, rfl⟩
    · rcases ht : t.item? (d ++ [name]) with _ | (_ | bytes) <;> rw [ht] at hi
      · exact Or.inl ⟨.notFound, by simp [follow, step, ht], by simp [follow, step, ← hi]⟩
      · exact Or.inr ⟨follow_idles ht hidle, follow_idles hi.symm hidle⟩
      · exact Or.inl ⟨.notADirectory, by simp [follow, step, ht], by simp [follow, step, ← hi]⟩
  have hstat : t.stat p = t'.stat p := by
    rcases hcases with ⟨e, he, he'⟩ | ⟨hd, hd'⟩
    · simp [Tree.stat, hadm, he, he']
    · simp [Tree.stat, hadm, hd, hd', hi]
  rw [Tree.read, Tree.read, hstat]

/-- Where something was read, or nothing was there, the last name leads down from its directory. -/
lemma leads_trimEnd_of_read (hd : t.Dir p.trimEnd.dropLast d)
    (h : t.read p = .error .notFound ∨ ∃ bytes, t.read p = .ok bytes) :
    admits p = .ok () ∧ ∃ name, t.Leads p.trimEnd d name := by
  have hread : ∀ e, t.read p = .error e → e = .notFound := by
    intro e he
    rcases h with h | ⟨bytes, h⟩ <;> rw [h] at he
    · exact (Except.error.inj he).symm
    · cases he
  have hadm : admits p = .ok () := by
    rcases hadm : admits p with e | ⟨⟩
    · obtain ⟨he, hne⟩ := read_of_not_admits hadm
      exact absurd (hread e he) hne
    · rfl
  refine ⟨hadm, ?_⟩
  have hnot : ∀ d, ¬ t.Dir p.trimEnd d := by
    intro d hdir
    cases hread _ (read_of_dir hadm (.of_trimEnd hdir))
  rcases p.trimEnd_cases with hnil | ⟨q, name, hq, hidle⟩
  · exact absurd (hnil ▸ .nil t) (hnot [])
  · rw [hq, List.dropLast_concat] at hd
    have hup : name ≠ ".." := by
      rintro rfl
      refine hnot d.dropLast ?_
      rw [hq]
      refine ⟨?_, hd.above⟩
      simp [hd.append, follow, step, hd.isDir, Path.isIdle]
    have hsize : name.utf8ByteSize ≤ Path.maxName := by
      by_contra hlong
      obtain ⟨idles, hp, -⟩ := Path.eq_trimEnd_append p
      have hfollow : t.follow [] p = .error .nameTooLong := by
        rw [hp, hq, List.append_assoc, hd.append]
        simp [follow, step, hd.isDir, hidle, hup, Nat.lt_of_not_le hlong]
      have := hread .nameTooLong
        (by simp [Tree.read, Tree.stat, hadm, hfollow])
      cases this
    refine ⟨name, admits_of_isPrefix hadm p.trimEnd_isPrefix, ?_, ⟨hidle, hup, hsize⟩, ?_⟩
    · simp [hq]
    · rwa [hq, List.dropLast_concat]

/-! ### Removing and renaming -/

lemma removable_ok (h : t.removable p = .ok here) : ∃ bytes, t.item? here = some (.file bytes) := by
  obtain ⟨g, -, h⟩ := exists_of_bind h
  rcases hdots : Path.isDots g.name with _ | _ <;> simp only [hdots] at h
  · obtain ⟨there, -, h⟩ := exists_of_bind h
    rcases hi : t.item? there with _ | (_ | bytes) <;> simp only [hi] at h
    · cases h
    · cases h
    · split_ifs at h
      obtain rfl := Except.ok.inj h
      exact ⟨bytes, hi⟩
  · cases h

/-- No directory is removed. -/
lemma keepsDirs_remove {r : Except Error Unit} (h : t.remove p = (r, t')) : KeepsDirs t t' := by
  unfold remove at h
  rcases hrem : t.removable p with e | here <;> rw [hrem] at h <;>
    obtain ⟨-, rfl⟩ := Prod.mk.inj h
  · exact fun _ hy => hy
  · obtain ⟨bytes, hfile⟩ := removable_ok hrem
    exact keepsDirs_erase (by simp [hfile])

/-- What leads up, is too long or is a directory cannot be removed, and that is not for want of
it. -/
lemma leads_of_remove {r : Except Error Unit} (hd : t.Dir q d) (hne : name ≠ "")
    (h : t.remove (q ++ [name]) = (r, t')) (hr : r = .ok () ∨ r = .error .notFound) :
    t.Leads (q ++ [name]) d name ∧ t.item? (d ++ [name]) ≠ some .dir := by
  have hreason : ∀ e, t.removable (q ++ [name]) = .error e → e = .notFound := by
    intro e he
    rw [remove, he] at h
    obtain ⟨rfl, -⟩ := Prod.mk.inj h
    simpa using hr
  have hadm : admits (q ++ [name]) = .ok () := by
    rcases hadm : admits (q ++ [name]) with e | ⟨⟩
    · refine absurd (hreason e ?_) (read_of_not_admits (t := t) hadm).2
      simp [removable, Tree.target, hadm]
    · rfl
  have htarget := target_snoc hadm hne hd
  have hdots : Path.isDots name = false := by
    by_contra hdots
    cases hreason .isADirectory (by
      simp [removable, htarget, hdots])
  have hsize : ¬ Path.maxName < name.utf8ByteSize := by
    intro hlong
    cases hreason .nameTooLong (by
      simp [removable, htarget, hdots, Target.place, hlong])
  refine ⟨⟨hadm, by simp, .of_not_isDots hne hdots hsize, by rwa [List.dropLast_concat]⟩, ?_⟩
  intro hdir
  cases hreason .isADirectory (by
    simp [removable, htarget, hdots, Target.place, hsize, hdir])

lemma Leads.remove_none (h : t.Leads p d name) (hi : t.item? (d ++ [name]) = none) :
    t.remove p = (.error .notFound, t) := by
  simp [Tree.remove, removable, h.target, h.plain.not_isDots, h.place, hi]

/-- Where no directory is, removing leaves nothing, and all else as it was. -/
lemma Leads.remove (h : t.Leads p d name) (hi : t.item? (d ++ [name]) ≠ some .dir) :
    ∃ r t', t.remove p = (r, t') ∧ (r = .ok () ∨ r = .error .notFound) ∧
      t'.item? (d ++ [name]) = none ∧ Spares t t' [d ++ [name]] := by
  rcases hitem : t.item? (d ++ [name]) with _ | (_ | bytes)
  · exact ⟨.error .notFound, t, h.remove_none hitem, Or.inr rfl, hitem, .refl t _⟩
  · exact absurd hitem hi
  · have hne : d ++ [name] ≠ [] := by simp
    refine ⟨.ok (), Table.erase (d ++ [name]) t, ?_, Or.inl rfl, ?_, keepsDirs_erase hi,
      fun y hy => ?_⟩
    · simp [Tree.remove, removable, h.target, h.plain.not_isDots, h.place, hitem]
    · rw [item?_erase hne, if_pos rfl]
    · rw [item?_erase hne, if_neg (Ne.symm (by simpa using hy))]

section

variable {q : Path} {d' : Place} {name' : String}

/-- A file can be moved to where no directory is. -/
lemma Holds.movable (h : t.Holds p bytes d name) (hq : t.Leads q d' name')
    (hi : t.item? (d' ++ [name']) ≠ some .dir) :
    t.movable p q = .ok (bytes, d ++ [name], d' ++ [name']) := by
  simp [Tree.movable, h.leads.target, hq.target, h.leads.plain.not_isDots, hq.plain.not_isDots,
    h.leads.place, hq.place, h.file, hi]

/-- It is then at the other place only, and all else is as it was. -/
lemma Holds.rename_onto (h : t.Holds p bytes d name) (hq : t.Leads q d' name')
    (hi : t.item? (d' ++ [name']) ≠ some .dir) :
    ∃ t', t.rename p q = (.ok (), t') ∧ t'.Holds q bytes d' name' ∧
      (d ++ [name] ≠ d' ++ [name'] → t'.item? (d ++ [name]) = none) ∧
      Spares t t' [d ++ [name], d' ++ [name']] := by
  have hfree : item? (d' ++ [name']) (Table.erase (d ++ [name]) t) ≠ some .dir := by
    rw [item?_erase (by simp)]
    split
    · simp
    · exact hi
  -- the file goes from its place, and then comes to stand at the other one
  have hk : KeepsDirs t _ := fun y hy =>
    keepsDirs_insert hfree (.file bytes) y (keepsDirs_erase h.not_dir y hy)
  refine ⟨_, by rw [Tree.rename, h.movable hq hi], ⟨hq.mono hk, ?_⟩, fun hne => ?_, hk,
    fun y hy => ?_⟩
  · rw [item?_insert (by simp), if_pos rfl]
  · rw [item?_insert (by simp), if_neg hne.symm, item?_erase (by simp), if_pos rfl]
  · simp only [List.mem_cons, List.not_mem_nil, or_false, not_or] at hy
    rw [item?_insert (by simp), if_neg (Ne.symm hy.2), item?_erase (by simp),
      if_neg (Ne.symm hy.1)]

/-- Nothing is moved but to a path that leads to one place, and not onto a directory. -/
lemma Holds.leads_of_movable (h : t.Holds p bytes d name) {moved : Bytes × Place × Place}
    (hm : t.movable p q = .ok moved) :
    ∃ d' name', t.Leads q d' name' ∧ t.item? (d' ++ [name']) ≠ some .dir := by
  obtain ⟨g, hg⟩ : ∃ g, t.target q = .ok g := by
    have hok := hm
    rw [Tree.movable, h.leads.target] at hok
    obtain ⟨g, hg, -⟩ := exists_of_bind (x := t.target q) hok
    exact ⟨g, hg⟩
  have hbusy : Path.isDots g.name = false := by
    by_contra hdots
    rw [Bool.not_eq_false] at hdots
    simp [Tree.movable, h.leads.target, hg, hdots] at hm
  have hmove : t.movable p q = g.place >>= fun there =>
      if g.slashed then .error .notADirectory
      else if t.item? there = some .dir then .error .isADirectory
      else .ok (bytes, d ++ [name], there) := by
    simp [Tree.movable, h.leads.target, hg, h.leads.plain.not_isDots, hbusy, h.leads.place, h.file]
  obtain ⟨there, hplace, hok⟩ := exists_of_bind (hmove.symm.trans hm)
  split_ifs at hok with hslash hdir
  obtain ⟨hleads, rfl⟩ := leads_of_target hg hbusy (by simpa using hslash) hplace
  exact ⟨g.dir, g.name, hleads, hdir⟩

/-- Renaming is refused and changes nothing, or the file is then at the other path. -/
lemma Holds.rename (h : t.Holds p bytes d name) (q : Path) :
    (∃ e, t.rename p q = (.error e, t)) ∨
      ∃ d' name' t', t.rename p q = (.ok (), t') ∧ t'.Holds q bytes d' name' ∧ KeepsDirs t t' ∧
        t'.item? (d ++ [name]) ≠ some .dir := by
  rcases hm : t.movable p q with e | moved
  · exact Or.inl ⟨e, by rw [Tree.rename, hm]⟩
  · obtain ⟨d', name', hq, hi⟩ := h.leads_of_movable hm
    obtain ⟨t', hren, hnew, hgone, hspare⟩ := h.rename_onto hq hi
    refine Or.inr ⟨d', name', t', hren, hnew, hspare.dirs, ?_⟩
    by_cases hne : d ++ [name] = d' ++ [name']
    · rw [hne]
      exact hnew.not_dir
    · simp [hgone hne]

end

end Tree

end Quorum.Files
