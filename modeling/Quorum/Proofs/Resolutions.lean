import Mathlib.Data.List.Perm.Basic
import Quorum.Proofs.Logs
import Quorum.Proofs.Waits

/-!
How waits are resolved.

A wait that is open is resolved by the event that is meant for it (`Waits.Resolves`), and one that
is resolved stays what it is. The waits and the file of those that are open change apart from each
other. They agree (`Waits.Exact`) as long as no position is registered while an earlier wait for it
is open (`Waits.Apart`).
-/

namespace Quorum

/-- What is asked of the waits. Who waits is told how the wait was settled, or gives up if it is
still open when the time is over. -/
inductive WaitTask
  | register (i : Index)
  | complete (i : Index)
  | fail (i : Index)
  | failAll
  | await (t : Ticket)

inductive WaitAnswer
  | ticket (t : Ticket)
  | done
  | count (k : ℕ)
  | status (s : Option WaitStatus)

namespace Wait

variable {w : Wait}

lemma resolve_of_settled (o : WaitStatus) (h : w.status ≠ .pending) : w.resolve o = w := if_neg h

lemma resolve_index (o : WaitStatus) (w : Wait) : (w.resolve o).index = w.index := by
  unfold resolve
  split <;> rfl

lemma resolve_resolve (o : WaitStatus) (w : Wait) : (w.resolve o).resolve o = w.resolve o := by
  unfold resolve
  split
  · split <;> rfl
  · rfl

end Wait

namespace Waits

variable {ws : Waits} {i j : Index} {t u : Ticket} {w : Wait} {o s : WaitStatus} {task : WaitTask}

def perform (ws : Waits) : WaitTask → WaitAnswer × Waits
  | .register i => Prod.map .ticket id (ws.register i)
  | .complete i => (.done, ws.complete i)
  | .fail i => (.done, ws.fail i)
  | .failAll => Prod.map .count id ws.failAll
  | .await t => (.status ((ws.expire t).status? t), ws.expire t)

def run (ws : Waits) (tasks : List WaitTask) : Waits :=
  tasks.foldl (fun ws task => (ws.perform task).2) ws

/-- The tickets of the waits that are open. -/
def pending (ws : Waits) : List Ticket :=
  (List.range ws.all.length).filter fun t => ws.status? t = some .pending

/-- What a task makes of the wait for a position. It is told of a commit or a failure only under the
position, while it is filed there itself. -/
inductive Resolves (ws : Waits) (t : Ticket) (i : Index) : WaitTask → WaitStatus → Prop
  | completes : Table.find? i ws.filed = some t → Resolves ws t i (.complete i) .committed
  | fails : Table.find? i ws.filed = some t → Resolves ws t i (.fail i) .failed
  | failsAll : Table.find? i ws.filed = some t → Resolves ws t i .failAll .failed
  | givesUp : Resolves ws t i (.await t) .timedOut

/-! ### What a task does to each wait -/

lemma getElem?_resolve (o : WaitStatus) (u t : Ticket) (ws : Waits) :
    (ws.resolve o u).all[t]? =
      if u = t then (ws.all[t]?).map (Wait.resolve o) else ws.all[t]? := by
  by_cases h : u = t
  · rw [if_pos h, ← h]
    exact List.getElem?_modify_eq _ _ _
  · rw [if_neg h]
    exact resolve_all_of_ne o h ws

lemma getElem?_settle (o : WaitStatus) (i : Index) (t : Ticket) (ws : Waits) :
    (ws.settle o i).all[t]? =
      if Table.find? i ws.filed = some t then (ws.all[t]?).map (Wait.resolve o)
      else ws.all[t]? := by
  unfold settle
  rcases Table.find? i ws.filed with _ | u
  · rw [if_neg (Option.some_ne_none t).symm]
  · simp only [getElem?_resolve, Option.some.injEq]

lemma getElem?_foldl_resolve (o : WaitStatus) (ts : List Ticket) (t : Ticket) (ws : Waits) :
    (ts.foldl (fun ws t => ws.resolve o t) ws).all[t]? =
      if t ∈ ts then (ws.all[t]?).map (Wait.resolve o) else ws.all[t]? := by
  induction ts generalizing ws with
  | nil => rfl
  | cons u ts ih =>
    rw [List.foldl_cons, ih, getElem?_resolve]
    by_cases hu : u = t
    · have hmem : t ∈ u :: ts := hu ▸ List.mem_cons_self
      rw [if_pos hu, if_pos hmem, Option.map_map]
      split
      · exact congrArg (Option.map · _) (funext (Wait.resolve_resolve o))
      · rfl
    · simp only [if_neg hu, List.mem_cons, Ne.symm hu, false_or]

lemma getElem?_failAll (t : Ticket) (ws : Waits) :
    ws.failAll.2.all[t]? = if t ∈ ws.filed.map Prod.snd then
      (ws.all[t]?).map (Wait.resolve .failed) else ws.all[t]? :=
  getElem?_foldl_resolve .failed _ t { ws with filed := [] }

lemma getElem?_expire (u t : Ticket) (ws : Waits) :
    (ws.expire u).all[t]? =
      if u = t then (ws.all[t]?).map (Wait.resolve .timedOut) else ws.all[t]? := by
  have hsame : (∀ w, ws.all[u]? = some w → w.status ≠ .pending) → ws.all[t]? =
      if u = t then (ws.all[t]?).map (Wait.resolve .timedOut) else ws.all[t]? := by
    intro hw
    split
    · rename_i h
      rcases ht : ws.all[t]? with _ | w
      · rfl
      · exact congrArg some (Wait.resolve_of_settled _ (hw w (h ▸ ht))).symm
    · rfl
  unfold expire
  split
  · rename_i hu
    exact hsame fun w hw => by cases hu.symm.trans hw
  · rename_i w hu
    split
    · exact getElem?_resolve _ _ _ _
    · rename_i hp
      exact hsame fun w' hw' => Option.some.inj (hu.symm.trans hw') ▸ hp

lemma getElem?_register (i : Index) (h : t < ws.all.length) :
    (ws.register i).2.all[t]? = ws.all[t]? := List.getElem?_append_left h

/-- Each wait that there is already stays or is resolved. -/
lemma perform_cases (task : WaitTask) (h : t < ws.all.length ∨ ∀ i, task ≠ .register i) :
    (ws.perform task).2.all[t]? = ws.all[t]? ∨
      ∃ o, (ws.perform task).2.all[t]? = (ws.all[t]?).map (Wait.resolve o) := by
  have hite : ∀ (c : Prop) [Decidable c] (o : WaitStatus) {x : Option Wait},
      x = (if c then (ws.all[t]?).map (Wait.resolve o) else ws.all[t]?) →
      x = ws.all[t]? ∨ ∃ o, x = (ws.all[t]?).map (Wait.resolve o) := by
    intro c _ o x hx
    split at hx
    · exact Or.inr ⟨o, hx⟩
    · exact Or.inl hx
  cases task with
  | register i => exact Or.inl (getElem?_register i (h.resolve_right fun hr => hr i rfl))
  | complete i => exact hite _ _ (getElem?_settle .committed i t ws)
  | fail i => exact hite _ _ (getElem?_settle .failed i t ws)
  | failAll => exact hite _ _ (getElem?_failAll t ws)
  | await u => exact hite _ _ (getElem?_expire u t ws)

/-- Whoever was told something is told nothing else, and each wait stays for its position. -/
lemma perform_all (hw : ws.all[t]? = some w) (task : WaitTask) :
    ∃ w', (ws.perform task).2.all[t]? = some w' ∧ w'.index = w.index ∧
      (w.status ≠ .pending → w' = w) := by
  rcases perform_cases task (Or.inl (List.getElem?_eq_some_iff.mp hw).1) with h | ⟨o, h⟩
  · exact ⟨w, h.trans hw, rfl, fun _ => rfl⟩
  · rw [hw] at h
    exact ⟨_, h, Wait.resolve_index o w, Wait.resolve_of_settled o⟩

lemma run_all (hw : ws.all[t]? = some w) (tasks : List WaitTask) :
    ∃ w', (ws.run tasks).all[t]? = some w' ∧ w'.index = w.index ∧
      (w.status ≠ .pending → w' = w) := by
  induction tasks generalizing ws w with
  | nil => exact ⟨w, hw, rfl, fun _ => rfl⟩
  | cons task tasks ih =>
    obtain ⟨w₁, hw₁, hi₁, hs₁⟩ := perform_all hw task
    obtain ⟨w₂, hw₂, hi₂, hs₂⟩ := ih hw₁
    refine ⟨w₂, hw₂, hi₂.trans hi₁, fun hs => ?_⟩
    rw [hs₁ hs] at hs₂
    exact hs₂ hs

/-- A wait begins open, for the position that is registered, under the ticket that is given out. -/
lemma perform_new (hn : ws.all[t]? = none) (hw : (ws.perform task).2.all[t]? = some w) :
    task = .register w.index ∧ w.status = .pending ∧ (ws.perform task).1 = .ticket t := by
  by_cases hr : ∃ i, task = .register i
  · obtain ⟨i, rfl⟩ := hr
    rcases of_getElem?_snoc (show (ws.all ++ [_])[t]? = some w from hw) with hold | ⟨rfl, rfl⟩
    · cases hn.symm.trans hold
    · exact ⟨rfl, rfl, rfl⟩
  · rcases perform_cases (t := t) task (Or.inr fun i h => hr ⟨i, h⟩) with h | ⟨o, h⟩ <;>
      rw [hw, hn] at h <;> cases h

/-! ### What is filed in any run -/

/-- What is filed is open, and each position is filed once. -/
structure Neat (ws : Waits) : Prop where
  sound : ws.Sound
  nodup : (ws.filed.map Prod.fst).Nodup

lemma perform_changes (ws : Waits) (task : WaitTask) : ws.Change (ws.perform task).2 := by
  cases task with
  | register i => exact .registers ws i
  | complete i => exact .settles ws .committed i
  | fail i => exact .settles ws .failed i
  | failAll => exact .failsAll ws
  | await t => exact .expires ws t

lemma nodup_settle (h : (ws.filed.map Prod.fst).Nodup) (o : WaitStatus) (i : Index) :
    ((ws.settle o i).filed.map Prod.fst).Nodup := by
  unfold settle
  split
  · exact h
  · exact Table.nodup_erase h i

lemma Neat.perform (h : ws.Neat) (task : WaitTask) : (ws.perform task).2.Neat := by
  refine ⟨(perform_changes ws task).sound h.sound, ?_⟩
  cases task with
  | register i => exact Table.nodup_insert h.nodup i _
  | complete i => exact nodup_settle h.nodup .committed i
  | fail i => exact nodup_settle h.nodup .failed i
  | failAll =>
    show (ws.failAll.2.filed.map Prod.fst).Nodup
    rw [failAll_filed]
    exact List.nodup_nil
  | await t =>
    show ((ws.expire t).filed.map Prod.fst).Nodup
    unfold expire
    split
    · exact h.nodup
    · split
      · exact Table.nodup_erase h.nodup _
      · exact h.nodup

lemma Neat.run (h : ws.Neat) (tasks : List WaitTask) : (ws.run tasks).Neat := by
  induction tasks generalizing ws with
  | nil => exact h
  | cons task tasks ih => exact ih (h.perform task)

lemma Neat.mem_filed_iff (h : ws.Neat) (ht : ws.all[t]? = some { index := i }) :
    t ∈ ws.filed.map Prod.snd ↔ Table.find? i ws.filed = some t := by
  refine ⟨fun hm => ?_, fun hf => List.mem_map.mpr ⟨(i, t), Table.mem_of_find? hf, rfl⟩⟩
  obtain ⟨⟨j, u⟩, hju, rfl⟩ := List.mem_map.mp hm
  have hj := Table.find?_of_mem h.nodup hju
  have heq := ht.symm.trans (h.sound j u hj)
  obtain rfl : i = j := congrArg Wait.index (Option.some.inj heq)
  exact hj

lemma ite_resolve_iff {c : Prop} [Decidable c] (ht : ws.all[t]? = some { index := i })
    (hs : s ≠ .pending) :
    (if c then (ws.all[t]?).map (Wait.resolve o) else ws.all[t]?) = some ⟨i, s⟩ ↔ c ∧ s = o := by
  rw [ht]
  split
  · rename_i hc
    exact ⟨fun h => ⟨hc, (congrArg Wait.status (Option.some.inj h)).symm⟩, fun h => h.2 ▸ rfl⟩
  · rename_i hc
    exact iff_of_false (fun h => hs (congrArg Wait.status (Option.some.inj h)).symm) fun h => hc h.1

/-- An open wait is resolved by what is meant for it, and by nothing else. -/
lemma Neat.resolves_iff (h : ws.Neat) (ht : ws.all[t]? = some { index := i }) (hs : s ≠ .pending) :
    (ws.perform task).2.all[t]? = some ⟨i, s⟩ ↔ ws.Resolves t i task s := by
  have hown : ∀ {j}, Table.find? j ws.filed = some t → j = i := by
    intro j hj
    exact congrArg Wait.index (Option.some.inj ((h.sound j t hj).symm.trans ht))
  cases task with
  | register j =>
    have hold := getElem?_register j (List.getElem?_eq_some_iff.mp ht).1
    refine iff_of_false (fun heq => ?_) (by rintro ⟨⟩)
    have hsame := ht.symm.trans (hold.symm.trans heq)
    exact hs (congrArg Wait.status (Option.some.inj hsame)).symm
  | complete j =>
    refine (getElem?_settle _ j t ws ▸ ite_resolve_iff ht hs).trans ⟨?_, ?_⟩
    · rintro ⟨hf, rfl⟩
      exact hown hf ▸ .completes (hown hf ▸ hf)
    · intro hr
      cases hr with
      | completes hf => exact ⟨hf, rfl⟩
  | fail j =>
    refine (getElem?_settle _ j t ws ▸ ite_resolve_iff ht hs).trans ⟨?_, ?_⟩
    · rintro ⟨hf, rfl⟩
      exact hown hf ▸ .fails (hown hf ▸ hf)
    · intro hr
      cases hr with
      | fails hf => exact ⟨hf, rfl⟩
  | failAll =>
    refine (getElem?_failAll t ws ▸ ite_resolve_iff ht hs).trans ⟨?_, ?_⟩
    · rintro ⟨hm, rfl⟩
      exact .failsAll ((h.mem_filed_iff ht).mp hm)
    · intro hr
      cases hr with
      | failsAll hf => exact ⟨(h.mem_filed_iff ht).mpr hf, rfl⟩
  | await u =>
    refine (getElem?_expire u t ws ▸ ite_resolve_iff ht hs).trans ⟨?_, ?_⟩
    · rintro ⟨rfl, rfl⟩
      exact .givesUp
    · intro hr
      cases hr with
      | givesUp => exact ⟨rfl, rfl⟩

/-! ### What is filed where no position is registered twice -/

/-- The file is of the open waits, each under its position. -/
structure Exact (ws : Waits) : Prop where
  nodup : (ws.filed.map Prod.fst).Nodup
  filed_iff : ∀ i t, Table.find? i ws.filed = some t ↔ ws.all[t]? = some { index := i }

/-- No earlier wait for a position that is registered is open. -/
def Admits (ws : Waits) : WaitTask → Prop
  | .register i => ({ index := i } : Wait) ∉ ws.all
  | _ => True

instance (ws : Waits) : (task : WaitTask) → Decidable (ws.Admits task)
  | .register i => inferInstanceAs (Decidable (({ index := i } : Wait) ∉ ws.all))
  | .complete _ | .fail _ | .failAll | .await _ => .isTrue trivial

/-- No position is registered while an earlier wait for it is open. -/
def Apart (ws : Waits) : List WaitTask → Prop
  | [] => True
  | task :: tasks => ws.Admits task ∧ (ws.perform task).2.Apart tasks

instance : (tasks : List WaitTask) → (ws : Waits) → Decidable (ws.Apart tasks)
  | [], _ => .isTrue trivial
  | task :: tasks, ws =>
    have := instDecidableApart tasks (ws.perform task).2
    inferInstanceAs (Decidable (ws.Admits task ∧ (ws.perform task).2.Apart tasks))

lemma run_snoc (tasks : List WaitTask) (task : WaitTask) (ws : Waits) :
    ws.run (tasks ++ [task]) = ((ws.run tasks).perform task).2 := List.foldl_concat _ _ _ _

lemma apart_snoc {tasks : List WaitTask} :
    ws.Apart (tasks ++ [task]) ↔ ws.Apart tasks ∧ (ws.run tasks).Admits task := by
  induction tasks generalizing ws with
  | nil => exact ⟨fun h => ⟨trivial, h.1⟩, fun h => ⟨h.2, trivial⟩⟩
  | cons first tasks ih => exact (and_congr_right fun _ => ih).trans and_assoc.symm

lemma mem_pending_iff : t ∈ ws.pending ↔ ws.status? t = some .pending := by
  unfold pending
  rw [List.mem_filter, List.mem_range, decide_eq_true_eq, and_iff_right_iff_imp]
  intro h
  obtain ⟨w, hw, -⟩ := Option.map_eq_some_iff.mp h
  exact (List.getElem?_eq_some_iff.mp hw).1

namespace Exact

lemma neat (h : ws.Exact) : ws.Neat := ⟨fun i t => (h.filed_iff i t).mp, h.nodup⟩

lemma nil : Exact {} := ⟨List.nodup_nil, fun i t => ⟨fun h => (by cases h), fun h => (by cases h)⟩⟩

lemma register (h : ws.Exact) (hi : ({ index := i } : Wait) ∉ ws.all) :
    (ws.register i).2.Exact := by
  refine ⟨Table.nodup_insert h.nodup i _, fun j t => ?_⟩
  show Table.find? j (Table.insert i ws.all.length ws.filed) = some t ↔ (ws.all ++ [_])[t]? = _
  rw [Table.find?_insert]
  constructor
  · intro hj
    split at hj
    · rename_i hij
      rw [← Option.some.inj hj, List.getElem?_concat_length, hij]
    · have hall := (h.filed_iff j t).mp hj
      rw [List.getElem?_append_left (List.getElem?_eq_some_iff.mp hall).1, hall]
  · intro hj
    rcases of_getElem?_snoc hj with hold | ⟨rfl, hnew⟩
    · have hij : i ≠ j := by
        rintro rfl
        exact hi (List.mem_of_getElem? hold)
      rw [if_neg hij]
      exact (h.filed_iff j t).mpr hold
    · rw [if_pos (congrArg Wait.index hnew).symm]

lemma settle (h : ws.Exact) (ho : o ≠ .pending) (i : Index) : (ws.settle o i).Exact := by
  refine ⟨nodup_settle h.nodup o i, fun j t => ?_⟩
  rw [find?_settle, getElem?_settle]
  by_cases hf : Table.find? i ws.filed = some t
  · have hall := (h.filed_iff i t).mp hf
    rw [if_pos hf, hall]
    refine iff_of_false (fun hj => ?_) fun hj => ?_
    · split at hj
      · cases hj
      · rename_i hij
        have heq := hall.symm.trans ((h.filed_iff j t).mp hj)
        exact hij (congrArg Wait.index (Option.some.inj heq))
    · exact ho (congrArg Wait.status (Option.some.inj hj))
  · rw [if_neg hf]
    split
    · rename_i hij
      rw [← h.filed_iff, ← hij]
      exact iff_of_false (Option.some_ne_none t).symm hf
    · exact h.filed_iff j t

/-- Whoever gives up while its wait is open takes its own out of the file. -/
lemma expire_eq (h : ws.Exact) (ht : ws.all[t]? = some { index := i }) :
    ws.expire t = ws.settle .timedOut i := by
  rw [Waits.expire, ht, Waits.settle, (h.filed_iff i t).mpr ht]
  exact if_pos rfl

lemma expire (h : ws.Exact) (t : Ticket) : (ws.expire t).Exact := by
  by_cases hp : ∃ i, ws.all[t]? = some { index := i }
  · obtain ⟨i, ht⟩ := hp
    rw [h.expire_eq ht]
    exact h.settle (by decide) i
  · have hsame : ws.expire t = ws := by
      unfold Waits.expire
      split
      · rfl
      · rename_i w hw
        refine if_neg fun hs => hp ⟨w.index, hw.trans ?_⟩
        rw [← hs]
    rw [hsame]
    exact h

lemma mem_filed_iff (h : ws.Exact) :
    t ∈ ws.filed.map Prod.snd ↔ ws.status? t = some .pending := by
  constructor
  · intro hm
    obtain ⟨⟨i, u⟩, hiu, rfl⟩ := List.mem_map.mp hm
    exact h.neat.sound.status?_eq (Table.find?_of_mem h.nodup hiu)
  · intro hs
    obtain ⟨w, hw, hp⟩ := Option.map_eq_some_iff.mp hs
    have hall : ws.all[t]? = some { index := w.index } := by rw [hw, ← hp]
    exact List.mem_map.mpr ⟨_, Table.mem_of_find? ((h.filed_iff w.index t).mpr hall), rfl⟩

lemma failAll_all (h : ws.Exact) : ws.failAll.2.all = ws.all.map (Wait.resolve .failed) := by
  apply List.ext_getElem?
  intro t
  rw [getElem?_failAll, List.getElem?_map]
  split
  · rfl
  · rename_i hm
    rcases hw : ws.all[t]? with _ | w
    · rfl
    · have hs : w.status ≠ .pending := by
        intro hp
        rw [h.mem_filed_iff, status?, hw, ← hp] at hm
        exact hm rfl
      exact congrArg some (Wait.resolve_of_settled _ hs).symm

lemma failAll (h : ws.Exact) : ws.failAll.2.Exact := by
  refine ⟨by rw [failAll_filed]; exact List.nodup_nil, fun i t => ?_⟩
  rw [failAll_filed, h.failAll_all, List.getElem?_map]
  refine iff_of_false (by rintro ⟨⟩) fun heq => ?_
  obtain ⟨w, -, hw⟩ := Option.map_eq_some_iff.mp heq
  have hs := congrArg Wait.status hw
  unfold Wait.resolve at hs
  split at hs
  · cases hs
  · rename_i hp
    exact hp hs

lemma perform (h : ws.Exact) (ha : ws.Admits task) : (ws.perform task).2.Exact := by
  cases task with
  | register i => exact h.register ha
  | complete i => exact h.settle (by decide) i
  | fail i => exact h.settle (by decide) i
  | failAll => exact h.failAll
  | await t => exact h.expire t

/-- Settling a position resolves what is open for it and touches nothing else. -/
lemma settle_all (h : ws.Exact) (o : WaitStatus) (i : Index) :
    (ws.settle o i).all = ws.all.map fun w => if w.index = i then w.resolve o else w := by
  apply List.ext_getElem?
  intro t
  rw [getElem?_settle, List.getElem?_map]
  rcases hw : ws.all[t]? with _ | w
  · split <;> rfl
  · by_cases hf : Table.find? i ws.filed = some t
    · have heq := Option.some.inj (hw.symm.trans ((h.filed_iff i t).mp hf))
      rw [if_pos hf, heq]
      exact congrArg some (if_pos rfl).symm
    · rw [if_neg hf]
      refine congrArg some ?_
      dsimp only
      split
      · rename_i hi
        refine (Wait.resolve_of_settled o fun hs => hf ((h.filed_iff i t).mpr ?_)).symm
        rw [hw, ← hi, ← hs]
      · rfl

/-- The tickets in the file are those of the open waits. -/
lemma filed_perm_pending (h : ws.Exact) : (ws.filed.map Prod.snd).Perm ws.pending := by
  have hinj : ∀ p ∈ ws.filed, ∀ q ∈ ws.filed, p.2 = q.2 → p = q := by
    intro p hp q hq heq
    have hi := (h.filed_iff p.1 p.2).mp (Table.find?_of_mem h.nodup hp)
    have hj := (h.filed_iff q.1 q.2).mp (Table.find?_of_mem h.nodup hq)
    rw [heq] at hi
    exact Prod.ext (congrArg Wait.index (Option.some.inj (hi.symm.trans hj))) heq
  refine (List.perm_ext_iff_of_nodup ?_ ?_).mpr fun t => ?_
  · exact List.Nodup.map_on hinj h.nodup.of_map
  · exact List.nodup_range.filter _
  · exact h.mem_filed_iff.trans mem_pending_iff.symm

lemma size_eq (h : ws.Exact) : ws.size = ws.pending.length := by
  calc ws.size = (ws.filed.map Prod.snd).length := (List.length_map _).symm
    _ = ws.pending.length := h.filed_perm_pending.length_eq

lemma failAll_pending (h : ws.Exact) : ws.failAll.2.pending = [] := by
  have hperm := h.failAll.filed_perm_pending
  rw [failAll_filed] at hperm
  exact hperm.nil_eq.symm

end Exact

lemma Exact.run {tasks : List WaitTask} (h : ws.Exact) (ha : ws.Apart tasks) :
    (ws.run tasks).Exact := by
  induction tasks generalizing ws with
  | nil => exact h
  | cons task tasks ih => exact ih (h.perform ha.1) ha.2

/-- Waits that come of registering no position while an earlier wait for it is open. -/
def Kept (ws : Waits) : Prop := ∃ tasks, Apart {} tasks ∧ run {} tasks = ws

lemma Kept.exact (h : ws.Kept) : ws.Exact := by
  obtain ⟨tasks, ha, rfl⟩ := h
  exact Exact.nil.run ha

lemma Kept.perform (h : ws.Kept) (task : WaitTask) (ha : ws.Admits task) :
    (ws.perform task).2.Kept := by
  obtain ⟨tasks, hapart, rfl⟩ := h
  exact ⟨tasks ++ [task], apart_snoc.mpr ⟨hapart, ha⟩, run_snoc tasks task {}⟩

/-- What comes of anything but a registration. -/
structure Eases (ws ws' : Waits) : Prop where
  kept : ws.Kept → ws'.Kept
  filed : ∀ i t, Table.find? i ws'.filed = some t → Table.find? i ws.filed = some t

namespace Eases

variable {ws' ws'' : Waits}

lemma refl (ws : Waits) : ws.Eases ws := ⟨fun h => h, fun _ _ h => h⟩

lemma trans (h : ws.Eases ws') (h' : ws'.Eases ws'') : ws.Eases ws'' :=
  ⟨fun hk => h'.kept (h.kept hk), fun i t hf => h.filed i t (h'.filed i t hf)⟩

lemma filed_eq_nil (h : ws.Eases ws') (hf : ws.filed = []) : ws'.filed = [] := by
  rcases hf' : ws'.filed with _ | ⟨⟨i, t⟩, rest⟩
  · rfl
  · have hi : Table.find? i ws'.filed = some t := by
      rw [hf', Table.find?, if_pos rfl]
    have hold := h.filed i t hi
    rw [hf] at hold
    cases hold

lemma settle_filed {o : WaitStatus} (h : Table.find? j (ws.settle o i).filed = some t) :
    Table.find? j ws.filed = some t := by
  rw [find?_settle] at h
  split at h
  · cases h
  · exact h

lemma complete (ws : Waits) (i : Index) : ws.Eases (ws.complete i) :=
  ⟨fun h => h.perform (.complete i) trivial, fun _ _ => settle_filed⟩

lemma fail (ws : Waits) (i : Index) : ws.Eases (ws.fail i) :=
  ⟨fun h => h.perform (.fail i) trivial, fun _ _ => settle_filed⟩

lemma failAll (ws : Waits) : ws.Eases ws.failAll.2 := by
  refine ⟨fun h => h.perform .failAll trivial, fun i t h => ?_⟩
  rw [failAll_filed] at h
  cases h

lemma expire (ws : Waits) (t : Ticket) : ws.Eases (ws.expire t) :=
  ⟨fun h => h.perform (.await t) trivial, fun _ _ => find?_of_expire⟩

lemma expireAll (ws : Waits) : ws.Eases ws.expireAll := by
  have key : ∀ (ts : List Ticket) (ws : Waits),
      ws.Eases (ts.foldl (fun ws t => ws.expire t) ws) := by
    intro ts
    induction ts with
    | nil => exact refl
    | cons t ts ih => exact fun ws => (expire ws t).trans (ih _)
  exact key _ ws

end Eases

end Waits

end Quorum
