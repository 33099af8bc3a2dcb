import Mathlib.Logic.Relation
import Mathlib.Tactic
import Quorum.Waits

/-!
What becomes of a wait.

A wait that is filed is open, for the position that it is filed under (`Waits.Sound`), and a wait is
told of a commit only by the position it is filed under.
-/

namespace Quorum.Waits

variable {ws : Waits} {i j : Index} {t u : Ticket} {s : WaitStatus}

/-- Whatever is filed for a position is an open wait for that position. -/
def Sound (ws : Waits) : Prop :=
  ∀ i t, Table.find? i ws.filed = some t → ws.all[t]? = some { index := i }

/-! ### Resolving -/

@[simp] lemma resolve_filed (o : WaitStatus) (t : Ticket) (ws : Waits) :
    (ws.resolve o t).filed = ws.filed := rfl

@[simp] lemma resolve_length (o : WaitStatus) (t : Ticket) (ws : Waits) :
    (ws.resolve o t).all.length = ws.all.length := List.length_modify _ _ _

lemma resolve_all_of_ne (o : WaitStatus) (h : t ≠ u) (ws : Waits) :
    (ws.resolve o t).all[u]? = ws.all[u]? := by
  exact List.getElem?_modify_ne _ _ h

lemma status?_resolve (o : WaitStatus) (t : Ticket) (ws : Waits) :
    (ws.resolve o t).status? t =
      if ws.status? t = some .pending then some o else ws.status? t := by
  show ((ws.all.modify t _)[t]?).map _ = _
  rw [List.getElem?_modify_eq, status?]
  rcases ws.all[t]? with _ | w
  · rfl
  · by_cases hw : w.status = .pending
    · simp [Wait.resolve, hw]
    · simp [Wait.resolve, hw]

/-- What a client was told is not taken back. -/
lemma status?_resolve_of_told (o : WaitStatus) (t : Ticket) (h : ws.status? u = some s)
    (hs : s ≠ .pending) : (ws.resolve o t).status? u = some s := by
  by_cases htu : t = u
  · subst htu
    rw [status?_resolve, h, if_neg fun heq => hs (Option.some.inj heq)]
  · rw [status?, resolve_all_of_ne o htu]
    exact h

lemma of_status?_resolve {o : WaitStatus} (h : (ws.resolve o t).status? u = some s) :
    ws.status? u = some s ∨ s = o ∧ t = u := by
  by_cases htu : t = u
  · subst htu
    rw [status?_resolve] at h
    split at h
    · exact Or.inr ⟨(Option.some.inj h).symm, rfl⟩
    · exact Or.inl h
  · rw [status?, resolve_all_of_ne o htu] at h
    exact Or.inl h

/-! ### Registering -/

lemma sound_register (h : ws.Sound) (i : Index) : (ws.register i).2.Sound := by
  intro j t hj
  change Table.find? j (Table.insert i ws.all.length ws.filed) = some t at hj
  show (ws.all ++ [_])[t]? = _
  rw [Table.find?_insert] at hj
  split at hj
  · rename_i hij
    obtain rfl := Option.some.inj hj
    rw [List.getElem?_concat_length, hij]
  · have hall := h j t hj
    rw [List.getElem?_append_left (List.getElem?_eq_some_iff.mp hall).1, hall]

lemma find?_register (i : Index) (ws : Waits) :
    Table.find? i (ws.register i).2.filed = some ws.all.length := by
  show Table.find? i (Table.insert i ws.all.length ws.filed) = _
  rw [Table.find?_insert, if_pos rfl]

lemma status?_register (i : Index) (ws : Waits) :
    (ws.register i).2.status? ws.all.length = some .pending := by
  show ((ws.all ++ [_])[ws.all.length]?).map _ = _
  rw [List.getElem?_concat_length]
  rfl

/-! ### Settling -/

lemma find?_settle (o : WaitStatus) (i j : Index) (ws : Waits) :
    Table.find? j (ws.settle o i).filed = if i = j then none else Table.find? j ws.filed := by
  unfold settle
  split
  · rename_i hnone
    split
    · rename_i hij
      rw [← hij, hnone]
    · rfl
  · rw [resolve_filed, Table.find?_erase]

@[simp] lemma settle_length (o : WaitStatus) (i : Index) (ws : Waits) :
    (ws.settle o i).all.length = ws.all.length := by
  unfold settle
  split
  · rfl
  · rw [resolve_length]

lemma of_status?_settle {o : WaitStatus} (h : (ws.settle o i).status? t = some s) :
    ws.status? t = some s ∨ s = o ∧ Table.find? i ws.filed = some t := by
  unfold settle at h
  split at h
  · exact Or.inl h
  · rename_i u hu
    rcases of_status?_resolve h with hs | ⟨hs, rfl⟩
    · exact Or.inl hs
    · exact Or.inr ⟨hs, hu⟩

/-- No ticket is filed under two positions, so the waits that stay in the file stay open. -/
lemma Sound.settle (h : ws.Sound) (o : WaitStatus) (i : Index) : (ws.settle o i).Sound := by
  intro j t hj
  rw [find?_settle] at hj
  split at hj
  · cases hj
  · rename_i hij
    unfold Waits.settle
    split
    · exact h j t hj
    · rename_i u hu
      have hne : u ≠ t := by
        rintro rfl
        have := (h i u hu).symm.trans (h j u hj)
        exact hij (congrArg Wait.index (Option.some.inj this))
      rw [resolve_all_of_ne o hne]
      exact h j t hj

lemma Sound.status?_eq (h : ws.Sound) (hi : Table.find? i ws.filed = some t) :
    ws.status? t = some .pending := by
  rw [status?, h i t hi]
  rfl

/-- The wait that is filed for a position is told what is settled. -/
lemma status?_settle_of_filed (o : WaitStatus) (hi : Table.find? i ws.filed = some t)
    (h : ws.status? t = some .pending) : (ws.settle o i).status? t = some o := by
  unfold settle
  rw [hi, status?_resolve]
  exact if_pos h

/-- The wait that is filed for a position is told of the commit, if it was told nothing else. -/
lemma status?_complete (hi : Table.find? i ws.filed = some t)
    (h : ws.status? t = some .pending ∨ ws.status? t = some .committed) :
    (ws.complete i).status? t = some .committed := by
  unfold complete settle
  rw [hi, status?_resolve]
  show (if ws.status? t = _ then _ else ws.status? t) = _
  rcases h with h | h <;> simp [h]

/-- Completing what is filed for another position leaves a wait open, or tells it of a commit. -/
lemma status?_complete_of_open (i : Index)
    (h : ws.status? t = some .pending ∨ ws.status? t = some .committed) :
    (ws.complete i).status? t = some .pending ∨ (ws.complete i).status? t = some .committed := by
  rcases hi : Table.find? i ws.filed with _ | u
  · simpa only [complete, settle, hi] using h
  · by_cases hu : u = t
    · exact Or.inr (status?_complete (hu ▸ hi) h)
    · have hsame : (ws.complete i).status? t = ws.status? t := by
        simp only [complete, settle, hi, status?, resolve_all_of_ne _ hu]
      rwa [hsame]

lemma status?_settle_of_told (o : WaitStatus) (i : Index) (h : ws.status? t = some s)
    (hs : s ≠ .pending) : (ws.settle o i).status? t = some s := by
  unfold settle
  split
  · exact h
  · exact status?_resolve_of_told o _ h hs

/-! ### Failing and giving up -/

lemma foldl_resolve (o : WaitStatus) (ts : List Ticket) (ws : Waits) :
    (ts.foldl (fun ws t => ws.resolve o t) ws).filed = ws.filed ∧
      (ts.foldl (fun ws t => ws.resolve o t) ws).all.length = ws.all.length ∧
      ∀ u s, (ts.foldl (fun ws t => ws.resolve o t) ws).status? u = some s →
        ws.status? u = some s ∨ s = o := by
  induction ts generalizing ws with
  | nil => exact ⟨rfl, rfl, fun u s h => Or.inl h⟩
  | cons t ts ih =>
    obtain ⟨h1, h2, h3⟩ := ih (ws.resolve o t)
    refine ⟨h1, h2.trans (resolve_length o t ws), fun u s h => ?_⟩
    rcases h3 u s h with h | h
    · exact (of_status?_resolve h).imp_right And.left
    · exact Or.inr h

lemma status?_foldl_of_told (o : WaitStatus) (ts : List Ticket) (h : ws.status? u = some s)
    (hs : s ≠ .pending) : (ts.foldl (fun ws t => ws.resolve o t) ws).status? u = some s := by
  induction ts generalizing ws with
  | nil => exact h
  | cons t ts ih => exact ih (status?_resolve_of_told o t h hs)

lemma status?_foldl_of_mem {o : WaitStatus} (ho : o ≠ .pending) {ts : List Ticket} (ht : t ∈ ts)
    (h : ws.status? t = some .pending) :
    (ts.foldl (fun ws t => ws.resolve o t) ws).status? t = some o := by
  induction ts generalizing ws with
  | nil => cases ht
  | cons u ts ih =>
    by_cases hut : u = t
    · subst hut
      refine status?_foldl_of_told o ts ?_ ho
      rw [status?_resolve, if_pos h]
    · have hmem : t ∈ ts := (List.mem_cons.mp ht).resolve_left (Ne.symm hut)
      exact ih hmem (by rwa [status?, resolve_all_of_ne o hut])

@[simp] lemma failAll_filed (ws : Waits) : ws.failAll.2.filed = [] := (foldl_resolve _ _ _).1

@[simp] lemma failAll_length (ws : Waits) : ws.failAll.2.all.length = ws.all.length :=
  (foldl_resolve _ _ _).2.1

lemma of_status?_failAll (h : ws.failAll.2.status? t = some s) :
    ws.status? t = some s ∨ s = .failed :=
  (foldl_resolve .failed (ws.filed.map Prod.snd) { ws with filed := [] }).2.2 t s h

lemma status?_failAll_of_told (h : ws.status? t = some s) (hs : s ≠ .pending) :
    ws.failAll.2.status? t = some s :=
  status?_foldl_of_told .failed (ws.filed.map Prod.snd) h hs

/-- A wait that is filed and open is failed with all others. -/
lemma status?_failAll_of_filed (hi : Table.find? i ws.filed = some t)
    (h : ws.status? t = some .pending) : ws.failAll.2.status? t = some .failed := by
  have hmem : t ∈ ws.filed.map Prod.snd := List.mem_map.mpr ⟨(i, t), Table.mem_of_find? hi, rfl⟩
  exact status?_foldl_of_mem (by decide) hmem h

lemma sound_of_filed_eq_nil (h : ws.filed = []) : ws.Sound := by
  intro i t hi
  rw [h] at hi
  cases hi

lemma find?_of_expire (h : Table.find? j (ws.expire t).filed = some u) :
    Table.find? j ws.filed = some u := by
  unfold expire at h
  split at h
  · exact h
  · split at h
    · rw [resolve_filed, Table.find?_erase] at h
      split at h
      · cases h
      · exact h
    · exact h

lemma expire_filed_eq_nil (h : ws.filed = []) (t : Ticket) : (ws.expire t).filed = [] := by
  unfold expire
  split
  · exact h
  · split
    · rw [resolve_filed, h]
      rfl
    · exact h

@[simp] lemma expire_length (t : Ticket) (ws : Waits) :
    (ws.expire t).all.length = ws.all.length := by
  unfold expire
  split
  · rfl
  · split
    · exact resolve_length _ _ _
    · rfl

lemma of_status?_expire (h : (ws.expire t).status? u = some s) :
    ws.status? u = some s ∨ s = .timedOut := by
  unfold expire at h
  split at h
  · exact Or.inl h
  · split at h
    · exact (of_status?_resolve h).imp_right And.left
    · exact Or.inl h

lemma status?_expire_of_told (t : Ticket) (h : ws.status? u = some s) (hs : s ≠ .pending) :
    (ws.expire t).status? u = some s := by
  unfold expire
  split
  · exact h
  · split
    · exact status?_resolve_of_told .timedOut t h hs
    · exact h

/-- Whoever has given up is told so, or was told something else before. -/
lemma status?_expire_ne_pending (t : Ticket) (ws : Waits) :
    (ws.expire t).status? t ≠ some .pending := by
  unfold expire
  rcases hw : ws.all[t]? with _ | w
  · simp [status?, hw]
  · dsimp only
    split
    · rename_i hp
      have hpending : ({ ws with filed := Table.erase w.index ws.filed } : Waits).status? t =
          some .pending := by simp [status?, hw, hp]
      rw [status?_resolve, if_pos hpending]
      simp
    · rename_i hp
      simpa [status?, hw] using hp

lemma Sound.expire (h : ws.Sound) (t : Ticket) : (ws.expire t).Sound := by
  intro j u hj
  have hold := h j u (find?_of_expire hj)
  unfold Waits.expire at hj ⊢
  split
  · exact hold
  · rename_i w hw
    rw [hw] at hj
    split
    · rename_i hp
      have hne : t ≠ u := by
        rintro rfl
        have hj' := hj
        simp only [hp, if_true, resolve_filed, Table.find?_erase] at hj'
        rw [if_pos] at hj'
        · cases hj'
        · rw [hw] at hold
          exact congrArg Wait.index (Option.some.inj hold)
      rw [resolve_all_of_ne _ hne]
      exact hold
    · exact hold

lemma Sound.not_filed (h : ws.Sound) (ht : ws.status? t ≠ some .pending) (i : Index) :
    Table.find? i ws.filed ≠ some t := fun hi => ht (h.status?_eq hi)

/-! ### All that can become of waits -/

/-- One change of the waits. -/
inductive Change : Waits → Waits → Prop
  | registers (ws : Waits) (i : Index) : Change ws (ws.register i).2
  | settles (ws : Waits) (o : WaitStatus) (i : Index) : Change ws (ws.settle o i)
  | failsAll (ws : Waits) : Change ws ws.failAll.2
  | expires (ws : Waits) (t : Ticket) : Change ws (ws.expire t)

/-- Any changes, one after the other. -/
abbrev Changes : Waits → Waits → Prop := Relation.ReflTransGen Change

lemma status?_register_of_told (i : Index) (h : ws.status? t = some s) :
    (ws.register i).2.status? t = some s := by
  obtain ⟨w, hw, rfl⟩ := Option.map_eq_some_iff.mp h
  have hlt : t < ws.all.length := (List.getElem?_eq_some_iff.mp hw).1
  show ((ws.all ++ [_])[t]?).map _ = _
  rw [List.getElem?_append_left hlt, hw]
  rfl

variable {ws' : Waits}

lemma Change.sound (h : ws.Change ws') (hs : ws.Sound) : ws'.Sound := by
  cases h with
  | registers i => exact sound_register hs i
  | settles o i => exact hs.settle o i
  | failsAll => exact sound_of_filed_eq_nil (failAll_filed ws)
  | expires t => exact hs.expire t

lemma Change.told (h : ws.Change ws') (ht : ws.status? t = some s) (hs : s ≠ .pending) :
    ws'.status? t = some s := by
  cases h with
  | registers i => exact status?_register_of_told i ht
  | settles o i => exact status?_settle_of_told o i ht hs
  | failsAll => exact status?_failAll_of_told ht hs
  | expires u => exact status?_expire_of_told u ht hs

lemma Changes.sound (h : ws.Changes ws') (hs : ws.Sound) : ws'.Sound := by
  induction h with
  | refl => exact hs
  | tail _ hlast ih => exact hlast.sound ih

lemma Changes.told (h : ws.Changes ws') (ht : ws.status? t = some s) (hs : s ≠ .pending) :
    ws'.status? t = some s := by
  induction h with
  | refl => exact ht
  | tail _ hlast ih => exact hlast.told ih hs

end Quorum.Waits
