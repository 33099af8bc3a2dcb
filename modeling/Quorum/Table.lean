/-!
Finite tables with one value a key. The keys keep the order in which they came.
-/

namespace Quorum

abbrev Table (κ α : Type) := List (κ × α)

namespace Table

variable {κ α : Type} [DecidableEq κ]

def find? (k : κ) : Table κ α → Option α
  | [] => none
  | (j, b) :: t => if j = k then some b else find? k t

/-- The value of a key that is there is replaced where it stands. -/
def insert (k : κ) (a : α) : Table κ α → Table κ α
  | [] => [(k, a)]
  | (j, b) :: t => if j = k then (k, a) :: t else (j, b) :: insert k a t

def erase (k : κ) (t : Table κ α) : Table κ α := t.filter fun p => p.1 ≠ k

@[simp] theorem find?_nil (k : κ) : find? k ([] : Table κ α) = none := rfl

theorem mem_of_find? {k : κ} {a : α} {t : Table κ α} (h : t.find? k = some a) : (k, a) ∈ t := by
  induction t with
  | nil => cases h
  | cons p t ih =>
    obtain ⟨j, b⟩ := p
    unfold find? at h
    split at h
    · rename_i hj
      rw [hj, Option.some.inj h]
      exact List.mem_cons_self
    · exact List.mem_cons_of_mem _ (ih h)

theorem find?_insert (k j : κ) (a : α) (t : Table κ α) :
    (t.insert k a).find? j = if k = j then some a else t.find? j := by
  induction t with
  | nil => simp [insert, find?]
  | cons p t ih =>
    obtain ⟨i, b⟩ := p
    by_cases hi : i = k
    · subst hi
      by_cases hj : i = j <;> simp [insert, find?, hj]
    · by_cases hj : i = j
      · subst hj
        simp [insert, find?, hi, Ne.symm hi]
      · simp [insert, find?, hi, hj, ih]

theorem find?_erase (k j : κ) (t : Table κ α) :
    (t.erase k).find? j = if k = j then none else t.find? j := by
  induction t with
  | nil => simp [erase, find?]
  | cons p t ih =>
    obtain ⟨i, b⟩ := p
    unfold erase at ih ⊢
    by_cases hi : i = k
    · subst hi
      by_cases hj : i = j <;> simp_all [find?]
    · by_cases hj : i = j
      · subst hj
        simp [find?, hi, Ne.symm hi]
      · simp_all [find?]

theorem mem_keys_insert {i k : κ} {a : α} {t : Table κ α} :
    i ∈ (t.insert k a).map Prod.fst ↔ i = k ∨ i ∈ t.map Prod.fst := by
  induction t with
  | nil => simp [insert]
  | cons p t ih =>
    obtain ⟨j, b⟩ := p
    by_cases hj : j = k
    · subst hj
      simp [insert]
    · rw [insert, if_neg hj, List.map_cons, List.mem_cons, ih, List.map_cons, List.mem_cons]
      exact or_left_comm

theorem nodup_insert {t : Table κ α} (h : (t.map Prod.fst).Nodup) (k : κ) (a : α) :
    ((t.insert k a).map Prod.fst).Nodup := by
  induction t with
  | nil => simp [insert]
  | cons p t ih =>
    obtain ⟨j, b⟩ := p
    rw [List.map_cons, List.nodup_cons] at h
    by_cases hj : j = k
    · subst hj
      rw [insert, if_pos rfl, List.map_cons, List.nodup_cons]
      exact h
    · rw [insert, if_neg hj, List.map_cons, List.nodup_cons, mem_keys_insert]
      exact ⟨fun hm => hm.elim hj h.1, ih h.2⟩

theorem nodup_erase {t : Table κ α} (h : (t.map Prod.fst).Nodup) (k : κ) :
    ((t.erase k).map Prod.fst).Nodup :=
  h.sublist (List.filter_sublist.map Prod.fst)

theorem find?_of_mem {t : Table κ α} (h : (t.map Prod.fst).Nodup) {k : κ} {a : α}
    (hm : (k, a) ∈ t) : t.find? k = some a := by
  induction t with
  | nil => cases hm
  | cons p t ih =>
    obtain ⟨j, b⟩ := p
    rw [List.map_cons, List.nodup_cons] at h
    rcases List.mem_cons.mp hm with heq | hm
    · cases heq
      rw [find?, if_pos rfl]
    · have hj : j ≠ k := by
        rintro rfl
        exact h.1 (List.mem_map.mpr ⟨_, hm, rfl⟩)
      rw [find?, if_neg hj]
      exact ih h.2 hm

end Table

end Quorum
