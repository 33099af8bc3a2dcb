import Mathlib.Tactic
import Quorum.Storage.Flaky
import Quorum.Storage.Memory

/-!
What the theory asks of storage: an operation does what storage in memory does, or it fails and
leaves what is stored as it was.

Which operations fail is left to the storage. A member that is started on any such storage sees
every pattern of failures that some storage of this kind shows.
-/

namespace Quorum

/-! ### Logs in order -/

lemma of_getElem?_snoc {α : Type} {xs : List α} {x y : α} {i : ℕ}
    (h : (xs ++ [x])[i]? = some y) : xs[i]? = some y ∨ i = xs.length ∧ y = x := by
  rcases Nat.lt_or_ge i xs.length with hi | hi
  · rw [List.getElem?_append_left hi] at h
    exact Or.inl h
  · rw [List.getElem?_append_right hi] at h
    obtain ⟨hlt, hget⟩ := List.getElem?_eq_some_iff.mp h
    refine Or.inr ⟨?_, ?_⟩
    · rw [List.length_singleton] at hlt
      omega
    · rw [← hget, List.getElem_singleton]

/-- A list begins as its beginnings do. -/
lemma take_eq_of_isPrefix {α : Type} {xs ys : List α} {i : ℕ} (h : xs <+: ys)
    (hi : i ≤ xs.length) : ys.take i = xs.take i := by
  rw [List.prefix_iff_eq_take.mp h, List.take_take, min_eq_left hi]

/-- The entries stand at the positions 1, 2, 3, … that they are for. -/
def Numbered (es : List Entry) : Prop := ∀ i e, es[i]? = some e → e.index = i + 1

namespace Numbered

variable {es : List Entry}

lemma nil : Numbered [] := by
  intro i e h
  simp at h

lemma snoc (h : Numbered es) {e : Entry} (he : e.index = es.length + 1) :
    Numbered (es ++ [e]) := by
  intro i f hf
  rcases of_getElem?_snoc hf with hf | ⟨rfl, rfl⟩
  · exact h i f hf
  · exact he

lemma take (h : Numbered es) (k : ℕ) : Numbered (es.take k) := by
  intro i e he
  rw [List.getElem?_take] at he
  split at he
  · exact h i e he
  · simp at he

end Numbered

/-- The entries are for the positions behind `p`, one after another. -/
def NumberedFrom (p : ℕ) (es : List Entry) : Prop := ∀ i e, es[i]? = some e → e.index = p + i + 1

namespace NumberedFrom

variable {p : ℕ} {e : Entry} {es : List Entry}

lemma head (h : NumberedFrom p (e :: es)) : e.index = p + 1 := h 0 e rfl

lemma tail (h : NumberedFrom p (e :: es)) : NumberedFrom (p + 1) es := by
  intro i f hf
  rw [h (i + 1) f hf]
  omega

lemma left {ds : List Entry} (h : NumberedFrom p (ds ++ es)) : NumberedFrom p ds := by
  intro i f hf
  refine h i f ?_
  rw [List.getElem?_append_left (List.getElem?_eq_some_iff.mp hf).1, hf]

lemma right {ds : List Entry} (h : NumberedFrom p (ds ++ es)) :
    NumberedFrom (p + ds.length) es := by
  intro i f hf
  have hget : (ds ++ es)[ds.length + i]? = some f := by
    rw [List.getElem?_append_right (Nat.le_add_right _ _), Nat.add_sub_cancel_left, hf]
  rw [h _ f hget]
  omega

lemma iff_forall_fin :
    NumberedFrom p es ↔ ∀ i : Fin es.length, es[i].index = p + i + 1 := by
  refine ⟨fun h i => h i _ (List.getElem?_eq_getElem i.isLt), fun h i e he => ?_⟩
  obtain ⟨hi, rfl⟩ := List.getElem?_eq_some_iff.mp he
  exact h ⟨i, hi⟩

instance : Decidable (NumberedFrom p es) := decidable_of_iff _ iff_forall_fin.symm

end NumberedFrom

lemma numberedFrom_zero {es : List Entry} : NumberedFrom 0 es ↔ Numbered es := by
  simp only [NumberedFrom, Numbered, Nat.zero_add]

instance {es : List Entry} : Decidable (Numbered es) := decidable_of_iff _ numberedFrom_zero

lemma Numbered.drop {es : List Entry} (h : Numbered es) (k : ℕ) : NumberedFrom k (es.drop k) := by
  intro i e he
  rw [List.getElem?_drop] at he
  exact h (k + i) e he

/-! ### Lawful storage -/

/-- Storage that stands for storage in memory. An operation that succeeds does what it does there,
and one that fails changes nothing. -/
class LawfulStore (σ : Type) [LogStore σ] [BallotStore σ] [Reopen σ] where
  contents : σ → Memory
  append_ok : ∀ {e : Entry} {i : Index} {s s' : σ}, LogStore.append e s = (.ok i, s') →
    LogStore.append e (contents s) = (.ok i, contents s')
  append_error : ∀ {e : Entry} {s s' : σ} {x : StorageError},
    LogStore.append e s = (.error x, s') → contents s' = contents s
  readAll_ok : ∀ {s s' : σ} {es : List Entry}, LogStore.readAll s = (.ok es, s') →
    es = (contents s).records ∧ contents s' = contents s
  readAll_error : ∀ {s s' : σ} {x : StorageError}, LogStore.readAll s = (.error x, s') →
    contents s' = contents s
  truncate_ok : ∀ {k : Index} {s s' : σ}, LogStore.truncate k s = (.ok (), s') →
    contents s' = (contents s).truncate k
  truncate_error : ∀ {k : Index} {s s' : σ} {x : StorageError},
    LogStore.truncate k s = (.error x, s') → contents s' = contents s
  readBallot_ok : ∀ {s s' : σ} {b : Ballot}, BallotStore.readBallot s = (.ok b, s') →
    b = (contents s).ballot ∧ contents s' = contents s
  readBallot_error : ∀ {s s' : σ} {x : StorageError}, BallotStore.readBallot s = (.error x, s') →
    contents s' = contents s
  writeBallot_ok : ∀ {b : Ballot} {s s' : σ}, BallotStore.writeBallot b s = (.ok (), s') →
    contents s' = { contents s with ballot := b }
  writeBallot_error : ∀ {b : Ballot} {s s' : σ} {x : StorageError},
    BallotStore.writeBallot b s = (.error x, s') → contents s' = contents s
  reopen_eq : ∀ {s s' : σ} {r : Except StorageError Unit}, Reopen.reopen s = (r, s') →
    contents s' = contents s

/-- Storage fails with an error where storage in memory would have done as it was asked. -/
def LawfulStore.Fails (σ : Type) [LogStore σ] [BallotStore σ] [Reopen σ] [LawfulStore σ]
    (x : StorageError) : Prop :=
  ∃ s s' : σ, (∃ e, (LogStore.append e (contents s)).1 = .ok e.index ∧
    LogStore.append e s = (.error x, s')) ∨ ∃ k, LogStore.truncate k s = (.error x, s')

namespace Memory

/-- In a log in order the last record is numbered by the length. -/
lemma lastOf_fst {es : List Entry} (hn : Numbered es) : (lastOf es).1 = es.length := by
  rcases List.eq_nil_or_concat' es with rfl | ⟨es, e, rfl⟩
  · rfl
  · have hlast : e.index = es.length + 1 := hn es.length e (by simp)
    simp [lastOf, hlast]

lemma append_ok_iff {e : Entry} {i : Index} {m m' : Memory} :
    LogStore.append e m = (.ok i, m') ↔
      e.index = (lastOf m.records).1 + 1 ∧ i = e.index ∧
        m' = { m with records := m.records ++ [e] } := by
  show Memory.append e m = _ ↔ _
  by_cases h : e.index = (lastOf m.records).1 + 1
  · simp [Memory.append, h, eq_comm]
  · simp [Memory.append, h]

/-- To a log in order the entry for the next position can be added. -/
lemma append_next {e : Entry} {m : Memory} (hn : Numbered m.records)
    (hi : e.index = m.records.length + 1) :
    LogStore.append e m = (.ok e.index, { m with records := m.records ++ [e] }) :=
  append_ok_iff.mpr ⟨hi.trans (congrArg Nat.succ (lastOf_fst hn)).symm, rfl, rfl⟩

/-- Of a log in order, truncating keeps the first entries. -/
lemma truncate_records {m : Memory} (h : Numbered m.records) (k : ℕ) :
    (m.truncate k).records = m.records.take k := by
  have key : ∀ (es : List Entry) (n : ℕ), (∀ i e, es[i]? = some e → e.index = n + i + 1) →
      (es.filter fun e => e.index ≤ k) = es.take (k - n) := by
    intro es
    induction es with
    | nil => intro n _; simp
    | cons e es ih =>
      intro n hn
      have he : e.index = n + 1 := by simpa using hn 0 e (by simp)
      have hrest := ih (n + 1) fun i f hf => by
        rw [hn (i + 1) f (by simpa using hf)]
        omega
      by_cases hk : n + 1 ≤ k
      · rw [List.filter_cons_of_pos (by simpa [he] using hk), hrest,
          show k - n = (k - (n + 1)) + 1 by omega, List.take_succ_cons]
      · rw [List.filter_cons_of_neg (by simpa [he] using hk), hrest,
          show k - n = 0 by omega, show k - (n + 1) = 0 by omega, List.take_zero, List.take_zero]
  have := key m.records 0 fun i e he => by rw [h i e he, Nat.zero_add]
  simpa [truncate] using this

instance : LawfulStore Memory where
  contents m := m
  append_ok h := h
  append_error {e s s' x} h := by
    change Memory.append e s = _ at h
    by_cases hi : e.index = (lastOf s.records).1 + 1
    · simp [Memory.append, hi] at h
    · simp only [Memory.append, hi, if_false, Prod.mk.injEq] at h
      exact h.2.symm
  readAll_ok h := by
    obtain ⟨h1, h2⟩ := Prod.mk.inj h
    exact ⟨(Except.ok.inj h1).symm, h2.symm⟩
  readAll_error h := by
    obtain ⟨h1, -⟩ := Prod.mk.inj h
    cases h1
  truncate_ok h := (Prod.mk.inj h).2.symm
  truncate_error h := by
    obtain ⟨h1, -⟩ := Prod.mk.inj h
    cases h1
  readBallot_ok h := by
    obtain ⟨h1, h2⟩ := Prod.mk.inj h
    exact ⟨(Except.ok.inj h1).symm, h2.symm⟩
  readBallot_error h := by
    obtain ⟨h1, -⟩ := Prod.mk.inj h
    cases h1
  writeBallot_ok h := (Prod.mk.inj h).2.symm
  writeBallot_error h := by
    obtain ⟨h1, -⟩ := Prod.mk.inj h
    cases h1
  reopen_eq h := (Prod.mk.inj h).2.symm

/-- Storage in memory does not fail. -/
lemma not_fails (x : StorageError) : ¬ LawfulStore.Fails Memory x := by
  rintro ⟨s, s', ⟨e, hok, he⟩ | ⟨k, hk⟩⟩
  · have hboth := hok.symm.trans (congrArg Prod.fst he)
    cases hboth
  · cases (Prod.mk.inj hk).1

end Memory

/-! ### Storage that fails at first -/

namespace Flaky

variable {σ α : Type}

lemma onLog_cases {op : σ → Except StorageError α × σ} {f f' : Flaky σ}
    {r : Except StorageError α} (h : f.onLog op = (r, f')) :
    ((∃ x, r = .error x) ∧ f'.store = f.store) ∨ op f.store = (r, f'.store) := by
  unfold onLog at h
  split at h
  · obtain ⟨rfl, rfl⟩ := Prod.mk.inj h
    exact Or.inl ⟨⟨_, rfl⟩, rfl⟩
  · obtain ⟨rfl, rfl⟩ := Prod.mk.inj h
    exact Or.inr rfl

lemma onBallot_cases {op : σ → Except StorageError α × σ} {f f' : Flaky σ}
    {r : Except StorageError α} (h : f.onBallot op = (r, f')) :
    ((∃ x, r = .error x) ∧ f'.store = f.store) ∨ op f.store = (r, f'.store) := by
  unfold onBallot at h
  split at h
  · obtain ⟨rfl, rfl⟩ := Prod.mk.inj h
    exact Or.inl ⟨⟨_, rfl⟩, rfl⟩
  · obtain ⟨rfl, rfl⟩ := Prod.mk.inj h
    exact Or.inr rfl

lemma noteAppend_store (f : Flaky σ) : f.noteAppend.store = f.store := by
  unfold noteAppend
  split <;> rfl

variable [LogStore σ] [BallotStore σ] [Reopen σ] [LawfulStore σ]

open LawfulStore

instance : LawfulStore (Flaky σ) where
  contents f := contents f.store
  append_ok {e i f f'} h := by
    rcases onLog_cases h with ⟨⟨x, hx⟩, -⟩ | h
    · cases hx
    · rw [noteAppend_store] at h
      exact append_ok h
  append_error {e f f' x} h := by
    rcases onLog_cases h with ⟨-, hs⟩ | h
    · rw [hs, noteAppend_store]
    · rw [noteAppend_store] at h
      exact append_error h
  readAll_ok h := by
    rcases onLog_cases h with ⟨⟨x, hx⟩, -⟩ | h
    · cases hx
    · exact readAll_ok h
  readAll_error h := by
    rcases onLog_cases h with ⟨-, hs⟩ | h
    · rw [hs]
    · exact readAll_error h
  truncate_ok h := by
    rcases onLog_cases h with ⟨⟨x, hx⟩, -⟩ | h
    · cases hx
    · exact truncate_ok h
  truncate_error h := by
    rcases onLog_cases h with ⟨-, hs⟩ | h
    · rw [hs]
    · exact truncate_error h
  readBallot_ok h := by
    rcases onBallot_cases h with ⟨⟨x, hx⟩, -⟩ | h
    · cases hx
    · exact readBallot_ok h
  readBallot_error h := by
    rcases onBallot_cases h with ⟨-, hs⟩ | h
    · rw [hs]
    · exact readBallot_error h
  writeBallot_ok h := by
    rcases onBallot_cases h with ⟨⟨x, hx⟩, -⟩ | h
    · cases hx
    · exact writeBallot_ok h
  writeBallot_error h := by
    rcases onBallot_cases h with ⟨-, hs⟩ | h
    · rw [hs]
    · exact writeBallot_error h
  reopen_eq {f f' r} h := by
    obtain ⟨-, rfl⟩ := Prod.mk.inj h
    exact reopen_eq (r := (Reopen.reopen f.store).1) rfl

end Flaky

end Quorum
