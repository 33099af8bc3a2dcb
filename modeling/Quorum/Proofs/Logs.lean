import Quorum.Log
import Quorum.Proofs.Stores
import Quorum.Proofs.Waits

/-!
What the operations of a log do to its entries, and what they leave alone.

`Log.Taken` says once what taking in an entry can do. From it follow the two facts that the theory
of a cluster needs: a log and its storage stay in step, with the committed part untouched, whatever
is taken in (`Log.Reshapes`); and a batch that is a slice of another log leaves the log as it was
or makes it a prefix of that other log (`Log.acceptAll_slice`).
-/

namespace Quorum

open LawfulStore

/-- A machine that remembers the entries it was given, in order. -/
structure Journal (μ : Type) where
  machine : μ
  given : List Entry := []

instance {μ : Type} [Machine μ] : Machine (Journal μ) where
  apply e j := ⟨Machine.apply e j.machine, j.given ++ [e]⟩

/-- The term at a position of some entries, 0 where there is none. -/
def termOf (es : List Entry) (i : ℕ) : Term :=
  match (Entry.sentinel :: es)[i]? with
  | some e => e.term
  | none => 0

lemma termOf_succ {es : List Entry} {i : ℕ} {e : Entry} (h : es[i]? = some e) :
    termOf es (i + 1) = e.term := by
  simp [termOf, h]

lemma termOf_take {es : List Entry} {i n : ℕ} (h : i ≤ n) : termOf (es.take n) i = termOf es i := by
  cases i with
  | zero => rfl
  | succ i => simp [termOf, show i < n by omega]

lemma termOf_prefix {es fs : List Entry} {i : ℕ} (h : es <+: fs) (hi : i ≤ es.length) :
    termOf fs i = termOf es i := by
  rw [List.prefix_iff_eq_take.mp h, termOf_take hi]

/-- A batch that leaves a gap or contradicts what is committed. -/
def Refusal.IsClash : Refusal → Prop
  | gap .. | committedConflict .. => True
  | _ => False

namespace Log

variable {μ σ : Type}

lemma entry?_succ (l : Log μ) (i : ℕ) : l.entry? (i + 1) = l.entries[i]? := rfl

lemma getElem?_eq_of_take_eq {es fs : List Entry} {x y : ℕ} (h : es.take y = fs.take y)
    (hx : x < y) : es[x]? = fs[x]? := by
  rw [← List.getElem?_take_of_lt hx, h, List.getElem?_take_of_lt hx]

lemma entry?_eq_of_take_eq {l l' : Log μ} {i : ℕ} (h : l.entries.take i = l'.entries.take i) :
    l.entry? i = l'.entry? i := by
  cases i with
  | zero => rfl
  | succ i =>
    rw [entry?_succ, entry?_succ]
    exact getElem?_eq_of_take_eq h (Nat.lt_succ_self i)

lemma termAt_eq (l : Log μ) (i : ℕ) : l.termAt i = termOf l.entries i := rfl

/-- Every entry is in its place, and exactly what is committed was applied. -/
structure Sound (l : Log (Journal μ)) : Prop where
  numbered : Numbered l.entries
  commit_le : l.commit ≤ l.entries.length
  applied : l.applied = l.commit
  given : l.machine.given = l.entries.take l.commit

/-- The waits are no part of it. -/
lemma Sound.of_eq {l l' : Log (Journal μ)} (h : l.Sound) (he : l'.entries = l.entries)
    (hc : l'.commit = l.commit) (ha : l'.applied = l.applied) (hm : l'.machine = l.machine) :
    l'.Sound := by
  refine ⟨?_, ?_, ?_, ?_⟩
  · rw [he]
    exact h.numbered
  · rw [hc, he]
    exact h.commit_le
  · rw [ha, hc, h.applied]
  · rw [hm, he, hc]
    exact h.given

/-! ### Applying -/

section Applying

variable [Machine μ]

lemma foldl_applyNext (es : List Entry) (l : Log (Journal μ)) :
    (es.foldl applyNext l).entries = l.entries ∧ (es.foldl applyNext l).commit = l.commit ∧
      (es.foldl applyNext l).applied = l.applied + es.length ∧
      (es.foldl applyNext l).machine.given = l.machine.given ++ es := by
  induction es generalizing l with
  | nil => simp
  | cons e es ih =>
    obtain ⟨h1, h2, h3, h4⟩ := ih (l.applyNext e)
    refine ⟨h1, h2, ?_, ?_⟩
    · rw [List.foldl_cons, h3, List.length_cons]
      exact Nat.succ_add_eq_add_succ _ _
    · rw [List.foldl_cons, h4]
      simp [applyNext, Machine.apply]

variable {l : Log (Journal μ)}

@[simp] lemma applyCommitted_entries : l.applyCommitted.entries = l.entries :=
  (foldl_applyNext _ l).1

@[simp] lemma applyCommitted_commit : l.applyCommitted.commit = l.commit :=
  (foldl_applyNext _ l).2.1

@[simp] lemma commitTo_entries (i : ℕ) : (l.commitTo i).entries = l.entries := by
  unfold commitTo
  split <;> simp

@[simp] lemma commitTo_commit (i : ℕ) : (l.commitTo i).commit = max l.commit i := by
  unfold commitTo
  split
  · rename_i h
    rw [applyCommitted_commit]
    exact (max_eq_right (Nat.le_of_lt h)).symm
  · rename_i h
    exact (max_eq_left (Nat.le_of_not_lt h)).symm

lemma commitTo_commit_of_lt {i : ℕ} (h : l.commit < i) : (l.commitTo i).commit = i := by
  rw [commitTo_commit, max_eq_right (Nat.le_of_lt h)]

lemma commitTo_of_le {l : Log μ} {i : ℕ} (h : i ≤ l.commit) : l.commitTo i = l :=
  if_neg (Nat.not_lt_of_le h)

/-- Moving the commit index applies everything up to it, and nothing else. -/
lemma commitTo_applied {i : ℕ} (ha : l.applied ≤ l.commit) (hi : i ≤ l.entries.length) :
    (l.commitTo i).applied = (if l.commit < i then i else l.applied) ∧
      (l.machine.given = l.entries.take l.applied →
        (l.commitTo i).machine.given = l.entries.take (l.commitTo i).applied) := by
  unfold commitTo
  split
  · rename_i hlt
    have hai : l.applied ≤ i := ha.trans (Nat.le_of_lt hlt)
    obtain ⟨-, -, h3, h4⟩ :=
      foldl_applyNext ((l.entries.drop l.applied).take (i - l.applied)) { l with commit := i }
    have happ : l.applied + ((l.entries.drop l.applied).take (i - l.applied)).length = i := by
      rw [List.length_take, List.length_drop, min_eq_left (Nat.sub_le_sub_right hi _)]
      exact Nat.add_sub_cancel' hai
    refine ⟨h3.trans happ, fun hg => h4.trans ?_⟩
    rw [applyCommitted, h3, happ, hg, ← List.take_add, Nat.add_sub_cancel' hai]
  · exact ⟨rfl, fun hg => hg⟩

lemma foldl_applyNext_withCommit (es : List Entry) (l : Log (Journal μ)) (c : Index) :
    es.foldl applyNext { l with commit := c } = { es.foldl applyNext l with commit := c } := by
  induction es generalizing l with
  | nil => rfl
  | cons e es ih => exact ih (l.applyNext e)

lemma commitTo_eq_foldl {i : ℕ} (hc : l.commit < i) : l.commitTo i =
    { ((l.entries.drop l.applied).take (i - l.applied)).foldl applyNext l with commit := i } := by
  rw [commitTo, if_pos hc, applyCommitted, foldl_applyNext_withCommit]

/-- Moving the commit index in two steps is moving it at once. -/
lemma commitTo_commitTo {i j : ℕ} (ha : l.applied ≤ l.commit) (hij : i ≤ j)
    (hi : i ≤ l.entries.length) : (l.commitTo i).commitTo j = l.commitTo j := by
  by_cases hc : l.commit < i
  · rcases Nat.eq_or_lt_of_le hij with rfl | hlt
    · exact commitTo_of_le (by simp)
    · have happ := (commitTo_applied ha hi).1
      rw [if_pos hc] at happ
      have hmove : (l.commitTo i).commit < j := by
        rw [commitTo_commit]
        exact max_lt (hc.trans hlt) hlt
      have hsplit : (l.entries.drop l.applied).take (j - l.applied) =
          (l.entries.drop l.applied).take (i - l.applied) ++ (l.entries.drop i).take (j - i) := by
        have hlen : j - l.applied = (i - l.applied) + (j - i) := by lia
        have hdrop : l.applied + (i - l.applied) = i := by lia
        rw [hlen, List.take_add, List.drop_drop, hdrop]
      rw [commitTo_eq_foldl hmove, commitTo_entries, happ, commitTo_eq_foldl hc,
        foldl_applyNext_withCommit, commitTo_eq_foldl (hc.trans hlt), hsplit, List.foldl_append]
  · rw [commitTo_of_le (Nat.le_of_not_lt hc)]

/-- Moving the commit index applies what lies between. -/
lemma Sound.commitTo (h : l.Sound) {i : ℕ} (hi : i ≤ l.entries.length) : (l.commitTo i).Sound := by
  obtain ⟨happ, hgiven⟩ := commitTo_applied h.applied.le hi
  have hall : (l.commitTo i).applied = (l.commitTo i).commit := by
    rw [happ, commitTo_commit, h.applied]
    split
    · rename_i hlt
      exact (max_eq_right (Nat.le_of_lt hlt)).symm
    · rename_i hle
      exact (max_eq_left (Nat.le_of_not_lt hle)).symm
  refine ⟨by simpa using h.numbered, ?_, hall, ?_⟩
  · rw [commitTo_commit, commitTo_entries]
    exact max_le h.commit_le hi
  · rw [← hall, commitTo_entries]
    exact hgiven (by rw [h.given, h.applied])

/-- What was told is not taken back, and nobody comes to wait where nobody does. -/
lemma foldl_applyNext_settled (es : List Entry) {l : Log (Journal μ)} {j : Index} {t : Ticket}
    (ht : l.waits.status? t = some .committed) (hf : Table.find? j l.waits.filed = none) :
    (es.foldl applyNext l).waits.status? t = some .committed ∧
      Table.find? j (es.foldl applyNext l).waits.filed = none := by
  induction es generalizing l with
  | nil => exact ⟨ht, hf⟩
  | cons e es ih =>
    refine ih (Waits.status?_settle_of_told _ _ ht (by decide)) ?_
    show Table.find? j (l.waits.settle .committed _).filed = none
    rw [Waits.find?_settle, hf, ite_self]

lemma foldl_applyNext_told (es : List Entry) {l : Log (Journal μ)} {j : Index} {t : Ticket}
    (hf : Table.find? j l.waits.filed = some t)
    (ht : l.waits.status? t = some .pending ∨ l.waits.status? t = some .committed)
    (ha : l.applied < j) (hj : j ≤ l.applied + es.length) :
    (es.foldl applyNext l).waits.status? t = some .committed ∧
      Table.find? j (es.foldl applyNext l).waits.filed = none := by
  induction es generalizing l with
  | nil => exact absurd ha (Nat.not_lt_of_le hj)
  | cons e es ih =>
    by_cases hnext : l.applied + 1 = j
    · refine foldl_applyNext_settled es (Waits.status?_complete (hnext ▸ hf) ht) ?_
      show Table.find? j (l.waits.settle .committed _).filed = none
      rw [Waits.find?_settle, if_pos hnext]
    · refine ih ?_ (Waits.status?_complete_of_open _ ht) (Nat.lt_of_le_of_ne ha hnext) ?_
      · show Table.find? j (l.waits.settle .committed _).filed = some t
        rw [Waits.find?_settle, if_neg hnext, hf]
      · show j ≤ l.applied + 1 + es.length
        rw [List.length_cons] at hj
        lia

/-- Moving the commit index tells the waits of all that is applied, whoever's entries they are. -/
lemma commitTo_told {i j : Index} {t : Ticket} (hf : Table.find? j l.waits.filed = some t)
    (ht : l.waits.status? t = some .pending) (ha : l.applied < j) (hj : j ≤ i) (hc : l.commit < i)
    (hi : i ≤ l.entries.length) :
    (l.commitTo i).waits.status? t = some .committed ∧
      Table.find? j (l.commitTo i).waits.filed = none := by
  unfold commitTo
  rw [if_pos hc]
  refine foldl_applyNext_told _ hf (Or.inl ht) ha ?_
  show j ≤ l.applied + ((l.entries.drop l.applied).take (i - l.applied)).length
  rw [List.length_take, List.length_drop]
  lia

end Applying

/-! ### Taking in entries -/

section Taking

variable [LogStore σ] {l : Log μ} {store : σ}

lemma push_cases (e : Entry) (l : Log μ) (store : σ) :
    (∃ i store', LogStore.append e store = (.ok i, store') ∧
      l.push e store = (.ok (), { l with entries := l.entries ++ [e] }, store')) ∨
    ∃ x store', LogStore.append e store = (.error x, store') ∧
      l.push e store = (.error x, l, store') := by
  unfold push
  rcases LogStore.append e store with ⟨x | i, store'⟩
  · exact Or.inr ⟨x, store', rfl, rfl⟩
  · exact Or.inl ⟨i, store', rfl, rfl⟩

lemma place_cases {e : Entry} (l : Log μ) (store : σ) (he : e.index = l.entries.length + 1) :
    (∃ i store', LogStore.append e store = (.ok i, store') ∧
      l.place e store = (.ok (), { l with entries := l.entries ++ [e] }, store')) ∨
    ∃ x store', LogStore.append e store = (.error x, store') ∧
      l.place e store = (.error (.storage x), l, store') := by
  have hn : ¬ e.index ≠ l.size := fun h => h he
  rcases push_cases e l store with ⟨i, store', ha, hp⟩ | ⟨x, store', ha, hp⟩
  · exact Or.inl ⟨i, store', ha, by rw [place, if_neg hn, hp]⟩
  · exact Or.inr ⟨x, store', ha, by rw [place, if_neg hn, hp]⟩

/-- What taking in an entry of a request can do. -/
inductive Taken (e : Entry) (l : Log μ) (store : σ) : Except Refusal Unit × Log μ × σ → Prop
  | kept (old : Entry) : l.entry? e.index = some old → old.term = e.term →
      Taken e l store (.ok (), l, store)
  | conflict (old : Entry) : l.entry? e.index = some old → old.term ≠ e.term →
      e.index ≤ l.commit → Taken e l store (.error (.committedConflict e.index l.commit), l, store)
  | gap : l.entry? e.index = none → e.index ≠ l.entries.length + 1 →
      Taken e l store (.error (.gap e.index l.lastIndex), l, store)
  | unadded (x : StorageError) (store' : σ) : e.index = l.entries.length + 1 →
      LogStore.append e store = (.error x, store') →
      Taken e l store (.error (.storage x), l, store')
  | uncut (old : Entry) (x : StorageError) (store' : σ) : l.entry? e.index = some old →
      old.term ≠ e.term → l.commit < e.index →
      LogStore.truncate (e.index - 1) store = (.error x, store') →
      Taken e l store (.error (.storage x), l, store')
  | added (i : Index) (store' : σ) : e.index = l.entries.length + 1 →
      LogStore.append e store = (.ok i, store') →
      Taken e l store (.ok (), { l with entries := l.entries ++ [e] }, store')
  | cut (old : Entry) (x : StorageError) (store₁ store' : σ) : l.entry? e.index = some old →
      old.term ≠ e.term → l.commit < e.index →
      LogStore.truncate (e.index - 1) store = (.ok (), store₁) →
      LogStore.append e store₁ = (.error x, store') →
      Taken e l store
        (.error (.storage x), { l with entries := l.entries.take (e.index - 1) }, store')
  | replaced (old : Entry) (i : Index) (store₁ store' : σ) : l.entry? e.index = some old →
      old.term ≠ e.term → l.commit < e.index →
      LogStore.truncate (e.index - 1) store = (.ok (), store₁) →
      LogStore.append e store₁ = (.ok i, store') →
      Taken e l store
        (.ok (), { l with entries := l.entries.take (e.index - 1) ++ [e] }, store')

lemma lt_of_entry? {i : ℕ} {old : Entry} (h : l.entry? i = some old) :
    i < l.entries.length + 1 := by
  have hold : l.slots[i]? = some old := h
  exact (List.getElem?_eq_some_iff.mp hold).1

lemma accept_taken (e : Entry) (l : Log μ) (store : σ) : Taken e l store (l.accept e store) := by
  unfold accept
  split
  · rename_i hnone
    by_cases he : e.index = l.entries.length + 1
    · rcases place_cases l store he with ⟨i, store', ha, hp⟩ | ⟨x, store', ha, hp⟩
      · rw [hp]
        exact .added i store' he ha
      · rw [hp]
        exact .unadded x store' he ha
    · rw [place, if_pos (show e.index ≠ l.size from he)]
      exact .gap hnone he
  · rename_i old hold
    have hlt := lt_of_entry? hold
    split
    · rename_i ht
      exact .kept old hold ht
    · rename_i ht
      split
      · rename_i hc
        exact .conflict old hold ht hc
      · rename_i hc
        have hpos : l.commit < e.index := Nat.lt_of_not_le hc
        unfold dropAfter
        rcases htr : LogStore.truncate (e.index - 1) store with ⟨x | ⟨⟩, st⟩
        · exact .uncut old x st hold ht hpos htr
        · have he : e.index =
              ({ l with entries := l.entries.take (e.index - 1) } : Log μ).entries.length + 1 := by
            simp only [List.length_take]
            lia
          dsimp only
          rcases place_cases { l with entries := l.entries.take (e.index - 1) } st he with
            ⟨i, store', ha, hp⟩ | ⟨x, store', ha, hp⟩
          · rw [hp]
            exact .replaced old i st store' hold ht hpos htr ha
          · rw [hp]
            exact .cut old x st store' hold ht hpos htr ha

/-- The entries change, but not those that are committed. -/
structure Reshapes (l l' : Log μ) : Prop where
  eq : l' = { l with entries := l'.entries }
  numbered : Numbered l'.entries
  commit_le : l.commit ≤ l'.entries.length
  committed : l'.entries.take l.commit = l.entries.take l.commit

namespace Reshapes

variable {l' l'' : Log μ}

lemma refl (hn : Numbered l.entries) (hc : l.commit ≤ l.entries.length) : Reshapes l l :=
  ⟨rfl, hn, hc, rfl⟩

lemma commit_eq (h : Reshapes l l') : l'.commit = l.commit := by rw [h.eq]

lemma trans (h : Reshapes l l') (h' : Reshapes l' l'') : Reshapes l l'' where
  eq := by rw [h'.eq, h.eq]
  numbered := h'.numbered
  commit_le := by
    rw [← h.commit_eq]
    exact h'.commit_le
  committed := by rw [← h.committed, ← h.commit_eq, h'.committed]

lemma sound {l l' : Log (Journal μ)} (h : Reshapes l l') (hl : l.Sound) : l'.Sound := by
  rw [h.eq]
  exact ⟨h.numbered, h.commit_le, hl.applied, hl.given.trans h.committed.symm⟩

end Reshapes

lemma take_snoc_of_le {es : List Entry} {c k : ℕ} (e : Entry) (hck : c ≤ k) (hk : k ≤ es.length) :
    (es.take k ++ [e]).take c = es.take c := by
  rw [List.take_append_of_le_length (by simp; omega), List.take_take, min_eq_left hck]

lemma Taken.reshapes {e : Entry} {out : Except Refusal Unit × Log μ × σ} (h : Taken e l store out)
    (hn : Numbered l.entries) (hc : l.commit ≤ l.entries.length) : Reshapes l out.2.1 := by
  cases h with
  | kept | conflict | gap | unadded | uncut => exact .refl hn hc
  | added i store' he =>
    refine ⟨rfl, hn.snoc he, ?_, List.take_append_of_le_length hc⟩
    rw [List.length_append]
    exact Nat.le_add_right_of_le hc
  | cut old x store₁ store' hold ht hpos =>
    have hlt := lt_of_entry? hold
    refine ⟨rfl, hn.take _, ?_, ?_⟩
    · rw [List.length_take]
      lia
    · rw [List.take_take, min_eq_left (Nat.le_sub_one_of_lt hpos)]
  | replaced old i store₁ store' hold ht hpos =>
    have hlt := lt_of_entry? hold
    have hle : e.index - 1 ≤ l.entries.length := by lia
    refine ⟨rfl, (hn.take _).snoc ?_, ?_, take_snoc_of_le e (Nat.le_sub_one_of_lt hpos) hle⟩
    · rw [List.length_take, min_eq_left hle]
      lia
    · rw [List.length_append, List.length_take, min_eq_left hle]
      lia

lemma acceptAll_reshapes (es : List Entry) (store : σ) (hn : Numbered l.entries)
    (hc : l.commit ≤ l.entries.length) : Reshapes l (l.acceptAll es store).2.1 := by
  induction es generalizing l store with
  | nil => exact .refl hn hc
  | cons e es ih =>
    have hone := (accept_taken e l store).reshapes hn hc
    rw [acceptAll]
    split <;> rename_i heq <;> rw [heq] at hone
    · exact hone
    · exact hone.trans (ih _ hone.numbered (hone.commit_eq ▸ hone.commit_le))

/-- Entries for the positions behind a log are added to it until storage fails. -/
lemma acceptAll_behind (es : List Entry) {l : Log μ} (store : σ)
    (h : NumberedFrom l.entries.length es) :
    ∃ j ≤ es.length, (l.acceptAll es store).2.1 = { l with entries := l.entries ++ es.take j } ∧
      ((l.acceptAll es store).1 = .ok () ∧ j = es.length ∨
        ∃ x, (l.acceptAll es store).1 = .error (.storage x)) := by
  induction es generalizing l store with
  | nil =>
    refine ⟨0, le_rfl, ?_, Or.inl ⟨rfl, rfl⟩⟩
    rw [List.take_nil, List.append_nil]
    rfl
  | cons e es ih =>
    have hnone : l.entry? e.index = none := by
      rw [h.head, entry?_succ, List.getElem?_eq_none le_rfl]
    have hacc : l.accept e store = l.place e store := by rw [accept, hnone]
    rw [acceptAll, hacc]
    rcases place_cases l store h.head with ⟨i, store', -, hp⟩ | ⟨x, store', -, hp⟩ <;> rw [hp]
    · have hnext : NumberedFrom (l.entries ++ [e]).length es := by
        rw [List.length_append]
        exact h.tail
      obtain ⟨j, hj, hl, hout⟩ := ih (l := { l with entries := l.entries ++ [e] }) store' hnext
      refine ⟨j + 1, Nat.succ_le_succ hj, ?_, ?_⟩
      · simp only [hl, List.take_succ_cons, List.append_assoc, List.singleton_append]
      · exact hout.imp_left fun ⟨hok, hall⟩ => ⟨hok, by simp [hall]⟩
    · refine ⟨0, Nat.zero_le _, ?_, Or.inr ⟨x, rfl⟩⟩
      rw [List.take_zero, List.append_nil]

/-- Taking in a batch, whatever it holds, keeps a log sound, never takes back what is committed and
never lowers the commit index. -/
lemma follow_sound [Machine μ] {l : Log (Journal μ)} (h : l.Sound) (current : Term) (b : Batch)
    (store : σ) :
    (l.follow current b store).2.1.Sound ∧
      (l.follow current b store).2.1.entries.take l.commit = l.entries.take l.commit ∧
      l.commit ≤ (l.follow current b store).2.1.commit := by
  have hall := acceptAll_reshapes b.entries store h.numbered h.commit_le
  have hsound := hall.sound h
  unfold follow
  split
  · exact ⟨h, rfl, Nat.le_refl _⟩
  · split <;> rename_i heq <;> rw [heq] at hall hsound
    · exact ⟨hsound, hall.committed, Nat.le_of_eq hall.commit_eq.symm⟩
    · refine ⟨hsound.commitTo (Nat.min_le_right _ _), ?_, ?_⟩
      · rw [commitTo_entries]
        exact hall.committed
      · rw [commitTo_commit, ← hall.commit_eq]
        exact Nat.le_max_left _ _

end Taking

/-! ### Log and storage together -/

section Storing

variable [LogStore σ] [BallotStore σ] [Reopen σ] [LawfulStore σ] {l : Log μ} {store store' : σ}

lemma contents_append {e : Entry} {i : Index} (h : LogStore.append e store = (.ok i, store')) :
    contents store' = { contents store with records := (contents store).records ++ [e] } :=
  (Memory.append_ok_iff.mp (append_ok h)).2.2

/-- Storage that holds a log's entries goes on to hold them. -/
lemma Taken.stored {e : Entry} {out : Except Refusal Unit × Log μ × σ} (h : Taken e l store out)
    (hn : Numbered l.entries) (hs : (contents store).records = l.entries) :
    contents out.2.2 = { contents store with records := out.2.1.entries } := by
  have hsame : contents store = { contents store with records := l.entries } := by rw [← hs]
  have hcut : ((contents store).truncate (e.index - 1)).records =
      l.entries.take (e.index - 1) := by
    rw [Memory.truncate_records (hs ▸ hn), hs]
  cases h with
  | kept | conflict | gap => exact hsame
  | unadded x store' _ ha => exact (append_error ha).trans hsame
  | uncut old x store' _ _ _ ht => exact (truncate_error ht).trans hsame
  | added i store' he ha => rw [contents_append ha, hs]
  | cut old x store₁ store' _ _ _ ht ha =>
    rw [append_error ha, truncate_ok ht, ← hcut]
    rfl
  | replaced old i store₁ store' _ _ _ ht ha =>
    rw [contents_append ha, truncate_ok ht, hcut]
    rfl

lemma acceptAll_stored (es : List Entry) (hn : Numbered l.entries)
    (hc : l.commit ≤ l.entries.length) (hs : (contents store).records = l.entries) :
    contents (l.acceptAll es store).2.2 =
      { contents store with records := (l.acceptAll es store).2.1.entries } := by
  induction es generalizing l store with
  | nil =>
    show contents store = { contents store with records := l.entries }
    rw [← hs]
  | cons e es ih =>
    have hone := (accept_taken e l store).reshapes hn hc
    have hst := (accept_taken e l store).stored hn hs
    rw [acceptAll]
    split <;> rename_i heq <;> rw [heq] at hone hst
    · exact hst
    · rw [ih hone.numbered (hone.commit_eq ▸ hone.commit_le) (by rw [hst]), hst]

lemma follow_stored [Machine μ] {l : Log (Journal μ)} (hn : Numbered l.entries)
    (hc : l.commit ≤ l.entries.length) (hs : (contents store).records = l.entries) (current : Term)
    (b : Batch) :
    contents (l.follow current b store).2.2 =
      { contents store with records := (l.follow current b store).2.1.entries } := by
  have hall := acceptAll_stored b.entries hn hc hs
  unfold follow
  split
  · show contents store = { contents store with records := l.entries }
    rw [← hs]
  · split <;> rename_i heq <;> rw [heq] at hall
    · exact hall
    · rw [commitTo_entries]
      exact hall

end Storing

/-! ### A batch that is a slice of another log -/

/-- Wherever two logs hold entries of one term at one position, they are equal up to there. -/
def Agree (es fs : List Entry) : Prop :=
  ∀ i e f, es[i]? = some e → fs[i]? = some f → e.term = f.term → es.take (i + 1) = fs.take (i + 1)

/-- The log `es` is left as it is or becomes a beginning of `fs`, one that is no shorter than what
the two had in common. -/
def Spliced (fs es es' : List Entry) : Prop :=
  es' = es ∨ ¬ fs <+: es ∧ ∃ j ≤ fs.length, es' = fs.take j ∧
    ∀ y ≤ es.length, y ≤ fs.length → es.take y = fs.take y → y ≤ j

namespace Spliced

variable {es es' fs ps : List Entry}

/-- Past a position where the two differ they have nothing in common. -/
lemma of_ne {x j : ℕ} {e f : Entry} (he : es[x]? = some e) (hf : fs[x]? = some f)
    (hne : e.term ≠ f.term) (hxj : x ≤ j) (hj : j ≤ fs.length) : Spliced fs es (fs.take j) := by
  have hle : ∀ y, es.take y = fs.take y → y ≤ x := by
    intro y hy
    by_contra hxy
    have hef := getElem?_eq_of_take_eq hy (Nat.lt_of_not_le hxy)
    rw [he, hf] at hef
    exact hne (congrArg Entry.term (Option.some.inj hef))
  refine Or.inr ⟨fun hpre => ?_, j, hj, rfl, fun y _ _ hy => (hle y hy).trans hxj⟩
  have hlt : x < fs.length := (List.getElem?_eq_some_iff.mp hf).1
  have hwhole := List.prefix_iff_eq_take.mp hpre
  exact absurd (hle fs.length (by rw [← hwhole, List.take_length])) (Nat.not_le_of_lt hlt)

lemma eq_or_isPrefix (h : Spliced fs es es') : es' = es ∨ es' <+: fs := by
  rcases h with h | ⟨-, j, -, rfl, -⟩
  · exact Or.inl h
  · exact Or.inr (List.take_prefix _ _)

/-- What `fs` does not contradict stays in the log. -/
lemma keeps (h : Spliced fs es es') (hp : ps <+: es) (hf : ps <+: fs ∨ fs <+: ps) :
    ps <+: es' := by
  rcases h with rfl | ⟨hn, j, hj, rfl, hy⟩
  · exact hp
  · rcases hf with hf | hf
    · have hle := hy ps.length hp.length_le hf.length_le
        ((List.prefix_iff_eq_take.mp hp).symm.trans (List.prefix_iff_eq_take.mp hf))
      rw [List.prefix_iff_eq_take.mp hf]
      exact (List.take_prefix_take_left hle)
    · exact absurd (hf.trans hp) hn

end Spliced

section Slicing

variable [LogStore σ] {fs : List Entry}

/-- To a log that is a beginning of `fs` the rest of `fs` is added until storage fails. -/
lemma acceptAll_exact (hf : Numbered fs) {x : ℕ} {l : Log μ} (store : σ) (hx : x ≤ fs.length)
    (hl : l.entries = fs.take x) :
    ∃ j, x ≤ j ∧ j ≤ fs.length ∧ (l.acceptAll (fs.drop x) store).2.1.entries = fs.take j ∧
      ((l.acceptAll (fs.drop x) store).1 = .ok () ∧ j = fs.length ∨
        ∃ e, (l.acceptAll (fs.drop x) store).1 = .error (.storage e)) := by
  have hlen : l.entries.length = x := by rw [hl, List.length_take, min_eq_left hx]
  have hbehind : NumberedFrom l.entries.length (fs.drop x) := by
    rw [hlen]
    exact hf.drop x
  obtain ⟨j, hj, hl', hout⟩ := acceptAll_behind (fs.drop x) store hbehind
  rw [List.length_drop] at hj hout
  refine ⟨x + j, Nat.le_add_right x j, by omega, ?_, ?_⟩
  · rw [hl', hl, List.take_add]
  · exact hout.imp_left fun ⟨hok, hall⟩ => ⟨hok, by omega⟩

/-- The log differs from `fs` in what it has committed. -/
def Contradicts (l : Log μ) (fs : List Entry) : Prop :=
  ∃ i e f, l.entries[i]? = some e ∧ fs[i]? = some f ∧ e.term ≠ f.term ∧ i < l.commit

/-- What may come of taking the entries of `fs` into a log: all are in it, or storage fails or the
log contradicts them. -/
structure Sliced (fs : List Entry) (l : Log μ) (out : Except Refusal Unit × Log μ × σ) : Prop where
  spliced : Spliced fs l.entries out.2.1.entries
  outcome : out.1 = .ok () ∧ fs <+: out.2.1.entries ∨
    ∃ r, out.1 = .error r ∧ ((∃ e, r = .storage e) ∨ l.Contradicts fs)

/-- What taking in an entry of `fs` can do at a position that the log has too, if both agree up to
there: it is there already, it is refused, or the log becomes a beginning of `fs`. -/
lemma accept_slice (hf : Numbered fs) {l : Log μ} (hag : Agree l.entries fs) {x : ℕ}
    (hx : x < fs.length) (hxl : x < l.entries.length) (htake : l.entries.take x = fs.take x)
    (store : σ) :
    (∃ store', l.accept fs[x] store = (.ok (), l, store') ∧
      l.entries.take (x + 1) = fs.take (x + 1)) ∨
    (∃ r l' store', l.accept fs[x] store = (.error r, l', store') ∧
      Spliced fs l.entries l'.entries ∧ ((∃ e, r = .storage e) ∨ l.Contradicts fs)) ∨
    ∃ l' store', l.accept fs[x] store = (.ok (), l', store') ∧ l'.entries = fs.take (x + 1) ∧
      ∀ j, x + 1 ≤ j → j ≤ fs.length → Spliced fs l.entries (fs.take j) := by
  have hget : fs[x]? = some fs[x] := List.getElem?_eq_getElem hx
  have hold : l.entries[x]? = some l.entries[x] := List.getElem?_eq_getElem hxl
  have hidx : fs[x].index = x + 1 := hf x _ hget
  have hent : l.entry? fs[x].index = some l.entries[x] := by rw [hidx, entry?_succ, hold]
  rcases hacc : l.accept fs[x] store with ⟨res, l', store'⟩
  have ht := accept_taken fs[x] l store
  rw [hacc] at ht
  cases ht with
  | kept old ho hterm =>
    obtain rfl := Option.some.inj (hent.symm.trans ho)
    exact Or.inl ⟨_, rfl, hag x _ _ hold hget hterm⟩
  | conflict old ho hterm hc =>
    obtain rfl := Option.some.inj (hent.symm.trans ho)
    rw [hidx] at hc
    exact Or.inr (Or.inl ⟨_, _, _, rfl, Or.inl rfl, Or.inr ⟨x, _, _, hold, hget, hterm, hc⟩⟩)
  | gap hnone _ =>
    rw [hent] at hnone
    cases hnone
  | unadded e | uncut _ e =>
    exact Or.inr (Or.inl ⟨_, _, _, rfl, Or.inl rfl, Or.inl ⟨e, rfl⟩⟩)
  | added i store' he =>
    rw [hidx] at he
    exact absurd (Nat.succ.inj he) (Nat.ne_of_lt hxl)
  | cut old e store₁ store' ho hterm =>
    obtain rfl := Option.some.inj (hent.symm.trans ho)
    refine Or.inr (Or.inl ⟨_, _, _, rfl, ?_, Or.inl ⟨e, rfl⟩⟩)
    simp only [hidx, Nat.add_sub_cancel, htake]
    exact .of_ne hold hget hterm le_rfl (Nat.le_of_lt hx)
  | replaced old i store₁ store' ho hterm =>
    obtain rfl := Option.some.inj (hent.symm.trans ho)
    refine Or.inr (Or.inr ⟨_, _, rfl, ?_, fun j hj hjf => ?_⟩)
    · simp only [hidx, Nat.add_sub_cancel, htake, List.take_succ_eq_append_getElem hx]
    · exact .of_ne hold hget hterm (Nat.le_of_succ_le hj) hjf

/-- Taking in the rest of `fs` where a log that agrees with `fs` has come to. -/
lemma acceptAll_slice (hf : Numbered fs) {l : Log μ} (hag : Agree l.entries fs) (n : ℕ) :
    ∀ (x : ℕ) (store : σ), fs.length - x = n → x ≤ fs.length → x ≤ l.entries.length →
    l.entries.take x = fs.take x → Sliced fs l (l.acceptAll (fs.drop x) store) := by
  -- what comes of the rest once the log is a beginning of `fs`
  have hexact : ∀ (y : ℕ) (l' : Log μ) (store : σ), y ≤ fs.length → l'.entries = fs.take y →
      (∀ j, y ≤ j → j ≤ fs.length → Spliced fs l.entries (fs.take j)) →
      Sliced fs l (l'.acceptAll (fs.drop y) store) := by
    intro y l' store hy hl' hsp
    obtain ⟨j, h1, h2, h3, h4⟩ := acceptAll_exact hf store hy hl'
    refine ⟨h3 ▸ hsp j h1 h2, ?_⟩
    rcases h4 with ⟨hok, rfl⟩ | ⟨e, he⟩
    · exact Or.inl ⟨hok, by rw [h3, List.take_length]⟩
    · exact Or.inr ⟨_, he, Or.inl ⟨e, rfl⟩⟩
  induction n with
  | zero =>
    intro x store hn hx hxl htake
    obtain rfl : x = fs.length := by omega
    rw [List.drop_length]
    rw [List.take_length] at htake
    refine ⟨Or.inl rfl, Or.inl ⟨rfl, ?_⟩⟩
    show fs <+: l.entries
    rw [← htake]
    exact List.take_prefix _ _
  | succ n ih =>
    intro x store hn hx hxl htake
    have hlt : x < fs.length := by omega
    rcases Nat.lt_or_ge x l.entries.length with hxl' | hxl'
    · rw [List.drop_eq_getElem_cons hlt, acceptAll]
      rcases accept_slice hf hag hlt hxl' htake store with
        ⟨store', ha, hnext⟩ | ⟨r, l', store', ha, hsp, hr⟩ | ⟨l', store', ha, hl', hsp⟩
      · rw [ha]
        exact ih (x + 1) store' (by omega) hlt hxl' hnext
      · rw [ha]
        exact ⟨hsp, Or.inr ⟨r, rfl, hr⟩⟩
      · rw [ha]
        exact hexact (x + 1) l' store' hlt hl' hsp
    -- the log is a beginning of `fs`, and a proper one
    · have hxlen : x = l.entries.length := by omega
      have hl : l.entries = fs.take x := by rw [← htake, hxlen, List.take_length]
      refine hexact x l store hx hl fun j hj hjf =>
        Or.inr ⟨fun hpre => ?_, j, hjf, rfl, ?_⟩
      · have := hpre.length_le
        omega
      · intro y hy _ _
        omega

lemma Taken.commit_eq {l : Log μ} {store : σ} {e : Entry}
    {out : Except Refusal Unit × Log μ × σ} (h : Taken e l store out) :
    out.2.1.commit = l.commit := by
  cases h <;> rfl

lemma acceptAll_commit (es : List Entry) (l : Log μ) (store : σ) :
    (l.acceptAll es store).2.1.commit = l.commit := by
  induction es generalizing l store with
  | nil => rfl
  | cons e es ih =>
    have hone := (accept_taken e l store).commit_eq
    rw [acceptAll]
    split <;> rename_i heq <;> rw [heq] at hone
    · exact hone
    · rw [ih]
      exact hone

/-- A request holds what its sender's log holds behind a position. -/
structure Batch.Slice (b : Batch) (fs : List Entry) : Prop where
  prev_le : b.prevIndex ≤ fs.length
  prevTerm : b.prevTerm = termOf fs b.prevIndex
  entries : b.entries = fs.drop b.prevIndex
  commit_le : b.commit ≤ fs.length

lemma take_eq_of_fits {l : Log μ} {current : Term} {b : Batch} (hag : Agree l.entries fs)
    (hb : b.Slice fs) (h : l.fits current b = .ok ()) :
    b.prevIndex ≤ l.entries.length ∧ l.entries.take b.prevIndex = fs.take b.prevIndex := by
  unfold fits at h
  split at h
  · cases h
  · split at h
    · cases h
    · rename_i hlen
      split at h
      · cases h
      · rename_i hterm
        have hle : b.prevIndex ≤ l.entries.length := Nat.le_of_not_lt hlen
        refine ⟨hle, ?_⟩
        rw [Classical.not_not, termAt_eq, hb.prevTerm] at hterm
        have hf := hb.prev_le
        generalize b.prevIndex = x at hle hterm hf
        cases x with
        | zero => rfl
        | succ x =>
          have h1 : l.entries[x]? = some l.entries[x] := List.getElem?_eq_getElem hle
          have h2 : fs[x]? = some fs[x] := List.getElem?_eq_getElem hf
          rw [termOf_succ h1, termOf_succ h2] at hterm
          exact hag x _ _ h1 h2 hterm

/-- What comes before a batch does not clash with anything. -/
lemma not_isClash_of_fits {l : Log μ} {current : Term} {b : Batch} {r : Refusal}
    (h : l.fits current b = .error r) : ¬ r.IsClash := by
  unfold fits at h
  split_ifs at h <;> obtain rfl := Except.error.inj h <;> exact id

/-- Taking in a slice of a log in agreement. If it is taken in, the log holds all of the sender's,
and the commit index is at least the sender's. -/
lemma follow_slice [Machine μ] {l : Log (Journal μ)} {b : Batch} (hf : Numbered fs)
    (hag : Agree l.entries fs) (hb : b.Slice fs) (current : Term) (store : σ) :
    Spliced fs l.entries (l.follow current b store).2.1.entries ∧
      ((l.follow current b store).1 = .ok () ∧
          fs <+: (l.follow current b store).2.1.entries ∧
          (l.follow current b store).2.1.commit = max l.commit b.commit ∨
        (∃ r, (l.follow current b store).1 = .error r ∧ (r.IsClash → l.Contradicts fs)) ∧
          (l.follow current b store).2.1.commit = l.commit) := by
  have hcommit := acceptAll_commit b.entries l store
  unfold follow
  split
  · rename_i r hr
    exact ⟨Or.inl rfl, Or.inr ⟨⟨r, rfl, fun hc => absurd hc (not_isClash_of_fits hr)⟩, rfl⟩⟩
  · rename_i hfits
    obtain ⟨hxl, htake⟩ := take_eq_of_fits hag hb hfits
    have hsl := acceptAll_slice hf hag _ b.prevIndex store rfl hb.prev_le hxl htake
    rw [← hb.entries] at hsl
    obtain ⟨hsp, hout⟩ := hsl
    split <;> rename_i heq <;> rw [heq] at hsp hout hcommit
    · rename_i r l' store'
      obtain ⟨hok, -⟩ | ⟨r', hr', hwhy⟩ := hout
      · cases hok
      · obtain rfl := Except.error.inj hr'
        refine ⟨hsp, Or.inr ⟨⟨r, rfl, fun hc => ?_⟩, hcommit⟩⟩
        rcases hwhy with ⟨e, rfl⟩ | h
        · exact hc.elim
        · exact h
    · rename_i l' store'
      obtain ⟨-, hpre⟩ | ⟨r', hr', -⟩ := hout
      · refine ⟨by simpa using hsp, Or.inl ⟨rfl, by simpa using hpre, ?_⟩⟩
        have hle : b.commit ≤ l'.lastIndex := Nat.le_trans hb.commit_le hpre.length_le
        rw [commitTo_commit, min_eq_left hle, hcommit]
      · cases hr'

end Slicing

end Log

end Quorum
