import Mathlib.Data.List.TakeWhile
import Quorum.Proofs.Discipline

/-!
What a log makes of a batch whose entries are numbered in sequence.

The entries are taken in one at a time, and each is skipped, added, or put in the place of all that
is there. What comes of them all can be said at once (`Log.judge`): a batch is refused before it has
changed anything, or the log has all of it and stays, or the log is cut where it first lacks an
entry and goes on with the batch from there. A batch that was taken in once changes nothing when it
comes again.

The commit index follows the leader's as far as the log reaches. A log that had the whole batch may
reach further than the batch does, and then entries may be committed that the batch says nothing of.
It takes a leader whose commit index goes beyond its own batch, and there is none: a leader's batch
reaches to the end of its log, and so does its commit index at most.
-/

namespace Quorum

open LawfulStore

namespace Log

variable {μ σ : Type} {l l' : Log μ} {e : Entry} {ds es ks : List Entry} {p : ℕ}

/-! ### Entries that a log has -/

/-- There is an entry of the same term in the place of this one. -/
def has (l : Log μ) (e : Entry) : Bool := (l.entry? e.index).any fun old => old.term = e.term

lemma has_iff : l.has e = true ↔ ∃ old, l.entry? e.index = some old ∧ old.term = e.term := by
  simp [has, Option.any_eq_true]

lemma le_of_has (h : l.has e = true) : e.index ≤ l.entries.length := by
  obtain ⟨old, hold, -⟩ := has_iff.mp h
  have hlt := lt_of_entry? hold
  exact Nat.le_of_lt_succ hlt

/-- A log that has a run of entries reaches to the end of the run. -/
lemma reaches_of_has (hes : NumberedFrom p es) (hp : p ≤ l.entries.length)
    (h : ∀ e ∈ es, l.has e = true) : p + es.length ≤ l.entries.length := by
  rcases List.eq_nil_or_concat' es with rfl | ⟨es, e, rfl⟩
  · exact hp
  · have hidx : e.index = p + es.length + 1 := hes es.length e List.getElem?_concat_length
    have hle := le_of_has (h e (by simp))
    rw [hidx] at hle
    rw [List.length_append]
    exact hle

/-- Where two logs are the same they have the same entries. -/
lemma has_of_take_eq {i : ℕ} (h : l'.entries.take i = l.entries.take i) (he : e.index ≤ i)
    (hhas : l.has e = true) : l'.has e = true := by
  have htake := congrArg (List.take e.index) h
  rw [List.take_take, List.take_take, min_eq_left he] at htake
  rw [has, entry?_eq_of_take_eq htake]
  exact hhas

/-- A log has what it ends with. -/
lemma has_of_suffix (hl : l.entries = ks ++ es) (hes : NumberedFrom ks.length es) (he : e ∈ es) :
    l.has e = true := by
  obtain ⟨i, hi⟩ := List.mem_iff_getElem?.mp he
  refine has_iff.mpr ⟨e, ?_, rfl⟩
  rw [hes i e hi, entry?_succ, hl, List.getElem?_append_right (Nat.le_add_right _ _),
    Nat.add_sub_cancel_left, hi]

/-- A run begins with entries that a log has, up to one that it lacks. -/
lemma exists_of_dropWhile (hes : NumberedFrom p es) (hp : p ≤ l.entries.length) {rest : List Entry}
    (h : es.dropWhile l.has = e :: rest) :
    ∃ ds, es = ds ++ e :: rest ∧ (∀ f ∈ ds, l.has f = true) ∧ l.has e ≠ true ∧
      NumberedFrom (p + ds.length) (e :: rest) ∧ p + ds.length ≤ l.entries.length := by
  have hsplit : es = es.takeWhile l.has ++ e :: rest := by rw [← h, List.takeWhile_append_dropWhile]
  have hall : ∀ f ∈ es.takeWhile l.has, l.has f = true := fun f hf => List.mem_takeWhile_imp hf
  have hhead := List.head?_dropWhile_not l.has es
  rw [h] at hhead
  rw [hsplit] at hes
  exact ⟨_, hsplit, hall, by simpa using hhead, hes.right, reaches_of_has hes.left hp hall⟩

section Taking

variable [LogStore σ]

lemma accept_of_has (h : l.has e = true) (store : σ) : l.accept e store = (.ok (), l, store) := by
  obtain ⟨old, hold, hterm⟩ := has_iff.mp h
  simp only [accept, hold, if_pos hterm]

/-- What a log has is skipped. -/
lemma acceptAll_of_has (h : ∀ e ∈ ds, l.has e = true) (es : List Entry) (store : σ) :
    l.acceptAll (ds ++ es) store = l.acceptAll es store := by
  induction ds with
  | nil => rfl
  | cons e ds ih =>
    rw [List.cons_append, acceptAll, accept_of_has (h e List.mem_cons_self)]
    exact ih fun f hf => h f (List.mem_cons_of_mem e hf)

/-- A run that begins right behind a log is added to it, or storage fails. -/
lemma acceptAll_append (h : NumberedFrom l.entries.length es) (store : σ) :
    (∃ x, (l.acceptAll es store).1 = .error (.storage x)) ∨
      ∃ store', l.acceptAll es store = (.ok (), { l with entries := l.entries ++ es }, store') := by
  obtain ⟨j, -, hl, ⟨hok, rfl⟩ | hx⟩ := acceptAll_behind es store h
  · rw [List.take_length] at hl
    exact Or.inr ⟨(l.acceptAll es store).2.2, Prod.ext hok (Prod.ext hl rfl)⟩
  · exact Or.inl hx

/-- What becomes of a run of which a log lacks the first entry: either the log has another in its
place that is committed, or storage fails, or the log is cut there and goes on with the run. -/
lemma acceptAll_of_lacks (hes : NumberedFrom p (e :: es)) (hp : p ≤ l.entries.length)
    (hhas : l.has e ≠ true) (store : σ) :
    (e.index ≤ l.lastIndex ∧ e.index ≤ l.commit) ∧
        l.acceptAll (e :: es) store = (.error (.committedConflict e.index l.commit), l, store) ∨
      ¬ (e.index ≤ l.lastIndex ∧ e.index ≤ l.commit) ∧
        ((∃ x, (l.acceptAll (e :: es) store).1 = .error (.storage x)) ∨
          ∃ store', l.acceptAll (e :: es) store =
            (.ok (), { l with entries := l.entries.take p ++ e :: es }, store')) := by
  have hidx := hes.head
  -- once the first entry is in, all that follows goes behind it
  have hrest : ∀ (ks : List Entry) (store' : σ), ks.length = p →
      (∃ x, (acceptAll es { l with entries := ks ++ [e] } store').1 = .error (.storage x)) ∨
        ∃ store'', acceptAll es { l with entries := ks ++ [e] } store' =
          (.ok (), { l with entries := ks ++ e :: es }, store'') := by
    intro ks store' hlen
    rw [List.append_cons ks e es]
    refine acceptAll_append (l := { l with entries := ks ++ [e] }) ?_ store'
    rw [List.length_append, hlen]
    exact hes.tail
  rcases hacc : l.accept e store with ⟨res, l', store'⟩
  have ht := accept_taken e l store
  rw [hacc] at ht
  rw [acceptAll, hacc]
  cases ht with
  | kept old hold hterm => exact absurd (has_iff.mpr ⟨old, hold, hterm⟩) hhas
  | conflict old hold hterm hc =>
    have hlt := lt_of_entry? hold
    exact Or.inl ⟨⟨Nat.le_of_lt_succ hlt, hc⟩, rfl⟩
  | gap hnone hne =>
    rw [hidx, entry?_succ, List.getElem?_eq_none_iff] at hnone
    exact absurd (hidx.trans (congrArg Nat.succ (Nat.le_antisymm hp hnone))) hne
  | unadded x store' he =>
    have hbehind : ¬ e.index ≤ l.lastIndex := he ▸ Nat.not_succ_le_self _
    exact Or.inr ⟨fun h => hbehind h.1, Or.inl ⟨x, rfl⟩⟩
  | uncut old x store' _ _ hpos | cut old x store₁ store' _ _ hpos =>
    exact Or.inr ⟨fun h => Nat.not_le_of_lt hpos h.2, Or.inl ⟨x, rfl⟩⟩
  | added i store' he =>
    have hbehind : ¬ e.index ≤ l.lastIndex := he ▸ Nat.not_succ_le_self _
    have hlen : l.entries.length = p := Nat.succ.inj (he.symm.trans hidx)
    refine Or.inr ⟨fun h => hbehind h.1, ?_⟩
    rw [← hlen, List.take_length]
    exact hrest l.entries store' hlen
  | replaced old i store₁ store' hold _ hpos =>
    have hlen : (l.entries.take p).length = p := by rw [List.length_take, min_eq_left hp]
    refine Or.inr ⟨fun h => Nat.not_le_of_lt hpos h.2, ?_⟩
    rw [show e.index - 1 = p from congrArg Nat.pred hidx]
    exact hrest _ store' hlen

end Taking

/-! ### Batches judged at once -/

lemma fits_eq_ok {current : Term} {b : Batch} : l.fits current b = .ok () ↔
    current ≤ b.term ∧ b.prevIndex ≤ l.entries.length ∧ l.termAt b.prevIndex = b.prevTerm := by
  unfold fits lastIndex
  split_ifs with h1 h2 h3
  · simp [Nat.not_le_of_lt h1]
  · simp [Nat.not_le_of_lt h2]
  · simp [h3]
  · simp only [true_iff]
    exact ⟨Nat.le_of_not_lt h1, Nat.le_of_not_lt h2, Classical.not_not.mp h3⟩

/-- What a log answers to a batch, and the entries that it has then if the batch is taken in. -/
def judge (current : Term) (b : Batch) (l : Log μ) : Except Refusal (List Entry) :=
  if b.term < current then .error (.staleTerm b.term current)
  else if l.lastIndex < b.prevIndex then .error (.beyondEnd b.prevIndex l.lastIndex)
  else if l.termAt b.prevIndex ≠ b.prevTerm then
    .error (.termMismatch b.prevIndex (l.termAt b.prevIndex) b.prevTerm)
  else match b.entries.dropWhile l.has with
    | [] => .ok l.entries
    | e :: rest =>
      if e.index ≤ l.lastIndex ∧ e.index ≤ l.commit then
        .error (.committedConflict e.index l.commit)
      else .ok (l.entries.take (e.index - 1) ++ e :: rest)

variable {b : Batch} {current : Term}

lemma judge_of_not_fits {r : Refusal} (h : l.fits current b = .error r) :
    l.judge current b = .error r := by
  unfold fits at h
  unfold judge
  split_ifs at h ⊢ <;> cases h <;> rfl

lemma judge_of_fits (h : l.fits current b = .ok ()) : l.judge current b =
    match b.entries.dropWhile l.has with
    | [] => .ok l.entries
    | e :: rest =>
      if e.index ≤ l.lastIndex ∧ e.index ≤ l.commit then
        .error (.committedConflict e.index l.commit)
      else .ok (l.entries.take (e.index - 1) ++ e :: rest) := by
  obtain ⟨h1, h2, h3⟩ := fits_eq_ok.mp h
  rw [judge, if_neg (Nat.not_lt_of_le h1), if_neg (show ¬ l.lastIndex < _ from Nat.not_lt_of_le h2),
    if_neg (fun hne => hne h3)]

/-- A gap is not among the reasons. -/
lemma judge_ne_gap (got last : Index) : l.judge current b ≠ .error (.gap got last) := by
  unfold judge
  split_ifs
  · simp
  · simp
  · simp
  · split
    · simp
    · split_ifs <;> simp

/-- What entries `ks` have to do with a log that takes in a batch and has them then. -/
structure Takes (l : Log μ) (b : Batch) (ks : List Entry) : Prop where
  prev_le : b.prevIndex ≤ l.entries.length
  before : ks.take b.prevIndex = l.entries.take b.prevIndex
  has : ∀ e ∈ b.entries, ({ l with entries := ks } : Log μ).has e = true
  ends : ks = l.entries ∨ ks.length = b.prevIndex + b.entries.length

/-- A log takes a batch by going on with it from where it first lacks an entry. -/
lemma takes_splice (hb : NumberedFrom b.prevIndex b.entries) {rest : List Entry}
    (hsplit : b.entries = ds ++ rest) (hds : ∀ f ∈ ds, l.has f = true)
    (hlen : b.prevIndex + ds.length ≤ l.entries.length) :
    l.Takes b (l.entries.take (b.prevIndex + ds.length) ++ rest) := by
  rw [hsplit] at hb
  have hcut := List.length_take_of_le hlen
  have hsame : (l.entries.take (b.prevIndex + ds.length) ++ rest).take (b.prevIndex + ds.length) =
      l.entries.take (b.prevIndex + ds.length) := List.take_left' hcut
  refine ⟨(Nat.le_add_right _ _).trans hlen, ?_, fun f hf => ?_, Or.inr ?_⟩
  · have hbefore := congrArg (List.take b.prevIndex) hsame
    rwa [List.take_take, List.take_take, min_eq_left (Nat.le_add_right _ _)] at hbefore
  · rw [hsplit] at hf
    rcases List.mem_append.mp hf with hf | hf
    · obtain ⟨i, hi⟩ := List.mem_iff_getElem?.mp hf
      obtain ⟨hlt, -⟩ := List.getElem?_eq_some_iff.mp hi
      refine has_of_take_eq hsame ?_ (hds f hf)
      rw [hb.left i f hi]
      exact Nat.add_lt_add_left hlt _
    · refine has_of_suffix rfl ?_ hf
      rw [hcut]
      exact hb.right
  · rw [List.length_append, hcut, hsplit, List.length_append, Nat.add_assoc]

lemma takes_of_judge (hb : NumberedFrom b.prevIndex b.entries) (h : l.judge current b = .ok ks) :
    l.fits current b = .ok () ∧ l.Takes b ks := by
  rcases hfits : l.fits current b with r | ⟨⟩
  · cases (judge_of_not_fits hfits).symm.trans h
  · refine ⟨rfl, ?_⟩
    have hle := (fits_eq_ok.mp hfits).2.1
    rw [judge_of_fits hfits] at h
    rcases hdrop : b.entries.dropWhile l.has with _ | ⟨e, rest⟩ <;> simp only [hdrop] at h
    · obtain rfl := Except.ok.inj h
      exact ⟨hle, rfl, List.dropWhile_eq_nil_iff.mp hdrop, Or.inl rfl⟩
    · split at h
      · cases h
      · obtain ⟨ds, hsplit, hds, -, hnum, hlen⟩ := exists_of_dropWhile hb hle hdrop
        have hidx : e.index - 1 = b.prevIndex + ds.length := congrArg Nat.pred hnum.head
        rw [← Except.ok.inj h, hidx]
        exact takes_splice hb hsplit hds hlen

namespace Takes

/-- The log reaches to the end of the batch. -/
lemma reaches (h : l.Takes b ks) (hb : NumberedFrom b.prevIndex b.entries) :
    b.prevIndex + b.entries.length ≤ ks.length := by
  refine reaches_of_has (l := { l with entries := ks }) hb ?_ h.has
  have hlen := congrArg List.length h.before
  rw [List.length_take, List.length_take, min_eq_left h.prev_le] at hlen
  exact min_eq_left_iff.mp hlen

end Takes

/-! ### Following -/

section Following

variable [LogStore σ] {store : σ}

lemma follow_of_has [Machine μ] (hfits : l.fits current b = .ok ())
    (h : ∀ e ∈ b.entries, l.has e = true) (store : σ) :
    l.follow current b store = (.ok (), l.commitTo (min b.commit l.lastIndex), store) := by
  have hall : l.acceptAll b.entries store = (.ok (), l, store) := by
    have := acceptAll_of_has h [] store
    rwa [List.append_nil] at this
  simp only [follow, hfits, hall]

/-- A batch is judged before anything is changed, and only storage can fail after that. -/
lemma follow_cases [Machine μ] (hb : NumberedFrom b.prevIndex b.entries) (current : Term)
    (l : Log μ) (store : σ) :
    (∃ r, l.judge current b = .error r ∧ l.follow current b store = (.error r, l, store)) ∨
    ∃ ks, l.judge current b = .ok ks ∧
      ((∃ x, (l.follow current b store).1 = .error (.storage x)) ∨
        ∃ store', l.follow current b store =
          (.ok (), commitTo (min b.commit ks.length) { l with entries := ks }, store')) := by
  rcases hfits : l.fits current b with r | ⟨⟩
  · exact Or.inl ⟨r, judge_of_not_fits hfits, by rw [follow, hfits]⟩
  · rw [judge_of_fits hfits]
    have hle := (fits_eq_ok.mp hfits).2.1
    rcases hdrop : b.entries.dropWhile l.has with _ | ⟨e, rest⟩ <;> dsimp only
    · have hhas := List.dropWhile_eq_nil_iff.mp hdrop
      exact Or.inr ⟨_, rfl, Or.inr ⟨store, follow_of_has hfits hhas store⟩⟩
    · obtain ⟨ds, hsplit, hds, hno, hnum, hlen⟩ := exists_of_dropWhile hb hle hdrop
      have hidx : e.index - 1 = b.prevIndex + ds.length := congrArg Nat.pred hnum.head
      have hskip : l.acceptAll b.entries store = l.acceptAll (e :: rest) store := by
        rw [hsplit]
        exact acceptAll_of_has hds _ store
      rw [hidx]
      rcases acceptAll_of_lacks hnum hlen hno store with
        ⟨hc, hall⟩ | ⟨hc, ⟨x, hx⟩ | ⟨store', hall⟩⟩
      · refine Or.inl ⟨_, if_pos hc, ?_⟩
        simp only [follow, hfits, hskip, hall]
      · refine Or.inr ⟨_, if_neg hc, Or.inl ⟨x, ?_⟩⟩
        rcases hacc : l.acceptAll (e :: rest) store with ⟨res, l', store'⟩
        rw [hacc] at hx
        obtain rfl : res = .error (.storage x) := hx
        simp only [follow, hfits, hskip, hacc]
      · refine Or.inr ⟨_, if_neg hc, Or.inr ⟨store', ?_⟩⟩
        simp only [follow, hfits, hskip, hall]
        rfl

lemma exists_of_follow_ok [Machine μ] (hb : NumberedFrom b.prevIndex b.entries)
    (hok : (l.follow current b store).1 = .ok ()) :
    ∃ ks, l.judge current b = .ok ks ∧
      (l.follow current b store).2.1 =
        commitTo (min b.commit ks.length) { l with entries := ks } := by
  rcases follow_cases hb current l store with ⟨r, -, hf⟩ | ⟨ks, hj, ⟨x, hx⟩ | ⟨store', hf⟩⟩
  · rw [hf] at hok
    cases hok
  · cases hx.symm.trans hok
  · exact ⟨ks, hj, congrArg (fun out => out.2.1) hf⟩

/-- A log that has taken in a batch, and has followed its commit index, is not changed by it. -/
lemma Takes.follow_again [Machine μ] (h : l.Takes b ks) (hfits : l.fits current b = .ok ())
    (hks : l'.entries = ks) (hb : NumberedFrom b.prevIndex b.entries)
    (hc : min b.commit ks.length ≤ l'.commit) (again : Term) (store : σ) :
    l'.follow again b store =
      (if b.term < again then .error (.staleTerm b.term again) else .ok (), l', store) := by
  by_cases hterm : b.term < again
  · rw [follow, fits, if_pos hterm, if_pos hterm]
  · have hreach : b.prevIndex ≤ ks.length := (Nat.le_add_right _ _).trans (h.reaches hb)
    have hfits' : l'.fits again b = .ok () := by
      refine fits_eq_ok.mpr ⟨Nat.le_of_not_lt hterm, hks ▸ hreach, ?_⟩
      rw [← (fits_eq_ok.mp hfits).2.2, termAt_eq, termAt_eq, hks, ← termOf_take le_rfl, h.before,
        termOf_take le_rfl]
    have hhas : ∀ e ∈ b.entries, l'.has e = true := by
      intro e he
      refine has_of_take_eq (l := { l with entries := ks }) (i := e.index) ?_ le_rfl (h.has e he)
      rw [hks]
    rw [follow_of_has hfits' hhas, if_neg hterm, lastIndex, hks, commitTo_of_le hc]

end Following

section Failing

variable [LogStore σ] [BallotStore σ] [Reopen σ] [LawfulStore σ] {store store' : σ}
variable {x : StorageError}

/-- Storage is asked only for what storage in memory would do. -/
lemma Taken.fails (h : Taken e l store (.error (.storage x), l', store'))
    (hn : Numbered l.entries) (hs : (contents store).records = l.entries) : Fails σ x := by
  have hadd : ∀ {m : Memory}, Numbered m.records → e.index = m.records.length + 1 →
      (LogStore.append e m).1 = .ok e.index := by
    intro m hm he
    rw [Memory.append_next hm he]
  cases h with
  | unadded _ _ he ha =>
    exact ⟨store, store', Or.inl ⟨e, hadd (hs ▸ hn) (hs ▸ he), ha⟩⟩
  | uncut _ _ _ _ _ _ ht => exact ⟨store, store', Or.inr ⟨_, ht⟩⟩
  | cut old _ store₁ _ hold _ hpos ht ha =>
    have hcut : (contents store₁).records = l.entries.take (e.index - 1) := by
      rw [truncate_ok ht, Memory.truncate_records (hs ▸ hn), hs]
    have hlt := lt_of_entry? hold
    refine ⟨store₁, store', Or.inl ⟨e, hadd ?_ ?_, ha⟩⟩
    · rw [hcut]
      exact hn.take _
    · rw [hcut, List.length_take]
      lia

lemma acceptAll_fails (hn : Numbered l.entries) (hc : l.commit ≤ l.entries.length)
    (hs : (contents store).records = l.entries)
    (h : (l.acceptAll es store).1 = .error (.storage x)) : Fails σ x := by
  induction es generalizing l store with
  | nil => cases h
  | cons e es ih =>
    rcases hacc : l.accept e store with ⟨r | ⟨⟩, l₁, store₁⟩
    all_goals
      have ht := accept_taken e l store
      rw [hacc] at ht
      rw [acceptAll, hacc] at h
    · obtain rfl := Except.error.inj h
      exact ht.fails hn hs
    · have hone := ht.reshapes hn hc
      exact ih hone.numbered (hone.commit_eq ▸ hone.commit_le) (congrArg _ (ht.stored hn hs)) h

lemma follow_fails [Machine μ] (hn : Numbered l.entries) (hc : l.commit ≤ l.entries.length)
    (hs : (contents store).records = l.entries)
    (h : (l.follow current b store).1 = .error (.storage x)) : Fails σ x := by
  have hall : (l.acceptAll b.entries store).1 = .error (.storage x) := by
    unfold follow fits at h
    split_ifs at h with h1 h2 h3
    · cases h
    · cases h
    · cases h
    · dsimp only at h
      split at h <;> rename_i heq
      · rw [heq]
        exact h
      · cases h
  exact acceptAll_fails hn hc hs hall

end Failing

/-! ### What following comes to -/

/-- The log has entries `ks` now, has followed a leader's commit index as far as they go, and has
applied everything up to there if that moved it. -/
structure Follows (c : Index) (ks : List Entry) (l l' : Log (Journal μ)) : Prop where
  entries : l'.entries = ks
  commit : l'.commit = max l.commit (min c ks.length)
  applied : l'.applied = if l.commit < l'.commit then l'.commit else l.applied
  given : l'.machine.given = ks.take l'.applied

variable [Machine μ]

lemma follows_commitTo {l : Log (Journal μ)} (hl : l.applied ≤ l.commit) {c : Index}
    (h : (commitTo (min c ks.length) { l with entries := ks }).Steady) :
    Follows c ks l (commitTo (min c ks.length) { l with entries := ks }) := by
  have happ := (commitTo_applied (l := { l with entries := ks }) hl (min_le_right c ks.length)).1
  have hgiven := h.given
  rw [commitTo_entries] at hgiven
  refine ⟨commitTo_entries _, commitTo_commit _, ?_, hgiven⟩
  rw [happ, commitTo_commit]
  dsimp only
  by_cases hlt : l.commit < min c ks.length
  · rw [if_pos hlt, max_eq_right (Nat.le_of_lt hlt), if_pos hlt]
  · rw [if_neg hlt, max_eq_left (Nat.le_of_not_lt hlt), if_neg (Nat.lt_irrefl _)]

/-- **Taking in a batch is judging it at once.** A batch in sequence is refused exactly as it is
judged, and nothing changes then; a gap is never the reason. Otherwise the log becomes what the
judgement says, and storage and the commit index follow, unless storage fails where storage in
memory would not have. Whenever the batch comes again nothing changes. -/
theorem follow_judged [LogStore σ] [BallotStore σ] [Reopen σ] [LawfulStore σ]
    {l : Log (Journal μ)} {store : σ} {b : Batch} (hl : l.Steady)
    (hs : (contents store).records = l.entries) (hb : NumberedFrom b.prevIndex b.entries)
    (current : Term) :
    (∀ r, l.judge current b = .error r → l.follow current b store = (.error r, l, store)) ∧
      (∀ ks, l.judge current b = .ok ks →
        (∃ x, (l.follow current b store).1 = .error (.storage x) ∧ Fails σ x) ∨
          ∃ l' store', l.follow current b store = (.ok (), l', store') ∧
            Follows b.commit ks l l' ∧ (contents store').records = ks ∧
            ∀ again, l'.follow again b store' =
              (if b.term < again then .error (.staleTerm b.term again) else .ok (), l', store')) ∧
      ∀ got last, (l.follow current b store).1 ≠ .error (.gap got last) := by
  have hstored := follow_stored hl.numbered hl.commit_le hs current b
  have hsteady := follow_steady hl current b store
  rcases follow_cases hb current l store with ⟨r, hj, hf⟩ | ⟨ks, hj, hout⟩
  · refine ⟨fun r' hr' => ?_, fun ks hks => (by cases hj.symm.trans hks), fun got last hgap => ?_⟩
    · obtain rfl := Except.error.inj (hj.symm.trans hr')
      exact hf
    · rw [hf] at hgap
      rw [Except.error.inj hgap] at hj
      exact judge_ne_gap got last hj
  · refine ⟨fun r hr => (by cases hj.symm.trans hr), fun ks' hks' => ?_, fun got last hgap => ?_⟩
    · obtain rfl := Except.ok.inj (hj.symm.trans hks')
      rcases hout with ⟨x, hx⟩ | ⟨store', hf⟩
      · exact Or.inl ⟨x, hx, follow_fails hl.numbered hl.commit_le hs hx⟩
      · obtain ⟨hfits, htakes⟩ := takes_of_judge hb hj
        rw [hf] at hstored hsteady
        refine Or.inr ⟨_, store', hf, follows_commitTo hl.applied_le hsteady, ?_, fun again => ?_⟩
        · rw [hstored]
          exact commitTo_entries _
        · refine htakes.follow_again hfits (commitTo_entries _) hb ?_ again store'
          rw [commitTo_commit]
          exact le_max_right _ _
    · rcases hout with ⟨x, hx⟩ | ⟨store', hf⟩
      · cases hx.symm.trans hgap
      · rw [hf] at hgap
        cases hgap

/-- Two committed entries and one that is not. -/
def parted : Log (Journal Kv) where
  entries := [⟨1, 1, [0]⟩, ⟨1, 2, [1]⟩, ⟨1, 3, [2]⟩]
  commit := 1
  applied := 1
  machine := ⟨⟨[]⟩, [⟨1, 1, [0]⟩]⟩

/-- It repeats the second entry, contradicts the third and adds a fourth. -/
def mending : Batch := ⟨2, 1, 1, [⟨1, 2, [1]⟩, ⟨2, 3, [3]⟩, ⟨2, 4, [4]⟩], 3⟩

lemma parted_steady : parted.Steady := ⟨by decide, by decide, by decide, rfl⟩

theorem follow_judged_mending : parted.Steady ∧ NumberedFrom mending.prevIndex mending.entries ∧
    ∃ l' store', parted.follow 2 mending ({ records := parted.entries } : Memory) =
        (.ok (), l', store') ∧
      l'.machine.given = [⟨1, 1, [0]⟩, ⟨1, 2, [1]⟩, ⟨2, 3, [3]⟩] ∧
      (contents store').records = [⟨1, 1, [0]⟩, ⟨1, 2, [1]⟩, ⟨2, 3, [3]⟩, ⟨2, 4, [4]⟩] ∧
      l'.follow 2 mending store' = (.ok (), l', store') := by
  have hb : NumberedFrom mending.prevIndex mending.entries := by decide
  refine ⟨parted_steady, hb, ?_⟩
  have hs : (contents ({ records := parted.entries } : Memory)).records = parted.entries := rfl
  obtain ⟨-, hok, -⟩ := follow_judged parted_steady hs hb 2
  rcases hok _ rfl with ⟨x, -, hx⟩ | ⟨l', store', hf, hl', hstored, hagain⟩
  · exact absurd hx (Memory.not_fails x)
  · refine ⟨l', store', hf, ?_, hstored, hagain 2⟩
    rw [hl'.given, hl'.applied, hl'.commit]
    rfl

/-! ### How far a commit index is followed -/

/-- **Following a commit index.** A log that takes in a request comes to reach to the request's end,
and no further if the request has changed it; its commit index moves to the leader's, as far as the
log reaches. That is beyond what the request tells of only if the leader's commit index is, which it
is not in a request that a leader makes of its log as it stands. -/
theorem follow_vouched [LogStore σ] {l : Log (Journal μ)} {store : σ} {r : AppendRequest}
    {current : Term} (hr : NumberedFrom r.prevIndex r.entries)
    (hok : (l.follow current r.batch store).1 = .ok ()) :
    let l' := (l.follow current r.batch store).2.1
    l'.commit = max l.commit (min r.commit l'.lastIndex) ∧
      r.lastIndex ≤ l'.lastIndex ∧ (l'.entries = l.entries ∨ l'.lastIndex = r.lastIndex) ∧
      (l'.commit ≤ max l.commit (min r.commit r.lastIndex) ↔
        r.commit ≤ r.lastIndex ∨ l'.lastIndex = r.lastIndex ∨
          min r.commit l'.lastIndex ≤ l.commit) ∧
      ∀ {τ : Type} (leader : Node τ (Journal μ)) (peer : NodeId) (round : Round),
        leader.log.Steady → leader.startRound peer = some round → round.request = r →
          l'.commit ≤ max l.commit (min r.commit r.lastIndex) := by
  intro l'
  obtain ⟨ks, hj, hl'⟩ := exists_of_follow_ok hr hok
  obtain ⟨-, htakes⟩ := takes_of_judge hr hj
  have hentries : l'.entries = ks := (congrArg entries hl').trans (commitTo_entries _)
  have hlast : l'.lastIndex = ks.length := congrArg List.length hentries
  have hcommit : l'.commit = max l.commit (min r.commit ks.length) :=
    (congrArg commit hl').trans (commitTo_commit _)
  have hreach : r.lastIndex ≤ ks.length := by
    rw [AppendRequest.lastIndex_eq hr]
    exact htakes.reaches hr
  have hbound : l'.commit ≤ max l.commit (min r.commit r.lastIndex) ↔
      r.commit ≤ r.lastIndex ∨ l'.lastIndex = r.lastIndex ∨
        min r.commit l'.lastIndex ≤ l.commit := by
    rw [hcommit, hlast]
    lia
  refine ⟨by rw [hcommit, hlast], hlast ▸ hreach, ?_, hbound, ?_⟩
  · rw [hentries, hlast, AppendRequest.lastIndex_eq hr]
    exact htakes.ends
  · rintro τ leader peer round hleader hround rfl
    obtain ⟨-, hslice, -⟩ := Node.startRound_slice hleader.commit_le hround
    refine hbound.mpr (Or.inl ?_)
    rw [AppendRequest.lastIndex_of_slice hleader.numbered hslice]
    exact hslice.commit_le

/-- A leader that has committed two entries and sends the second. -/
def leading : Node Memory (Journal Kv) where
  config := ⟨2, [1, 2, 3], {}⟩
  store := {}
  standing := ⟨⟨2, some 2⟩, .leader⟩
  log :=
    { entries := [⟨1, 1, [0]⟩, ⟨2, 2, [3]⟩], commit := 2, applied := 2
      machine := ⟨⟨[]⟩, [⟨1, 1, [0]⟩, ⟨2, 2, [3]⟩]⟩ }
  progress := [(1, ⟨2, 0⟩)]

/-- What the leader sends, and a heartbeat that tells of more committed entries than it covers. -/
def sent : AppendRequest := ⟨2, 2, 1, 1, [⟨2, 2, [3]⟩], 2⟩

def uncovering : AppendRequest := ⟨2, 2, 1, 1, [], 3⟩

theorem follow_vouched_sent : NumberedFrom sent.prevIndex sent.entries ∧
    (parted.follow 2 sent.batch ({ records := parted.entries } : Memory)).1 = .ok () ∧
    leading.log.Steady ∧ leading.startRound 1 = some ⟨1, sent⟩ ∧
    (parted.follow 2 sent.batch ({ records := parted.entries } : Memory)).2.1.commit ≤ 2 := by
  have hr : NumberedFrom sent.prevIndex sent.entries := by decide
  have hok : (parted.follow 2 sent.batch ({ records := parted.entries } : Memory)).1 = .ok () := rfl
  have hleading : leading.log.Steady := ⟨by decide, by decide, by decide, rfl⟩
  obtain ⟨-, -, -, -, hbound⟩ := follow_vouched hr hok
  exact ⟨hr, hok, hleading, rfl, hbound leading 1 _ hleading rfl rfl⟩

/-- The uncovered entries are committed though nobody vouched for them. -/
theorem follow_uncovered : parted.Steady ∧
    NumberedFrom uncovering.prevIndex uncovering.entries ∧
    (parted.follow 2 uncovering.batch ({ records := parted.entries } : Memory)).1 = .ok () ∧
    ¬ (parted.follow 2 uncovering.batch ({ records := parted.entries } : Memory)).2.1.commit ≤
      max parted.commit (min uncovering.commit uncovering.lastIndex) :=
  ⟨parted_steady, by decide, rfl, by decide⟩

end Log

end Quorum
