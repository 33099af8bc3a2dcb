import Quorum.Proofs.Answers
import Quorum.Proofs.Discipline

/-!
What comes of an append.

Who leads may change while an entry is being stored, and while the client waits anything may happen
to the log. An append is refused with nothing done, or its entry is stored and in the log and a wait
is filed for it. From then on every change of the waits is one of four (`Waits.Change`), and none
takes an answer back or leaves an answered wait in the file. Whoever has lost the lead while the
entry was being stored is done with its term, so that the wait is failed at once.
-/

namespace Quorum

open LawfulStore Relation

/-- What may change a member's standing while an entry is being stored. -/
inductive Stir
  | follow (t : Term)
  | stand
  | lead (t : Term)
  | withdraw (t : Term)
  | grant (t : Term) (candidate : NodeId)

def Stir.change {σ : Type} [BallotStore σ] (self : NodeId) (s : Standing) (store : σ) :
    Stir → Standing × σ
  | follow t => (s.follow t store).2
  | stand => (s.stand self store).2
  | lead t => ((s.lead t).2, store)
  | withdraw t => ((s.withdraw t).2, store)
  | grant t c => (s.grant t c store).2

namespace Log

variable {μ : Type} [Machine μ] {l : Log (Journal μ)}

/-! ### Changes of the waits -/

lemma applyAll_changes (es : List Entry) (l : Log (Journal μ)) :
    l.waits.Changes (es.foldl applyNext l).waits := by
  induction es generalizing l with
  | nil => exact .refl
  | cons e es ih => exact (ih (l.applyNext e)).head (.settles l.waits .committed _)

lemma commitTo_changes (i : Index) (l : Log (Journal μ)) :
    l.waits.Changes (l.commitTo i).waits := by
  unfold commitTo
  split
  · exact applyAll_changes _ { l with commit := i }
  · exact .refl

lemma follow_changes {σ : Type} [LogStore σ] (h : l.Steady) (current : Term) (b : Batch)
    (store : σ) : l.waits.Changes (l.follow current b store).2.1.waits := by
  have hall := (acceptAll_reshapes b.entries store h.numbered h.commit_le).eq
  have hw : (l.acceptAll b.entries store).2.1.waits = l.waits := by rw [hall]
  unfold follow
  split
  · exact .refl
  · split <;> rename_i heq <;> rw [heq] at hw
    · exact hw ▸ .refl
    · exact hw ▸ commitTo_changes _ _

end Log

namespace Node

/-! ### Operations on the log change the waits -/

section

variable {σ μ : Type} [LogStore σ] [Machine μ] {n : Node σ (Journal μ)}

omit [LogStore σ] in
lemma tryCommit_changes (n : Node σ (Journal μ)) :
    n.log.waits.Changes n.tryCommit.log.waits := by
  unfold tryCommit
  split
  · exact .refl
  · split
    · exact .refl
    · exact Log.commitTo_changes _ _

lemma carryOut_changes (h : n.log.Steady) (task : Task) :
    n.log.waits.Changes (n.carryOut task).log.waits := by
  cases task with
  | write payload =>
    show n.log.waits.Changes (n.write payload).2.log.waits
    unfold write
    split
    · exact .refl
    · rename_i t _
      dsimp only
      rcases Log.push_cases ⟨t, n.log.size, payload⟩ n.log n.store with
        ⟨i, store', -, hp⟩ | ⟨x, store', -, hp⟩ <;> rw [hp]
      exact .single (.registers _ _)
  | settle w =>
    show n.log.waits.Changes (n.settle w).log.waits
    unfold settle
    split
    · exact tryCommit_changes (callRounds { n with
        progress := n.progress.advance n.id w.index })
    · exact .single (.settles _ _ _)
  | giveUp w => exact .single (.expires _ _)
  | follow b => exact Log.follow_changes h n.term b n.store
  | tryCommit => exact tryCommit_changes n
  | apply => exact Log.applyAll_changes _ n.log
  | failWaits => exact .single (.failsAll _)
  | turn standing progress => exact .refl

/-- The log is in order, and what is filed is open. -/
structure Orderly (n : Node σ (Journal μ)) : Prop where
  steady : n.log.Steady
  sound : n.log.waits.Sound

lemma Orderly.carryOutAll (h : n.Orderly) (tasks : List Task) :
    (n.carryOutAll tasks).Orderly ∧ n.log.waits.Changes (n.carryOutAll tasks).log.waits := by
  induction tasks generalizing n with
  | nil => exact ⟨h, .refl⟩
  | cons task tasks ih =>
    have hone := carryOut_changes h.steady task
    have hnext : (n.carryOut task).Orderly :=
      ⟨((carryOut_shifts h.steady task).steady h.steady).1, hone.sound h.sound⟩
    obtain ⟨hall, hchanges⟩ := ih hnext
    exact ⟨hall, hone.trans hchanges⟩

/-! ### What the client is told -/

omit [LogStore σ] [Machine μ] in
/-- There are three answers. -/
lemma conclude_cases (w : Written) (n : Node σ (Journal μ)) :
    (n.conclude w).1 = .ok w.index ∨ (n.conclude w).1 = .error (.commitAborted w.index) ∨
      (n.conclude w).1 =
        .error (.commitTimeout w.index (n.conclude w).2.config.timing.commitWait) := by
  unfold conclude outcome?
  rcases n.log.waits.status? w.ticket with _ | s
  · exact .inr (.inr rfl)
  · cases s with
    | pending | timedOut => exact .inr (.inr rfl)
    | committed => exact .inl rfl
    | failed => exact .inr (.inl rfl)

omit [LogStore σ] [Machine μ] in
lemma conclude_of_failed {w : Written} (h : n.log.waits.status? w.ticket = some .failed) :
    (n.conclude w).1 = .error (.commitAborted w.index) := by
  simp only [conclude, outcome?, h]

omit [LogStore σ] [Machine μ] in
/-- Whoever stops waiting has no wait in the file. -/
lemma conclude_not_filed (h : n.log.waits.Sound) (w : Written) (i : Index) :
    Table.find? i (n.conclude w).2.log.waits.filed ≠ some w.ticket := by
  unfold conclude
  split
  · rename_i r hr
    refine h.not_filed (fun hp => ?_) i
    simp [outcome?, hp] at hr
  · exact (h.expire w.ticket).not_filed (Waits.status?_expire_ne_pending _ _) i

end

/-! ### While the entry is being stored -/

section

variable {σ μ : Type} [BallotStore σ]

/-- The member once its standing has changed. -/
def stir (n : Node σ (Journal μ)) (x : Stir) : Node σ (Journal μ) :=
  match x.change n.id n.standing n.store with
  | (standing, store) => { n with standing, store }

def stirAll (n : Node σ (Journal μ)) (inside : List Stir) : Node σ (Journal μ) :=
  inside.foldl stir n

end

variable {σ μ : Type} [LogStore σ] [BallotStore σ] [Reopen σ] [LawfulStore σ]

/-- The standing is another, and what is stored of it. -/
structure Shaken (n n' : Node σ (Journal μ)) : Prop where
  eq : n' = { n with standing := n'.standing, store := n'.store }
  records : (contents n'.store).records = (contents n.store).records

namespace Shaken

variable {n n' n'' : Node σ (Journal μ)}

lemma refl (n : Node σ (Journal μ)) : n.Shaken n := ⟨rfl, rfl⟩

lemma trans (h : n.Shaken n') (h' : n'.Shaken n'') : n.Shaken n'' where
  eq := by
    rw [h'.eq, h.eq]
  records := h'.records.trans h.records

end Shaken

/-- A candidacy that is stored is for the next term, and otherwise there is none. -/
lemma stir_stand_cases (n : Node σ (Journal μ)) :
    (∃ store', n.stir .stand = { n with
        standing := ⟨⟨n.term.next, some n.id⟩, .candidate⟩
        store := store' } ∧
      (contents store').records = (contents n.store).records) ∨
    ∃ store', n.stir .stand = { n with store := store' } ∧
      (contents store').records = (contents n.store).records := by
  simp only [stir, Stir.change]
  rcases Standing.stand_cases n.id n.standing n.store with ⟨store', hs, hc⟩ | ⟨e, store', hs, hc⟩
  · rw [hs]
    exact .inl ⟨store', rfl, by rw [hc]⟩
  · rw [hs]
    exact .inr ⟨store', rfl, congrArg Memory.records hc⟩

omit [LogStore σ] [Reopen σ] [LawfulStore σ] in
/-- Only a candidate comes to lead. -/
lemma stir_lead_cases (t : Term) (n : Node σ (Journal μ)) :
    (n.role = .candidate ∧
      n.stir (.lead t) = { n with standing := { n.standing with role := .leader } }) ∨
    n.stir (.lead t) = n := by
  by_cases hc : n.standing.role = .candidate ∧ n.standing.term = t
  · exact .inl ⟨hc.1, by simp only [stir, Stir.change, Standing.lead, if_pos hc]⟩
  · exact .inr (by simp only [stir, Stir.change, Standing.lead, if_neg hc])

/-- All other changes raise no role. -/
lemma stir_yields {x : Stir} (hs : x ≠ .stand) (hl : ∀ t, x ≠ .lead t) (n : Node σ (Journal μ)) :
    n.Yields (n.stir x) ∧
      (contents (n.stir x).store).records = (contents n.store).records := by
  have hturns : ∀ {s : Standing} {store : σ}, Standing.Turns n.standing n.store s store →
      n.Yields { n with standing := s, store } ∧
        (contents store).records = (contents n.store).records :=
    fun h => ⟨⟨rfl, rfl, h.before.term_le, h.role, fun _ => le_rfl⟩, h.records⟩
  cases x with
  | follow t => exact hturns (Standing.follow_turns t n.standing n.store)
  | stand => exact absurd rfl hs
  | lead t => exact absurd rfl (hl t)
  | withdraw t =>
    by_cases hc : n.standing.role = .candidate ∧ n.standing.term = t
    · have hstir : n.stir (.withdraw t) =
          { n with standing := { n.standing with role := .follower } } := by
        simp only [stir, Stir.change, Standing.withdraw, if_pos hc]
      rw [hstir]
      exact ⟨⟨rfl, rfl, le_rfl, fun h => absurd rfl h, fun _ => le_rfl⟩, rfl⟩
    · have hstir : n.stir (.withdraw t) = n := by
        simp only [stir, Stir.change, Standing.withdraw, if_neg hc]
      rw [hstir]
      exact ⟨.of_standing rfl rfl rfl fun _ => le_rfl, rfl⟩
  | grant t c => exact hturns (Standing.grant_turns t c n.standing n.store)

lemma stir_shaken (x : Stir) (n : Node σ (Journal μ)) : n.Shaken (n.stir x) := by
  refine ⟨rfl, ?_⟩
  by_cases hs : x = .stand
  · subst hs
    rcases stir_stand_cases n with ⟨store', h, hr⟩ | ⟨store', h, hr⟩ <;> rw [h] <;> exact hr
  · by_cases hl : ∃ t, x = .lead t
    · obtain ⟨t, rfl⟩ := hl
      rcases stir_lead_cases t n with ⟨-, h⟩ | h <;> rw [h]
    · exact (stir_yields hs (not_exists.mp hl) n).2

lemma stirAll_shaken (inside : List Stir) (n : Node σ (Journal μ)) :
    n.Shaken (n.stirAll inside) := by
  induction inside generalizing n with
  | nil => exact .refl n
  | cons x inside ih => exact (stir_shaken x n).trans (ih (n.stir x))

/-- No candidacy begins in the last term. -/
def Counts (n : Node σ (Journal μ)) (inside : List Stir) : Prop :=
  ∀ k, inside[k]? = some .stand → ¬ (n.stirAll (inside.take k)).term.IsLast

lemma stir_onward {x : Stir} {n : Node σ (Journal μ)} (hlast : x = .stand → ¬ n.term.IsLast) :
    n.Onward (n.stir x) := by
  by_cases hs : x = .stand
  · have hlt := Term.lt_next_iff.mpr (hlast hs)
    subst hs
    rcases stir_stand_cases n with ⟨store', h, -⟩ | ⟨store', h, -⟩ <;> rw [h]
    · exact .of_later hlt
    · have hy : n.Yields { n with store := store' } := .of_standing rfl rfl rfl fun _ => le_rfl
      exact hy.onward
  · by_cases hl : ∃ t, x = .lead t
    · obtain ⟨t, rfl⟩ := hl
      rcases stir_lead_cases t n with ⟨hr, h⟩ | h <;> rw [h]
      · exact .of_candidate hr rfl
      · exact .refl n
    · exact (stir_yields hs (not_exists.mp hl) n).1.onward

lemma stirAll_onward {inside : List Stir} {n : Node σ (Journal μ)} (hc : n.Counts inside) :
    n.Onward (n.stirAll inside) := by
  induction inside generalizing n with
  | nil => exact .refl n
  | cons x inside ih =>
    refine (stir_onward fun hx => hc 0 (congrArg some hx)).trans (ih fun k hk => ?_)
    exact hc (k + 1) hk

omit [LogStore σ] [Reopen σ] [LawfulStore σ] in
lemma stirAll_append (n : Node σ (Journal μ)) (xs ys : List Stir) :
    n.stirAll (xs ++ ys) = (n.stirAll xs).stirAll ys := List.foldl_append ..

/-- Who does not lead at some time does not lead at the end. -/
lemma leaderTerm_stirAll {n : Node σ (Journal μ)} {t : Term} {inside : List Stir} {k : ℕ}
    (hc : n.Counts inside) (hl : n.leaderTerm = some t)
    (hlost : (n.stirAll (inside.take k)).leaderTerm ≠ some t) :
    (n.stirAll inside).leaderTerm ≠ some t := by
  have hfirst : n.Counts (inside.take k) := by
    intro j hj
    rw [List.getElem?_take] at hj
    split_ifs at hj with hlt
    rw [List.take_take, min_eq_left (Nat.le_of_lt hlt)]
    exact hc j hj
  have hthen : (n.stirAll (inside.take k)).Counts (inside.drop k) := by
    intro j hj
    rw [← stirAll_append, ← List.take_add]
    exact hc (k + j) (List.getElem?_drop ▸ hj)
  have hdone : (n.stirAll (inside.take k)).Done t :=
    ((stirAll_onward hfirst).leads t hl).resolve_left hlost
  rw [← List.take_append_drop k inside, stirAll_append]
  exact ((stirAll_onward hthen).done t hdone).not_leads

variable [Machine μ] {n m : Node σ (Journal μ)} {payload : Bytes} {w : Written}

/-! ### An append up to the wait -/

/-- An append up to the wait, if the member's standing changes while the entry is being stored. -/
def submitAmid (payload : Bytes) (inside : List Stir) (n : Node σ (Journal μ)) :
    Except ClientError Written × Node σ (Journal μ) :=
  match n.write payload with
  | (.ok w, n) => (.ok w, (n.stirAll inside).settle w)
  | (.error (.storage x), n) => (.error (.storage x), n.stirAll inside)
  | (.error e, n) => (.error e, n)

omit [Reopen σ] [LawfulStore σ] in
/-- Nothing need change. -/
lemma submitAmid_nil (payload : Bytes) (n : Node σ (Journal μ)) :
    n.submitAmid payload [] = n.submit payload := by
  unfold submitAmid submit
  rcases n.write payload with ⟨e | w, n'⟩
  · cases e <;> rfl
  · rfl

/-- Nothing came of an append but the reason why. -/
structure Declined (payload : Bytes) (n : Node σ (Journal μ)) (e : ClientError)
    (n' : Node σ (Journal μ)) : Prop where
  reason : (n.leaderTerm = none ∧ e = .notLeader n.likelyLeader) ∨
    ∃ t x, n.leaderTerm = some t ∧ e = .storage x ∧
      (LogStore.append ⟨t, n.log.lastIndex + 1, payload⟩ n.store).1 = .error x
  log : n'.log = n.log
  records : (contents n'.store).records = (contents n.store).records
  progress : n'.progress = n.progress

/-- One entry was added at the end, in memory and in storage, and it counts as the member's own if
the member still leads. -/
structure Added (payload : Bytes) (n : Node σ (Journal μ)) (w : Written)
    (m : Node σ (Journal μ)) : Prop where
  term : n.leaderTerm = some w.term
  index : w.index = n.log.lastIndex + 1
  entries : m.log.entries = n.log.entries ++ [⟨w.term, w.index, payload⟩]
  records : (contents m.store).records =
    (contents n.store).records ++ [⟨w.term, w.index, payload⟩]
  progress : m.progress =
    if m.leaderTerm = some w.term then n.progress.advance n.id w.index else n.progress

/-- The member has stored an entry and filed a wait for it. -/
def noted (t : Term) (payload : Bytes) (store : σ) (n : Node σ (Journal μ)) :
    Node σ (Journal μ) :=
  { n with
    log := { n.log with
      entries := n.log.entries ++ [⟨t, n.log.size, payload⟩]
      waits := (n.log.waits.register n.log.size).2 }
    store }

omit [BallotStore σ] [Reopen σ] [LawfulStore σ] [Machine μ] in
/-- The three ways that a write goes. -/
lemma write_cases (payload : Bytes) (n : Node σ (Journal μ)) :
    (n.leaderTerm = none ∧ n.write payload = (.error (.notLeader n.likelyLeader), n)) ∨
      (∃ t x store', n.leaderTerm = some t ∧
        LogStore.append ⟨t, n.log.size, payload⟩ n.store = (.error x, store') ∧
        n.write payload = (.error (.storage x), { n with store := store' })) ∨
      ∃ t i store', n.leaderTerm = some t ∧
        LogStore.append ⟨t, n.log.size, payload⟩ n.store = (.ok i, store') ∧
        n.write payload = (.ok ⟨t, n.log.size, n.log.waits.all.length⟩,
          n.noted t payload store') := by
  unfold write
  cases ht : n.leaderTerm with
  | none => exact .inl ⟨rfl, rfl⟩
  | some t =>
    dsimp only
    rcases Log.push_cases ⟨t, n.log.size, payload⟩ n.log n.store with
      ⟨i, store', ha, hp⟩ | ⟨x, store', ha, hp⟩ <;> rw [hp]
    · exact .inr (.inr ⟨t, i, store', rfl, ha, rfl⟩)
    · exact .inr (.inl ⟨t, x, store', rfl, ha, rfl⟩)

omit [BallotStore σ] [Reopen σ] [LawfulStore σ] [Machine μ] in
/-- A write that is stored is for the next index and has a wait of its own. -/
lemma write_ok (h : n.write payload = (.ok w, m)) :
    ∃ i store', LogStore.append ⟨w.term, n.log.size, payload⟩ n.store = (.ok i, store') ∧
      n.leaderTerm = some w.term ∧ w.index = n.log.size ∧ w.ticket = n.log.waits.all.length ∧
      m = n.noted w.term payload store' := by
  rcases write_cases payload n with
    ⟨-, hw⟩ | ⟨t, x, store', -, -, hw⟩ | ⟨t, i, store', hl, ha, hw⟩ <;> rw [hw] at h
  · cases (Prod.mk.inj h).1
  · cases (Prod.mk.inj h).1
  · obtain ⟨he, rfl⟩ := Prod.mk.inj h
    obtain rfl := Except.ok.inj he
    exact ⟨i, store', ha, hl, rfl, rfl, rfl⟩

omit [LogStore σ] [BallotStore σ] [Reopen σ] [LawfulStore σ] in
/-- Settling changes no entry, and a row only for a leader. -/
lemma settle_cases (w : Written) (n : Node σ (Journal μ)) :
    (n.leaderTerm = some w.term ∧ (n.settle w).progress = n.progress.advance n.id w.index ∨
      n.leaderTerm ≠ some w.term ∧ (n.settle w).progress = n.progress ∧
        (n.settle w).log.waits = n.log.waits.fail w.index) ∧
      (n.settle w).leaderTerm = n.leaderTerm ∧ (n.settle w).log.entries = n.log.entries ∧
      (n.settle w).store = n.store := by
  unfold settle
  by_cases hl : n.leaderTerm = some w.term
  · rw [if_pos hl]
    refine ⟨.inl ⟨hl, tryCommit_progress _⟩, ?_, tryCommit_entries _, tryCommit_store _⟩
    rw [leaderTerm, tryCommit_standing]
    rfl
  · rw [if_neg hl]
    exact ⟨.inr ⟨hl, rfl, rfl⟩, rfl, rfl, rfl⟩

lemma declined_of_submitAmid {inside : List Stir} {e : ClientError}
    (h : n.submitAmid payload inside = (.error e, m)) : n.Declined payload e m := by
  unfold submitAmid at h
  rcases write_cases payload n with
    ⟨hl, hw⟩ | ⟨t, x, store', hl, ha, hw⟩ | ⟨t, i, store', -, -, hw⟩ <;> rw [hw] at h
  · obtain ⟨he, rfl⟩ := Prod.mk.inj h
    exact ⟨.inl ⟨hl, (Except.error.inj he).symm⟩, rfl, rfl, rfl⟩
  · obtain ⟨he, rfl⟩ := Prod.mk.inj h
    have hshaken := stirAll_shaken inside { n with store := store' }
    refine ⟨.inr ⟨t, x, hl, (Except.error.inj he).symm, congrArg Prod.fst ha⟩, ?_, ?_, ?_⟩
    · rw [hshaken.eq]
    · rw [hshaken.records]
      dsimp only
      rw [append_error ha]
    · rw [hshaken.eq]
  · cases (Prod.mk.inj h).1

section

variable {inside : List Stir}

omit [Reopen σ] [LawfulStore σ] in
lemma submitAmid_ok (h : n.submitAmid payload inside = (.ok w, m)) :
    ∃ i store', LogStore.append ⟨w.term, n.log.size, payload⟩ n.store = (.ok i, store') ∧
      n.leaderTerm = some w.term ∧ w.index = n.log.size ∧ w.ticket = n.log.waits.all.length ∧
      n.write payload = (.ok w, n.noted w.term payload store') ∧
      m = ((n.noted w.term payload store').stirAll inside).settle w := by
  unfold submitAmid at h
  rcases hw : n.write payload with ⟨e | v, n'⟩ <;> rw [hw] at h
  · cases e <;> cases (Prod.mk.inj h).1
  · obtain ⟨he, rfl⟩ := Prod.mk.inj h
    obtain rfl := Except.ok.inj he
    obtain ⟨i, store', ha, hl, hi, htick, rfl⟩ := write_ok hw
    exact ⟨i, store', ha, hl, hi, htick, rfl, rfl⟩

lemma added_of_submitAmid (h : n.submitAmid payload inside = (.ok w, m)) :
    n.Added payload w m := by
  obtain ⟨i, store', ha, hl, hi, -, -, rfl⟩ := submitAmid_ok h
  have hshaken := stirAll_shaken inside (n.noted w.term payload store')
  obtain ⟨hprogress, hleads, hentries, hstore⟩ :=
    settle_cases w ((n.noted w.term payload store').stirAll inside)
  refine ⟨hl, hi, ?_, ?_, ?_⟩
  · rw [hentries, hshaken.eq, hi]
    rfl
  · rw [hstore, hshaken.records, hi]
    exact congrArg Memory.records (Log.contents_append ha)
  · rw [hleads]
    rcases hprogress with ⟨hl', hp⟩ | ⟨hl', hp, -⟩
    · rw [if_pos hl', hp, hshaken.eq]
      rfl
    · rw [if_neg hl', hp, hshaken.eq]
      rfl

lemma orderly_of_submitAmid (ho : n.Orderly) (h : n.submitAmid payload inside = (.ok w, m)) :
    m.Orderly := by
  obtain ⟨i, store', -, -, -, -, hw, rfl⟩ := submitAmid_ok h
  have hnoted : (n.carryOut (.write payload)).Orderly := (ho.carryOutAll [.write payload]).1
  have heq : n.carryOut (.write payload) = n.noted w.term payload store' := congrArg Prod.snd hw
  rw [heq] at hnoted
  have hstirred : ((n.noted w.term payload store').stirAll inside).Orderly := by
    have hlog : ((n.noted w.term payload store').stirAll inside).log =
        (n.noted w.term payload store').log := by
      rw [(stirAll_shaken inside (n.noted w.term payload store')).eq]
    exact ⟨hlog ▸ hnoted.steady, hlog ▸ hnoted.sound⟩
  exact (hstirred.carryOutAll [.settle w]).1

/-- Whoever has lost the lead while the entry was being stored fails the wait for it. -/
lemma failed_of_submitAmid (h : n.submitAmid payload inside = (.ok w, m)) {k : ℕ}
    (hc : (n.write payload).2.Counts inside)
    (hlost : ((n.write payload).2.stirAll (inside.take k)).leaderTerm ≠ some w.term) :
    m.leaderTerm ≠ some w.term ∧ m.log.waits.status? w.ticket = some .failed := by
  obtain ⟨i, store', -, hl, hi, htick, hw, rfl⟩ := submitAmid_ok h
  rw [hw] at hc hlost
  have hnot : ((n.noted w.term payload store').stirAll inside).leaderTerm ≠ some w.term :=
    leaderTerm_stirAll hc hl hlost
  obtain ⟨hprogress, hleads, -, -⟩ :=
    settle_cases w ((n.noted w.term payload store').stirAll inside)
  refine ⟨hleads ▸ hnot, ?_⟩
  rcases hprogress with ⟨hl', -⟩ | ⟨-, -, hwaits⟩
  · exact absurd hl' hnot
  · have hlog : ((n.noted w.term payload store').stirAll inside).log.waits =
        (n.log.waits.register n.log.size).2 := by
      rw [(stirAll_shaken inside (n.noted w.term payload store')).eq]
      rfl
    rw [hwaits, hlog, hi, htick]
    exact Waits.status?_settle_of_filed .failed (Waits.find?_register _ _)
      (Waits.status?_register _ _)

end

/-! ### Appends of one term -/

/-- A member leads one term all the time from one state to another, with these appends stored in
between. What else happens is no append that is stored, and no request of a later term that storage
does not take. -/
inductive Tenure (t : Term) : Node σ (Journal μ) → List Written → Node σ (Journal μ) → Prop
  | begins {n : Node σ (Journal μ)} : n.leaderTerm = some t → Tenure t n [] n
  | stores {n m m' : Node σ (Journal μ)} {ws : List Written} {payload : Bytes} {w : Written} :
      Tenure t n ws m → m.write payload = (.ok w, m') → Tenure t n (ws ++ [w]) m'
  | goesOn {n m m' : Node σ (Journal μ)} {ws : List Written} : Tenure t n ws m → m.Does m' →
      (∀ payload w, m.write payload ≠ (.ok w, m')) →
      (∀ r, m' = (m.receive (.appendRequest r)).2 → ¬ m.Balks r.term) →
      m'.leaderTerm = some t → Tenure t n ws m'

/-- A leader that leads on writes to its log by itself alone. -/
lemma Does.entries_of_leads {t : Term} {m' : Node σ (Journal μ)} (h : m.Does m')
    (hl : m'.leaderTerm = some t) (hno : ∀ payload w, m.write payload ≠ (.ok w, m'))
    (hb : ∀ r, m' = (m.receive (.appendRequest r)).2 → ¬ m.Balks r.term) :
    m'.log.entries = m.log.entries := by
  cases h with
  | weathers | ticks => rfl
  | writes payload =>
    rcases write_cases payload m with
      ⟨-, hw⟩ | ⟨t, x, store', -, -, hw⟩ | ⟨t, i, store', -, -, hw⟩
    · rw [hw]
    · rw [hw]
    · exact absurd (by rw [hw]) (hno payload _)
  | settles w => exact (settle_cases w m).2.2.1
  | stands =>
    rcases startElection_cases m with ⟨-, hr, -⟩ | ⟨-, store', -, hs⟩
    · exact hr.entries
    · rw [hs]
      rfl
  | counts reply => exact (countVote_cases reply m).1.entries
  | closes =>
    rcases (closeElection_cases m).2 with ⟨u, -, -, -, -, hc⟩ | hr
    · rw [hc]
      rfl
    · exact hr.entries
  | receives msg =>
    cases msg with
    | voteRequest r => exact (receiveVote_rests r m).entries
    | appendRequest r =>
      have hstep : (m.receive (.appendRequest r)).2 = (m.receiveAppend r).2 := rfl
      rw [hstep] at hl ⊢
      rcases receiveAppend_cases r m with ⟨-, hs⟩ | ⟨m₁, hy, hs⟩ <;> rw [hs] at hl ⊢
      have hrole := (yieldTo_stored hy (follow_of_not_balks (hb r rfl))).2
      cases hrole.symm.trans (leaderTerm_eq_some.mp hl).1
    | voteReply | appendReply => rfl
  | finishes r reply =>
    rcases finishRound_cases r reply m with ⟨hr, -⟩ | ⟨a, -, -, ⟨-, hs⟩ | hs⟩
    · exact hr.entries
    · rw [hs, tryCommit_entries]
    · rw [hs]
  | stepsDown t => exact (stepDown_rests t m).entries

/-- The appends that are stored while one term is led are for one index after another. -/
lemma Tenure.consecutive {t : Term} {ws : List Written} (h : Tenure t n ws m) :
    m.leaderTerm = some t ∧ m.log.lastIndex = n.log.lastIndex + ws.length ∧
      (∀ w ∈ ws, w.term = t) ∧
      ws.map (·.index) = List.range' (n.log.lastIndex + 1) ws.length := by
  induction h with
  | begins hl => exact ⟨hl, rfl, by simp, rfl⟩
  | @stores m m' ws payload w _ hw ih =>
    obtain ⟨hl, hlast, hterm, hindex⟩ := ih
    obtain ⟨i, store', -, hl', hi, -, rfl⟩ := write_ok hw
    have hnext : w.index = n.log.lastIndex + 1 + ws.length := by
      rw [hi, Nat.add_right_comm, ← hlast]
      rfl
    refine ⟨hl, ?_, ?_, ?_⟩
    · show (m.log.entries ++ [_]).length = _
      rw [List.length_append, List.length_append, ← Nat.add_assoc, ← hlast]
      rfl
    · intro v hv
      rcases List.mem_append.mp hv with hv | hv
      · exact hterm v hv
      · rw [List.mem_singleton.mp hv]
        exact Option.some.inj (hl'.symm.trans hl)
    · rw [List.map_append, hindex, List.length_append, List.length_singleton, List.range'_1_concat,
        List.map_singleton, hnext]
  | @goesOn m m' ws _ hd hno hb hl' ih =>
    obtain ⟨-, hlast, hterm, hindex⟩ := ih
    have hentries := hd.entries_of_leads hl' hno hb
    refine ⟨hl', ?_, hterm, hindex⟩
    rw [← hlast, Log.lastIndex, Log.lastIndex, hentries]

/-! ### The whole append -/

/-- **What comes of an append**, in every state that a log comes to, whatever storage does, however
the member's standing changes while the entry is being stored, and whatever happens while the client
waits. The append is declined, with nothing changed but the standing; or exactly one entry is added,
of the term that is led and behind the last one, in memory and in storage, and the client gets one
of three answers with the index of that entry. No wait of it is left in the file then. If the lead
was lost while the entry was being stored, at any time, and no candidacy began there in the last
term, the answer is that the entry is abandoned, and the member has not counted it as its own. And
as long as one term is led, the appends that are stored are for consecutive indices. -/
theorem append_outcome {n₀ : Node σ (Journal μ)} {machine : μ} {store store' : σ}
    (hopen : Log.restore ⟨machine, []⟩ store = (.ok n₀.log, store')) (tasks : List Task)
    (payload : Bytes) (inside : List Stir) :
    let n := n₀.carryOutAll tasks
    (∀ e m, n.submitAmid payload inside = (.error e, m) → n.Declined payload e m) ∧
      (∀ w m, n.submitAmid payload inside = (.ok w, m) → n.Added payload w m ∧
        ∀ meanwhile : List Task,
          let out := (m.carryOutAll meanwhile).conclude w
          (out.1 = .ok w.index ∨ out.1 = .error (.commitAborted w.index) ∨
            out.1 = .error (.commitTimeout w.index out.2.config.timing.commitWait)) ∧
          (∀ i, Table.find? i out.2.log.waits.filed ≠ some w.ticket) ∧
          ((n.write payload).2.Counts inside →
            ∀ k, ((n.write payload).2.stirAll (inside.take k)).leaderTerm ≠ some w.term →
              out.1 = .error (.commitAborted w.index) ∧ m.progress = n.progress)) ∧
      ∀ t ws m, Tenure t n ws m →
        ws.map (·.index) = List.range' (n.log.lastIndex + 1) ws.length ∧
          (∀ w ∈ ws, w.term = t) ∧ m.log.lastIndex = n.log.lastIndex + ws.length := by
  intro n
  have hstart : n₀.Orderly := by
    obtain ⟨es, hes, hl⟩ := Log.restore_ok hopen
    refine ⟨?_, ?_⟩ <;> rw [hl]
    · exact ⟨hes, le_rfl, Nat.zero_le _, rfl⟩
    · exact Waits.sound_of_filed_eq_nil rfl
  have hn : n.Orderly := (hstart.carryOutAll tasks).1
  refine ⟨fun e m h => declined_of_submitAmid h, fun w m h => ⟨added_of_submitAmid h, ?_⟩,
    fun t ws m h => ?_⟩
  · intro meanwhile out
    obtain ⟨hlater, hchanges⟩ := (orderly_of_submitAmid hn h).carryOutAll meanwhile
    refine ⟨conclude_cases w _, conclude_not_filed hlater.sound w, fun hc k hlost => ?_⟩
    obtain ⟨hnot, hfailed⟩ := failed_of_submitAmid h hc hlost
    refine ⟨conclude_of_failed (hchanges.told hfailed (by decide)), ?_⟩
    rw [(added_of_submitAmid h).progress, if_neg hnot]
  · obtain ⟨-, hlast, hterm, hindex⟩ := h.consecutive
    exact ⟨hindex, hterm, hlast⟩

/-- The only member of its cluster, once it leads. -/
def lone : Node Memory (Journal Kv) := alone.carryOutAll [.turn ⟨⟨1, some 1⟩, .leader⟩ []]

/-- A later term is seen while the entry is being stored, so that the entry is abandoned, and not
counted. Of the two entries that are stored otherwise, the second has the next index. -/
theorem append_outcome_overtaken :
    lone.submitAmid [0] [.follow 2] = (.ok ⟨1, 1, 0⟩, (lone.submitAmid [0] [.follow 2]).2) ∧
      ((lone.submitAmid [0] [.follow 2]).2.conclude ⟨1, 1, 0⟩).1 = .error (.commitAborted 1) ∧
      (lone.submitAmid [0] [.follow 2]).2.progress = lone.progress ∧
      [(⟨1, 1, 0⟩ : Written), ⟨1, 2, 1⟩].map (·.index) = List.range' 1 2 := by
  have hstart : Log.restore ⟨⟨[]⟩, []⟩ ({} : Memory) = (.ok alone.log, {}) := rfl
  obtain ⟨-, hstored, htenure⟩ :=
    append_outcome hstart [.turn ⟨⟨1, some 1⟩, .leader⟩ []] [0] [.follow 2]
  have hok : lone.submitAmid [0] [.follow 2] =
      (.ok ⟨1, 1, 0⟩, (lone.submitAmid [0] [.follow 2]).2) := rfl
  have hlost : ((lone.write [0]).2.stirAll ([.follow 2].take 1)).leaderTerm ≠ some 1 := by decide
  have hcounts : (lone.write [0]).2.Counts [.follow 2] := by
    intro k hk
    cases List.mem_singleton.mp (List.mem_of_getElem? hk)
  obtain ⟨habandoned, hrow⟩ := ((hstored _ _ hok).2 []).2.2 hcounts 1 hlost
  have hfirst : lone.write [0] = (.ok ⟨1, 1, 0⟩, (lone.write [0]).2) := rfl
  have hsecond : (lone.write [0]).2.write [1] =
      (.ok ⟨1, 2, 1⟩, ((lone.write [0]).2.write [1]).2) := rfl
  have hrun : Tenure 1 lone [⟨1, 1, 0⟩, ⟨1, 2, 1⟩] ((lone.write [0]).2.write [1]).2 :=
    .stores (.stores (.begins rfl) hfirst) hsecond
  exact ⟨hok, habandoned, hrow, (htenure 1 _ _ hrun).1⟩

end Node

end Quorum
