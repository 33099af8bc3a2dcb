import Quorum.Proofs.Members
import Quorum.Proofs.Resolutions

/-!
No member registers a position while an earlier wait for it is open.

Only a leader registers, and only the position behind its log; and nobody waits for a position
behind the log of a member that leads or may come to lead (`Node.Tidy`). For entries give way in a
follower alone, and whoever has come to follow while clients waited lets none of them wait any more
before it stands for election again: it steps down, or its election is still to be closed and is
lost by then.
-/

namespace Quorum

open Relation

/-! ### What a log does to its waits -/

namespace Log

variable {σ μ : Type}

section

variable [Machine μ]

lemma applyAll_eases (es : List Entry) (l : Log μ) :
    l.waits.Eases (es.foldl applyNext l).waits ∧ (es.foldl applyNext l).entries = l.entries := by
  induction es generalizing l with
  | nil => exact ⟨.refl _, rfl⟩
  | cons e es ih =>
    obtain ⟨hw, he⟩ := ih (l.applyNext e)
    exact ⟨(Waits.Eases.complete _ _).trans hw, he⟩

lemma commitTo_eases (i : Index) (l : Log μ) :
    l.waits.Eases (l.commitTo i).waits ∧ (l.commitTo i).entries = l.entries := by
  unfold commitTo
  split
  · exact applyAll_eases _ { l with commit := i }
  · exact ⟨.refl _, rfl⟩

end

variable [LogStore σ]

lemma place_waits (e : Entry) (l : Log μ) (store : σ) :
    (l.place e store).2.1.waits = l.waits := by
  unfold place push
  split
  · rfl
  · rcases LogStore.append e store with ⟨x | i, store'⟩ <;> rfl

lemma accept_waits (e : Entry) (l : Log μ) (store : σ) :
    (l.accept e store).2.1.waits = l.waits := by
  unfold accept dropAfter
  split
  · exact place_waits e l store
  · split_ifs
    · rfl
    · rfl
    · rcases LogStore.truncate (e.index - 1) store with ⟨x | ⟨⟩, store'⟩
      · rfl
      · exact place_waits e _ store'

lemma acceptAll_waits (es : List Entry) (l : Log μ) (store : σ) :
    (l.acceptAll es store).2.1.waits = l.waits := by
  induction es generalizing l store with
  | nil => rfl
  | cons e es ih =>
    have hone := accept_waits e l store
    rw [acceptAll]
    split <;> rename_i heq <;> rw [heq] at hone
    · exact hone
    · exact (ih _ _).trans hone

lemma follow_eases [Machine μ] (current : Term) (b : Batch) (l : Log μ) (store : σ) :
    l.waits.Eases (l.follow current b store).2.1.waits := by
  have hall := acceptAll_waits b.entries l store
  unfold follow
  split
  · exact .refl _
  · split <;> rename_i heq <;> rw [heq] at hall
    · exact hall ▸ .refl _
    · exact hall ▸ (commitTo_eases _ _).1

end Log

/-! ### What a member does to its waits -/

namespace Standing

variable {σ : Type} [BallotStore σ]

/-- Whoever is to follow comes to follow, or keeps its role in its term where that is not stored. -/
lemma follow_role (t : Term) (s : Standing) (store : σ) :
    (s.follow t store).2.1.role = .follower ∨ (s.follow t store).2.1 = s := by
  unfold follow adopt
  split
  · rcases BallotStore.writeBallot ⟨t, none⟩ store with ⟨e | ⟨⟩, store'⟩
    · exact Or.inr rfl
    · exact Or.inl rfl
  · exact Or.inl rfl

lemma cast_role (c : NodeId) (s : Standing) (store : σ) :
    (s.cast c store).2.1.role = s.role ∧ (s.cast c store).2.1.term = s.term := by
  unfold cast adopt
  split
  · exact ⟨rfl, rfl⟩
  · rcases BallotStore.writeBallot _ store with ⟨e | ⟨⟩, store'⟩ <;> exact ⟨rfl, rfl⟩

/-- A vote changes no role within a term. -/
lemma grant_role (t : Term) (c : NodeId) (s : Standing) (store : σ) :
    (s.grant t c store).2.1.role = .follower ∧ s.term < t ∨
      (s.grant t c store).2.1.role = s.role ∧ (s.grant t c store).2.1.term = s.term := by
  unfold grant adopt
  split
  · exact Or.inr ⟨rfl, rfl⟩
  · split
    · rename_i hlt
      rcases BallotStore.writeBallot ⟨t, none⟩ store with ⟨e | ⟨⟩, store'⟩
      · exact Or.inr ⟨rfl, rfl⟩
      · exact Or.inl ⟨(cast_role c _ store').1, hlt⟩
    · exact Or.inr (cast_role c s store)

end Standing

namespace Node

variable {σ μ : Type} {n n' m : Node σ μ}

/-- The waits of a member agree with their file. Nobody waits for a position behind the log of one
that leads or may come to lead, and nobody waits for one that follows unless its election is still
to be closed. -/
structure Tidy (n : Node σ μ) : Prop where
  attached : n.attached = true
  kept : n.log.waits.Kept
  within : n.role ≠ .follower →
    ∀ i t, Table.find? i n.log.waits.filed = some t → i ≤ n.log.lastIndex
  idle : n.role = .follower → n.tally = none → n.log.waits.filed = []
  stands : n.role = .candidate → ∃ k, n.tally = some k ∧ k.request.term = n.term

namespace Tidy

/-- The member does not come to stand otherwise, and its log does not get shorter. -/
lemma eases (h : n.Tidy) (ha : n'.attached = n.attached) (hk : n'.tally = n.tally)
    (hs : n'.role = n.role ∧ n'.term = n.term) (hw : n.log.waits.Eases n'.log.waits)
    (hl : n.log.lastIndex ≤ n'.log.lastIndex) : n'.Tidy where
  attached := ha.trans h.attached
  kept := hw.kept h.kept
  within hr i t hi := (h.within (hs.1 ▸ hr) i t (hw.filed i t hi)).trans hl
  idle hr ht := hw.filed_eq_nil (h.idle (hs.1 ▸ hr) (hk ▸ ht))
  stands hr := by
    rw [hk, hs.2]
    exact h.stands (hs.1 ▸ hr)

/-- Nobody waits any more, and the member is raised to no role. -/
lemma silences (h : n.Tidy) (ha : n'.attached = n.attached) (hk : n'.tally = n.tally)
    (hs : n'.role = .follower ∨ n'.role = n.role ∧ n'.term = n.term)
    (hw : n.log.waits.Eases n'.log.waits) (hf : n'.log.waits.filed = []) : n'.Tidy where
  attached := ha.trans h.attached
  kept := hw.kept h.kept
  within _ i t hi := by
    rw [hf] at hi
    cases hi
  idle _ _ := hf
  stands hr := by
    rcases hs with hs | hs
    · cases hs.symm.trans hr
    · rw [hk, hs.2]
      exact h.stands (hs.1 ▸ hr)

/-- What is counted does not matter, as long as an election is counted. -/
lemma recount (h : n.Tidy) {k k' : Tally} (hk : n.tally = some k)
    (hreq : k'.request = k.request) : Tidy { n with tally := some k' } where
  attached := h.attached
  kept := h.kept
  within := h.within
  idle _ ht := by cases ht
  stands hr := by
    obtain ⟨k₀, hk₀, hterm⟩ := h.stands hr
    obtain rfl := Option.some.inj (hk.symm.trans hk₀)
    exact ⟨k', rfl, hreq ▸ hterm⟩

end Tidy

/-! ### One step after the other -/

section

variable [Machine μ]

lemma Tidy.tryCommit (h : n.Tidy) : n.tryCommit.Tidy := by
  unfold Node.tryCommit
  split
  · exact h
  · split
    · exact h
    · rename_i i _
      obtain ⟨hw, he⟩ := Log.commitTo_eases i n.log
      exact h.eases rfl rfl ⟨rfl, rfl⟩ hw (congrArg List.length he).ge

lemma Tidy.settle (h : n.Tidy) (w : Written) : (n.settle w).Tidy := by
  unfold Node.settle
  split
  · have hcount : Tidy (callRounds { n with progress := n.progress.advance n.id w.index }) :=
      h.eases rfl rfl ⟨rfl, rfl⟩ (.refl _) le_rfl
    exact hcount.tryCommit
  · exact h.eases rfl rfl ⟨rfl, rfl⟩ (.fail _ _) le_rfl

end

lemma Tidy.giveUp (h : n.Tidy) (w : Written) : (n.giveUp w).Tidy :=
  h.eases rfl rfl ⟨rfl, rfl⟩ (.expire _ _) le_rfl

lemma Tidy.beginWait (h : n.Tidy) (w : Written) : (n.beginWait w).Tidy := by
  unfold Node.beginWait
  split
  · exact h.giveUp w
  · exact h

lemma Tidy.waitOut (h : n.Tidy) (w : Written) : (n.waitOut w).2.Tidy := by
  unfold Node.waitOut
  split
  · exact h
  · exact h.eases rfl rfl ⟨rfl, rfl⟩ (.expireAll _) le_rfl

/-- Nobody waits yet for the position behind the log of a leader. -/
lemma Tidy.size_not_mem (h : n.Tidy) (hr : n.role ≠ .follower) :
    ({ index := n.log.size } : Wait) ∉ n.log.waits.all := by
  intro hmem
  obtain ⟨t, ht⟩ := List.mem_iff_getElem?.mp hmem
  have hle := h.within hr _ t ((h.kept.exact.filed_iff _ t).mpr ht)
  exact Nat.not_succ_le_self _ hle

section

variable [LogStore σ]

lemma write_error_or_ok (payload : Bytes) (n : Node σ μ) :
    (∃ store' e, n.write payload = (.error e, { n with store := store' })) ∨
      ∃ t store', n.leaderTerm = some t ∧ n.write payload =
        (.ok ⟨t, n.log.size, n.log.waits.all.length⟩, { n with
          log := { n.log with
            entries := n.log.entries ++ [⟨t, n.log.size, payload⟩]
            waits := (n.log.waits.register n.log.size).2 }
          store := store' }) := by
  unfold write
  rcases hl : n.leaderTerm with _ | t
  · exact Or.inl ⟨n.store, _, rfl⟩
  · dsimp only
    rcases Log.push_cases ⟨t, n.log.size, payload⟩ n.log n.store with
      ⟨i, store', -, hp⟩ | ⟨x, store', -, hp⟩ <;> rw [hp]
    · exact Or.inr ⟨t, store', rfl, rfl⟩
    · exact Or.inl ⟨store', _, rfl⟩

/-- A leader that stores an entry waits for it at the end of its log. -/
lemma Tidy.write (h : n.Tidy) (payload : Bytes) : (n.write payload).2.Tidy := by
  rcases write_error_or_ok payload n with ⟨store', e, hn⟩ | ⟨t, store', hl, hn⟩
  · rw [hn]
    exact h.eases rfl rfl ⟨rfl, rfl⟩ (.refl _) le_rfl
  · rw [hn]
    have hrole := (leaderTerm_eq_some.mp hl).1
    have hlead : n.role ≠ .follower := fun hr => by cases hrole.symm.trans hr
    have hkept : (n.log.waits.register n.log.size).2.Kept :=
      h.kept.perform (.register _) (h.size_not_mem hlead)
    refine ⟨h.attached, hkept, fun _ i u hi => ?_, fun hr => absurd hr hlead, h.stands⟩
    show i ≤ (n.log.entries ++ [_]).length
    rw [List.length_append]
    change Table.find? i (Table.insert n.log.size _ _) = some u at hi
    rw [Table.find?_insert] at hi
    split at hi
    · rename_i hsize
      exact hsize.ge
    · exact (h.within hlead i u hi).trans (Nat.le_succ _)

end

section

variable [BallotStore σ]

lemma Tidy.stepDown (h : n.Tidy) (t : Term) :
    (n.stepDown t).Tidy ∧ (n.stepDown t).log.waits.filed = [] := by
  have hlog : (n.stepDown t).log = n.log.failWaits := by
    unfold Node.stepDown
    rw [h.attached]
    rfl
  have hf : (n.stepDown t).log.waits.filed = [] := by
    rw [hlog]
    exact Waits.failAll_filed _
  refine ⟨h.silences rfl rfl ?_ ?_ hf, hf⟩
  · exact (Standing.follow_role t n.standing n.store).imp_right fun hs =>
      ⟨congrArg Standing.role hs, congrArg Standing.term hs⟩
  · rw [hlog]
    exact .failAll _

/-- Whoever stands for election has followed with nobody waiting, or keeps the log that it had. -/
lemma Tidy.startElection (h : n.Tidy) : n.startElection.2.Tidy := by
  unfold Node.startElection Standing.stand Standing.adopt
  split
  · exact h
  · rename_i hk
    rcases BallotStore.writeBallot _ n.store with ⟨e | ⟨⟩, store'⟩
    · exact h.eases rfl rfl ⟨rfl, rfl⟩ (.refl _) le_rfl
    · refine ⟨h.attached, h.kept, fun _ i t hi => ?_, fun _ ht => (by cases ht),
        fun _ => ⟨_, rfl, rfl⟩⟩
      by_cases hr : n.role = .follower
      · change Table.find? i n.log.waits.filed = some t at hi
        rw [h.idle hr hk] at hi
        cases hi
      · exact h.within hr i t hi

lemma Tidy.countVote (h : n.Tidy) (reply : Except NetworkError VoteReply) :
    (n.countVote reply).Tidy := by
  unfold Node.countVote
  split
  · exact h
  · rename_i k hk
    split
    · exact h
    · dsimp only
      split
      · exact h.recount hk rfl
      · split
        · exact h.recount hk rfl
        · split
          · have hover : Tidy { n with
                tally := some { k with replies := k.replies + 1, overtaken := true } } :=
              h.recount hk rfl
            exact (hover.stepDown _).1
          · exact h.recount hk rfl

lemma Tidy.receiveVote (h : n.Tidy) (r : VoteRequest) : (n.receiveVote r).2.Tidy := by
  -- the member by the time that it looks at its log
  obtain ⟨m, hm, hmt, hmf⟩ : ∃ m, m = (if n.term < r.term then n.stepDown r.term else n) ∧ m.Tidy ∧
      (m.term < r.term → m.log.waits.filed = []) := by
    refine ⟨_, rfl, ?_⟩
    split
    · exact ⟨(h.stepDown r.term).1, fun _ => (h.stepDown r.term).2⟩
    · rename_i hlt
      exact ⟨h, fun hlt' => absurd hlt' hlt⟩
  have hgrant : ∀ standing store' resets, (m.standing.grant r.term r.candidate m.store).2 =
      (standing, store') → Tidy { m with standing, store := store', resets } := by
    intro standing store' resets heq
    have hs : (m.standing.grant r.term r.candidate m.store).2.1 = standing := congrArg Prod.fst heq
    rcases Standing.grant_role r.term r.candidate m.standing m.store with ⟨hr, hlt⟩ | hr <;>
      rw [hs] at hr
    · exact hmt.silences rfl rfl (Or.inl hr) (.refl _) (hmf hlt)
    · exact hmt.eases rfl rfl hr (.refl _) le_rfl
  unfold Node.receiveVote
  rw [← hm]
  dsimp only
  split
  · split <;> rename_i heq <;> exact hgrant _ _ _ (congrArg Prod.snd heq)
  · exact hmt

lemma Tidy.yieldTo (h : n.Tidy) {t : Term} (hy : n.yieldTo t = some m) :
    m.Tidy ∧ (m.role = .follower ∨ m.log.waits.filed = []) := by
  unfold Node.yieldTo at hy
  split_ifs at hy with h1 h2
  · obtain rfl := Option.some.inj hy
    exact ⟨(h.stepDown t).1, Or.inr (h.stepDown t).2⟩
  · split at hy
    · cases hy
    · rename_i hr
      obtain rfl := Option.some.inj hy
      exact ⟨h, Or.inl hr⟩
    -- clients may still wait, but the election is not closed yet
    · rename_i hr
      obtain rfl := Option.some.inj hy
      obtain ⟨k, hk, -⟩ := h.stands hr
      have hf : (n.standing.follow t n.store).2.1.role = .follower := by
        rw [Standing.follow, if_neg (show ¬ n.standing.term < t from h2)]
      refine ⟨⟨h.attached, h.kept, fun hne => absurd hf hne, fun _ ht => ?_, fun hc => ?_⟩,
        Or.inl hf⟩
      · cases hk.symm.trans ht
      · cases hf.symm.trans hc

end

lemma Tidy.loseElection [BallotStore σ] (h : n.Tidy) {k : Tally} (hk : n.tally = some k) :
    (n.loseElection k.request.term).Tidy where
  attached := h.attached
  kept := (Waits.Eases.failAll _).kept h.kept
  within _ i t hi := by
    change Table.find? i n.log.waits.failAll.2.filed = some t at hi
    rw [Waits.failAll_filed] at hi
    cases hi
  idle _ _ := Waits.failAll_filed _
  stands hr := by
    change (n.standing.withdraw k.request.term).2.role = .candidate at hr
    unfold Standing.withdraw at hr
    split at hr
    · cases hr
    · rename_i hne
      obtain ⟨k', hk', hterm⟩ := h.stands hr
      obtain rfl := Option.some.inj (hk.symm.trans hk')
      exact absurd ⟨hr, hterm.symm⟩ hne

lemma Tidy.closeElection [BallotStore σ] (h : n.Tidy) : n.closeElection.2.Tidy := by
  rcases hk : n.tally with _ | k
  · rw [Node.closeElection, hk]
    exact h
  · by_cases hw : n.config.majority ≤ k.votes ∧ n.role = .candidate ∧ n.term = k.request.term
    · rw [closeElection_won hk hw.1 hw.2.1 hw.2.2]
      refine ⟨h.attached, h.kept, fun _ => h.within ?_, fun hr => (by cases hr),
        fun hr => (by cases hr)⟩
      exact fun hr => by cases hw.2.1.symm.trans hr
    · rw [closeElection_lost hk hw]
      exact h.loseElection hk

variable [LogStore σ] [BallotStore σ] [Machine μ]

/-- Entries may give way in a follower, or where nobody waits. -/
lemma Tidy.receiveAppend (h : n.Tidy) (r : AppendRequest) : (n.receiveAppend r).2.Tidy := by
  rcases n.receiveAppend_cases r with ⟨-, hn⟩ | ⟨m, hy, hn⟩
  · rw [hn]
    exact h
  · rw [hn]
    obtain ⟨hm, hf⟩ := h.yieldTo hy
    have hw : m.log.waits.Eases (m.followed r).log.waits :=
      Log.follow_eases m.term r.batch m.log m.store
    rcases hf with hr | hf
    · exact ⟨hm.attached, hw.kept hm.kept, fun hne => absurd hr hne,
        fun _ ht => hw.filed_eq_nil (hm.idle hr ht), fun hc => by cases hr.symm.trans hc⟩
    · exact hm.silences rfl rfl (Or.inr ⟨rfl, rfl⟩) hw (hw.filed_eq_nil hf)

lemma Tidy.receive (h : n.Tidy) (msg : Message) : (n.receive msg).2.Tidy := by
  cases msg with
  | voteRequest r => exact h.receiveVote r
  | appendRequest r => exact h.receiveAppend r
  | voteReply | appendReply => exact h

omit [LogStore σ] in
lemma Tidy.finishRound (h : n.Tidy) (r : Round) (reply : Except NetworkError AppendReply) :
    (n.finishRound r reply).Tidy := by
  unfold Node.finishRound
  split
  · exact h
  · split_ifs
    · exact (h.stepDown _).1
    · exact h
    · have hcount : Tidy { n with
          progress := n.progress.advance r.peer r.request.lastIndex
          contacts := n.contacts.hear r.peer } := h.eases rfl rfl ⟨rfl, rfl⟩ (.refl _) le_rfl
      exact hcount.tryCommit
    · exact h.eases rfl rfl ⟨rfl, rfl⟩ (.refl _) le_rfl

omit [Machine μ] in
/-- A member starts as a follower that nobody waits for. -/
lemma restored_tidy {config : Config} {machine : μ} {store store' : σ}
    (h : restore config machine store = (.ok n, store')) : n.Tidy := by
  unfold restore Standing.restore at h
  rcases hb : BallotStore.readBallot store with ⟨e | ballot, store₁⟩ <;> rw [hb] at h
  · cases h
  · dsimp only at h
    split at h
    · cases h
    · rename_i hl
      obtain ⟨es, -, rfl⟩ := Log.restore_ok hl
      cases h
      exact ⟨rfl, ⟨[], trivial, rfl⟩, fun hr => absurd rfl hr, fun _ _ => rfl,
        fun hr => by cases hr⟩

/-- One step of a member. The parts of an append come at any time, and anything comes between. -/
inductive Acts : Node σ μ → Node σ μ → Prop
  | writes (n : Node σ μ) (payload : Bytes) : Acts n (n.write payload).2
  | settles (n : Node σ μ) (w : Written) : Acts n (n.settle w)
  | waits (n : Node σ μ) (w : Written) : Acts n (n.beginWait w)
  | givesUp (n : Node σ μ) (w : Written) : Acts n (n.giveUp w)
  | waitsOut (n : Node σ μ) (w : Written) : Acts n (n.waitOut w).2
  | stands (n : Node σ μ) : Acts n n.startElection.2
  | counts (n : Node σ μ) (reply : Except NetworkError VoteReply) : Acts n (n.countVote reply)
  | closes (n : Node σ μ) : Acts n n.closeElection.2
  | receives (n : Node σ μ) (msg : Message) : Acts n (n.receive msg).2
  | finishes (n : Node σ μ) (r : Round) (reply : Except NetworkError AppendReply) :
      Acts n (n.finishRound r reply)
  | stepsDown (n : Node σ μ) (t : Term) : Acts n (n.stepDown t)
  /-- Storage comes to fail, or to work again. -/
  | weathers (n : Node σ μ) (store : σ) : Acts n { n with store }

lemma Tidy.acts (h : n.Tidy) (ha : n.Acts n') : n'.Tidy := by
  cases ha with
  | writes payload => exact h.write payload
  | settles w => exact h.settle w
  | waits w => exact h.beginWait w
  | givesUp w => exact h.giveUp w
  | waitsOut w => exact h.waitOut w
  | stands => exact h.startElection
  | counts reply => exact h.countVote reply
  | closes => exact h.closeElection
  | receives msg => exact h.receive msg
  | finishes r reply => exact h.finishRound r reply
  | stepsDown t => exact (h.stepDown t).1
  | weathers store => exact h.eases rfl rfl ⟨rfl, rfl⟩ (.refl _) le_rfl

lemma Tidy.run (h : n.Tidy) (hr : ReflTransGen Acts n n') : n'.Tidy := by
  induction hr with
  | refl => exact h
  | tail _ hlast ih => exact ih.acts hlast

end Node

namespace Waits

/-- **Each wait is resolved once, by what is meant for it.** It is open at first, for the position
that was registered; an open wait is resolved by what `Resolves` it alone; and one that is resolved
stays as it is. If no position is registered while an earlier wait for it is open, the file is of
the open waits, one for one: completing or failing a position resolves the wait that is open for it
and no other, and failing all resolves as many as are counted and leaves none open. And no member
registers a position while an earlier wait for it is open. -/
theorem resolved_once (tasks : List WaitTask) :
    let ws := run {} tasks
    (∀ (t : Ticket) w, ws.all[t]? = some w → ∀ later, ∃ w', (ws.run later).all[t]? = some w' ∧
      w'.index = w.index ∧ (w.status ≠ .pending → w' = w)) ∧
    (∀ task (t : Ticket) w, ws.all[t]? = none → (ws.perform task).2.all[t]? = some w →
      task = .register w.index ∧ w.status = .pending ∧ (ws.perform task).1 = .ticket t) ∧
    (∀ task (t : Ticket) i s, ws.all[t]? = some { index := i } → s ≠ .pending →
      ((ws.perform task).2.all[t]? = some ⟨i, s⟩ ↔ ws.Resolves t i task s)) ∧
    (Apart {} tasks →
      (∀ i (t : Ticket), Table.find? i ws.filed = some t ↔ ws.all[t]? = some { index := i }) ∧
      (ws.filed.map Prod.snd).Perm ws.pending ∧ ws.size = ws.pending.length ∧
      (∀ i, (ws.complete i).all =
        ws.all.map fun w => if w.index = i then w.resolve .committed else w) ∧
      (∀ i, (ws.fail i).all = ws.all.map fun w => if w.index = i then w.resolve .failed else w) ∧
      ws.failAll.1 = ws.pending.length ∧
      ws.failAll.2.all = ws.all.map (Wait.resolve .failed) ∧ ws.failAll.2.pending = []) ∧
    ∀ {σ μ : Type} [LogStore σ] [BallotStore σ] [Machine μ] {config : Config} {machine : μ}
      {store store' : σ} {n₀ n : Node σ μ},
      Node.restore config machine store = (.ok n₀, store') → ReflTransGen Node.Acts n₀ n →
      n.log.waits.Kept ∧ ∀ payload w, (n.write payload).1 = .ok w →
        ({ index := w.index } : Wait) ∉ n.log.waits.all := by
  intro ws
  have hneat : ws.Neat := Exact.nil.neat.run tasks
  refine ⟨fun t w hw later => run_all hw later, fun task t w hn hw => perform_new hn hw,
    fun task t i s ht hs => hneat.resolves_iff ht hs, fun ha => ?_, ?_⟩
  · have h : ws.Exact := Exact.nil.run ha
    exact ⟨h.filed_iff, h.filed_perm_pending, h.size_eq, h.settle_all .committed,
      h.settle_all .failed, h.size_eq, h.failAll_all, h.failAll_pending⟩
  · intro σ μ _ _ _ config machine store store' n₀ n h₀ hn
    have h := (Node.restored_tidy h₀).run hn
    refine ⟨h.kept, fun payload w hw => ?_⟩
    rcases Node.write_error_or_ok payload n with ⟨store', e, hn⟩ | ⟨t, store', hl, hn⟩ <;>
      rw [hn] at hw
    · cases hw
    · obtain rfl := Except.ok.inj hw
      refine h.size_not_mem fun hr => ?_
      cases (Node.leaderTerm_eq_some.mp hl).1.symm.trans hr

/-- A position is registered anew once the wait for it is settled, and the second wait fails. -/
def reregistered : List WaitTask :=
  [.register 5, .register 7, .complete 5, .register 5, .await 1, .complete 7, .fail 5, .register 7]

/-- One of three that was just started in memory. -/
def founder : Node Memory Kv :=
  { config := ⟨1, [1, 2, 3], {}⟩, store := {}, standing := {}, log := { machine := ⟨[]⟩ } }

/-- It leads and writes two entries, and stands for election again. Another leader of the new term
has an entry of its own take the place of the first one, and the election is closed. -/
def displaced : Node Memory Kv :=
  let n := (founder.startElection.2.countVote (.ok ⟨1, true⟩)).closeElection.2
  let n := ((n.write []).2.write []).2.startElection.2
  (n.receive (.appendRequest ⟨2, 2, 0, 0, [⟨2, 1, [9]⟩], 0⟩)).2.closeElection.2

/-- It leads once more. -/
def returned : Node Memory Kv :=
  (displaced.startElection.2.countVote (.ok ⟨3, true⟩)).closeElection.2

/-- Both clients were told that their entries are lost before the second position is registered
anew. -/
theorem resolved_once_reregistered :
    Apart {} reregistered ∧
    (run {} reregistered).all = [⟨5, .committed⟩, ⟨7, .timedOut⟩, ⟨5, .failed⟩, ⟨7, .pending⟩] ∧
    (run {} reregistered).size = 1 ∧ (run {} reregistered).pending = [3] ∧
    Node.restore ⟨1, [1, 2, 3], {}⟩ ⟨[]⟩ ({} : Memory) = (.ok founder, {}) ∧
    ReflTransGen Node.Acts founder returned ∧
    returned.log.waits.all = [⟨1, .failed⟩, ⟨2, .failed⟩] ∧
    (returned.write []).1 = .ok ⟨3, 2, 2⟩ ∧ ({ index := 2 } : Wait) ∉ returned.log.waits.all := by
  have hapart : Apart {} reregistered := by decide
  have hstart : Node.restore ⟨1, [1, 2, 3], {}⟩ ⟨[]⟩ ({} : Memory) = (.ok founder, {}) := rfl
  have hacts : ReflTransGen Node.Acts founder returned := by
    refine .trans (b := displaced) ?_ ?_
    · have hled := ((ReflTransGen.single (Node.Acts.stands founder)).tail
        (.counts _ (.ok ⟨1, true⟩))).tail (.closes _)
      have hwrote := (hled.tail (.writes _ [])).tail (.writes _ [])
      exact ((hwrote.tail (.stands _)).tail (.receives _ _)).tail (.closes _)
    · exact ((ReflTransGen.single (.stands displaced)).tail (.counts _ _)).tail (.closes _)
  obtain ⟨-, -, -, hexact, hmember⟩ := resolved_once reregistered
  obtain ⟨-, -, hsize, -⟩ := hexact hapart
  obtain ⟨-, hfresh⟩ := hmember hstart hacts
  exact ⟨hapart, rfl, hsize, rfl, hstart, hacts, rfl, rfl, hfresh [] ⟨3, 2, 2⟩ rfl⟩

end Waits

end Quorum
