import Quorum.Proofs.Elections

/-!
What a step does to a running member, where every leader's request was sent by a leader.

`Moves` lists the ways in which one state of a member follows another. The log changes in two of
them: a leader adds an entry for a client, and a member follows a leader's request.
-/

namespace Quorum

open LawfulStore

namespace History

variable {σ μ : Type} [LogStore σ] [BallotStore σ] [Reopen σ] [LawfulStore σ] [Machine μ]

/-- No leader's request is made up, no election begins in the last term, and no member that makes
way for a leader fails to store the leader's term. Other ballots need not be stored. -/
structure IsRegular (x : History σ μ) : Prop where
  genuine : ∀ k, (x.acts k).IsGenuine
  counted : ∀ k, x.CountsTo k
  stored : ∀ k i c n, x.acts k = .deliver i → (x.world k).rounds[i]? = some c →
    x.node? k c.peer = some n → n.term < c.request.term →
    (n.standing.follow c.request.term n.store).1 = .ok ()

lemma IsRegular.term_le {x : History σ μ} (hx : x.IsRegular) {j k : ℕ} (hjk : j ≤ k)
    (a : NodeId) : (x.ballot j a).term ≤ (x.ballot k a).term :=
  History.term_le (hx.counted k) hjk a

lemma IsRegular.unique {x : History σ μ} (hx : x.IsRegular) {j k : ℕ} {a b : NodeId} {t : Term}
    (ha : x.Leads j a t) (hb : x.Leads k b t) : a = b :=
  ha.unique (hx.counted (max j k)) (le_max_left j k) (le_max_right j k) hb

/-- Where every ballot can be stored nothing is asked of the writes. -/
lemma isRegular_of_writes {x : History σ μ} (hg : ∀ k, (x.acts k).IsGenuine)
    (hc : ∀ k, x.CountsTo k)
    (hw : ∀ (b : Ballot) (store : σ), (BallotStore.writeBallot b store).1 = .ok ()) :
    x.IsRegular where
  genuine := hg
  counted := hc
  stored k i c n _ _ _ hlt := by
    have hlt' : n.standing.term < c.request.term := hlt
    have hok := hw ⟨c.request.term, none⟩ n.store
    rw [Standing.follow, if_pos hlt', Standing.adopt]
    rcases hb : BallotStore.writeBallot ⟨c.request.term, none⟩ n.store with ⟨e | ⟨⟩, store'⟩
    · rw [hb] at hok
      cases hok
    · rfl

lemma play_isRegular (ids : List NodeId) {script : List (Action Kv)}
    (h : ∀ act ∈ script, act.IsGenuine)
    (hlast : ∀ k < script.length, ∀ a ∈ ids, ¬ ((play ids script).ballot k a).term.IsLast) :
    (play ids script).IsRegular := by
  refine isRegular_of_writes (fun k => ?_) (fun _ => play_countsTo hlast) fun _ _ => rfl
  rw [play_acts]
  cases hk : script[k]? with
  | none => exact trivial
  | some act => exact h act (List.mem_of_getElem? hk)

/-- The step in which a member makes way for the sender of a request, as `m`, and follows it. -/
structure Follows (x : History σ μ) (k : ℕ) (a : NodeId) (c : Call AppendRequest AppendReply)
    (n m : Node σ (Journal μ)) : Prop where
  mem : c ∈ (x.world k).rounds
  peer : c.peer = a
  node : x.node? k a = some n
  yields : n.yieldTo c.request.term = some m
  term : m.term = c.request.term
  role : m.role = .follower
  next : x.node? (k + 1) a = some (m.followed c.request)

/-- The ways in which one state of a running member follows another. -/
inductive Moves (x : History σ μ) (k : ℕ) (a : NodeId) (n : Node σ (Journal μ)) :
    Node σ (Journal μ) → Prop
  | rests (n') : n.Rests n' → Moves x k a n n'
  | stands (store' : σ) :
      contents store' = { contents n.store with ballot := ⟨n.term.next, some n.id⟩ } →
      Moves x k a n (n.stood store')
  | leads (tl) : x.TakesOffice k a n.term n tl →
      Moves x k a n (n.takeOffice { n.standing with role := .leader })
  | writes (t) (payload : Bytes) {i : Index} (store' : σ) : n.leaderTerm = some t →
      LogStore.append ⟨t, n.log.size, payload⟩ n.store = (.ok i, store') →
      Moves x k a n (n.wrote t payload store').tryCommit
  | learns (c) (reply) : c ∈ (x.world k).rounds → c.caller = a → reply ∈ c.replies →
      reply.success = true → n.leaderTerm = some c.request.term →
      Moves x k a n (Node.tryCommit { n with
        progress := n.progress.advance c.peer c.request.lastIndex
        contacts := n.contacts.hear c.peer })
  | retries (p : NodeId) : Moves x k a n { n with progress := n.progress.backOff p }
  | follows (c) (m) : x.Follows k a c n m → Moves x k a n (m.followed c.request)

variable {x : History σ μ} {k : ℕ} {a : NodeId} {n n' : Node σ (Journal μ)}

/-- A request that reaches a member which makes way is followed. -/
lemma IsRegular.follows (hx : x.IsRegular) {i : ℕ} {c : Call AppendRequest AppendReply}
    {m : Node σ (Journal μ)} (hact : x.acts k = .deliver i) (hc : (x.world k).rounds[i]? = some c)
    (hn : x.node? k c.peer = some n) (hy : n.yieldTo c.request.term = some m)
    (hn' : x.node? (k + 1) c.peer = some (m.followed c.request)) : x.Follows k c.peer c n m := by
  obtain ⟨hterm, hrole⟩ := Node.yieldTo_stored hy (hx.stored k i c n hact hc hn)
  exact ⟨List.mem_of_getElem? hc, rfl, hn, hy, hterm, hrole, hn'⟩

/-- A member that runs was started in the step before, with what it has stored, or it has moved. -/
lemma node_cases (hx : x.IsRegular) (hn' : x.node? (k + 1) a = some n') :
    (∃ c store m, contents store = x.stored k a ∧ n' = Host.fresh c store m) ∨
      ∃ n, x.node? k a = some n ∧ Moves x k a n n' := by
  rcases x.host_cases k a with hs | ⟨g, g', hg, hg', hd, -⟩
  · refine Or.inr ⟨n', node?_eq_some.mpr (hs.symm.trans (node?_eq_some.mp hn')), ?_⟩
    exact .rests n' (.refl n')
  · obtain rfl : g' = .up n' := Option.some.inj (hg'.symm.trans (node?_eq_some.mp hn'))
    have hf := fit k hg
    have hgen := hx.genuine k
    generalize hact : x.acts k = act at hd hgen
    generalize hnext : Host.up n' = g' at hd
    cases hd with
    | boot _ m =>
      obtain ⟨store', hc, ⟨j, hb⟩ | ⟨-, hb⟩⟩ := Host.boot_cases m hf.numbered
      · rw [hb] at hnext
        cases hnext
      · rw [hb] at hnext
        obtain rfl := Host.up.inj hnext
        exact Or.inl ⟨_, _, _, hc.trans (stored_of_host hg).symm, rfl⟩
    | crash => cases hnext
    | stand _ n =>
      obtain rfl := Host.up.inj hnext
      refine Or.inr ⟨n, node?_eq_some.mpr hg, ?_⟩
      rcases n.startElection_cases with ⟨-, hr, -⟩ | ⟨ht, store', hc, hs⟩
      · exact .rests _ hr
      · rw [hs]
        exact .stands store' hc
    | poll i c n =>
      obtain rfl := Host.up.inj hnext
      exact Or.inr ⟨n, node?_eq_some.mpr hg, .rests _ (n.receiveVote_rests _)⟩
    | count i pick c n =>
      obtain rfl := Host.up.inj hnext
      exact Or.inr ⟨n, node?_eq_some.mpr hg, .rests _ (n.countVote_cases _).1⟩
    | close _ n =>
      obtain rfl := Host.up.inj hnext
      refine Or.inr ⟨n, node?_eq_some.mpr hg, ?_⟩
      obtain ⟨-, ⟨tl, ht, hm, hr, hterm, hc⟩ | hr⟩ := n.closeElection_cases
      · rw [hc]
        rw [hc] at hn'
        exact .leads tl ⟨node?_eq_some.mpr hg, ht, hm, hr, rfl, hterm.symm, hn'⟩
      · exact .rests _ hr
    | deliver i c n hc =>
      obtain rfl := Host.up.inj hnext
      refine Or.inr ⟨n, node?_eq_some.mpr hg, ?_⟩
      rcases n.receiveAppend_cases c.request with ⟨-, hr⟩ | ⟨m, hy, hr⟩
      · rw [hr]
        exact .rests _ (.refl n)
      · rw [hr]
        rw [hr] at hn'
        exact .follows c m (hx.follows hact hc (node?_eq_some.mpr hg) hy hn')
    | finish i pick c n hc hw =>
      obtain rfl := Host.up.inj hnext
      refine Or.inr ⟨n, node?_eq_some.mpr hg, ?_⟩
      rcases n.finishRound_cases ⟨c.peer, c.request⟩ (c.answer pick) with
        ⟨hr, -⟩ | ⟨reply, ha, hl, ⟨hok, hr⟩ | hr⟩
      · exact .rests _ hr
      · rw [hr]
        exact .learns c reply (List.mem_of_getElem? hc) rfl (Call.mem_of_answer ha) hok hl
      · rw [hr]
        exact .retries c.peer
    | submit _ payload n =>
      obtain rfl := Host.up.inj hnext
      refine Or.inr ⟨n, node?_eq_some.mpr hg, ?_⟩
      rcases n.submit_cases payload with ⟨e, store', hs, hr⟩ | ⟨t, i, store', hl, ha, hs⟩
      · rw [hs]
        exact .rests _ (Node.rests_of_unwritten hr)
      · rw [hs]
        exact .writes t payload store' hl ha
    | giveUp _ wr n =>
      obtain rfl := Host.up.inj hnext
      exact Or.inr ⟨n, node?_eq_some.mpr hg, .rests _ (n.giveUp_rests wr)⟩
    | stepDown _ t n =>
      obtain rfl := Host.up.inj hnext
      exact Or.inr ⟨n, node?_eq_some.mpr hg, .rests _ (n.stepDown_rests t)⟩
    | hand _ m n =>
      obtain rfl := Host.up.inj hnext
      refine Or.inr ⟨n, node?_eq_some.mpr hg, ?_⟩
      cases m with
      | voteRequest r => exact .rests _ (n.receiveVote_rests r)
      | appendRequest r => exact absurd hgen id
      | voteReply | appendReply => exact .rests _ (.refl n)

/-- What a member that does not run has stored is what it had stored before. -/
lemma stored_of_down (h : x.node? (k + 1) a = none) : x.stored (k + 1) a = x.stored k a := by
  rcases x.host_cases k a with hs | ⟨g, g', hg, hg', -, ht⟩
  · exact stored_congr hs
  · have hdown : ∀ n, g' ≠ .up n := by
      rintro n rfl
      rw [node?_eq_some.mpr hg'] at h
      cases h
    rw [stored_of_host hg, stored_of_host hg']
    cases ht with
    | falls store' j hc => exact hc
    | starts | goes | stands | leads => exact absurd rfl (hdown _)

end History

end Quorum
