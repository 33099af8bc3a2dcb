import Quorum.Proofs.Moves

/-!
Log matching: two logs that agree on the term of a position agree up to there.

The log of a leader only grows while it leads, so the logs of a term's leader at any two times are
comparable. Every entry of every log stands where the leader of its term once had it, behind the
same entries (`Rooted`). Such logs match, and requests, which are slices of a leader's log, keep
them so.
-/

namespace Quorum

open LawfulStore

/-- Terms never fall along the log, and none is above the given one. -/
structure Ordered (es : List Entry) (t : Term) : Prop where
  pairwise : es.Pairwise fun e f => e.term ≤ f.term
  bound : ∀ e ∈ es, e.term ≤ t

namespace Ordered

variable {es fs : List Entry} {t u : Term}

lemma nil (t : Term) : Ordered [] t := ⟨.nil, fun _ h => by cases h⟩

lemma mono (h : Ordered es t) (htu : t ≤ u) : Ordered es u :=
  ⟨h.pairwise, fun e he => (h.bound e he).trans htu⟩

lemma of_isPrefix (h : Ordered fs t) (hp : es <+: fs) : Ordered es t :=
  ⟨h.pairwise.sublist hp.sublist, fun e he => h.bound e (hp.subset he)⟩

lemma snoc (h : Ordered es t) {e : Entry} (he : e.term = t) : Ordered (es ++ [e]) t := by
  refine ⟨List.pairwise_append.mpr ⟨h.pairwise, List.pairwise_singleton _ _, ?_⟩, ?_⟩
  · intro f hf g hg
    rw [List.mem_singleton.mp hg, he]
    exact h.bound f hf
  · intro f hf
    rcases List.mem_append.mp hf with hf | hf
    · exact h.bound f hf
    · rw [List.mem_singleton.mp hf, he]

end Ordered

namespace History

variable {σ μ : Type} [LogStore σ] [BallotStore σ] [Reopen σ] [LawfulStore σ] [Machine μ]
variable {x : History σ μ} {k : ℕ} {a b : NodeId} {t : Term} {n n' : Node σ (Journal μ)}

lemma leads_of_node (hn : x.node? k a = some n) : x.Leads k a t ↔ n.leaderTerm = some t := by
  refine ⟨fun ⟨m, hm, hl⟩ => ?_, fun h => ⟨n, hn, h⟩⟩
  rw [hn] at hm
  exact Option.some.inj hm ▸ hl

/-- A step may leave a log as it is, add an entry of the leader's own, or follow a request. -/
lemma log_cases (hx : x.IsRegular) (k : ℕ) (a : NodeId) :
    x.log (k + 1) a = x.log k a ∨
      (∃ t payload, x.Leads k a t ∧ x.Leads (k + 1) a t ∧
        x.log (k + 1) a = x.log k a ++ [⟨t, (x.log k a).length + 1, payload⟩]) ∨
      ∃ c n m, x.Follows k a c n m := by
  cases hn' : x.node? (k + 1) a with
  | none => exact Or.inl (by rw [log, stored_of_down hn', log])
  | some n' =>
    rcases node_cases hx hn' with ⟨c, store, m, hc, rfl⟩ | ⟨n, hn, hm⟩
    · refine Or.inl ?_
      rw [log_of_node hn', log, ← hc]
      rfl
    · rw [log_of_node hn', log_of_node hn]
      cases hm with
      | rests _ hr => exact Or.inl hr.entries
      | stands | leads | retries => exact Or.inl rfl
      | learns => exact Or.inl (Node.tryCommit_entries _)
      | writes t payload store' hl hc =>
        refine Or.inr (Or.inl ⟨t, payload, ⟨n, hn, hl⟩, ⟨_, hn', ?_⟩, Node.tryCommit_entries _⟩)
        rw [Node.leaderTerm, Node.tryCommit_standing]
        exact hl
      | follows c m h => exact Or.inr (Or.inr ⟨c, n, m, h⟩)

/-! ### Entries and where they come from -/

/-- By that time, the leader of each entry's term had it in this place, behind the same entries. -/
def Rooted (x : History σ μ) (k : ℕ) (es : List Entry) : Prop :=
  ∀ i e, es[i]? = some e → ∃ j ≤ k, ∃ c, x.Leads j c e.term ∧ es.take (i + 1) <+: x.log j c

variable {es fs : List Entry}

lemma Rooted.mono {j k : ℕ} (hjk : j ≤ k) (h : x.Rooted j es) : x.Rooted k es := by
  intro i e he
  obtain ⟨l, hl, hc⟩ := h i e he
  exact ⟨l, hl.trans hjk, hc⟩

lemma Rooted.of_isPrefix (h : x.Rooted k fs) (hp : es <+: fs) : x.Rooted k es := by
  intro i e he
  have hlt := (List.getElem?_eq_some_iff.mp he).1
  have hi : fs[i]? = some e := by
    rw [← he, List.prefix_iff_eq_take.mp hp, List.getElem?_take_of_lt hlt]
  obtain ⟨j, hj, c, hl, hpre⟩ := h i e hi
  refine ⟨j, hj, c, hl, ?_⟩
  rw [← take_eq_of_isPrefix hp hlt]
  exact hpre

/-- A leader's new entry is rooted in its own log. -/
lemma Rooted.snoc (h : x.Rooted k es) {e : Entry} (hl : x.Leads (k + 1) a e.term)
    (hlog : x.log (k + 1) a = es ++ [e]) : x.Rooted (k + 1) (es ++ [e]) := by
  intro i f hf
  rcases of_getElem?_snoc hf with hf | ⟨-, rfl⟩
  · obtain ⟨j, hj, hc⟩ := h i f hf
    rw [List.take_append_of_le_length (List.getElem?_eq_some_iff.mp hf).1]
    exact ⟨j, Nat.le_succ_of_le hj, hc⟩
  · exact ⟨k + 1, le_rfl, a, hl, hlog ▸ List.take_prefix _ _⟩

/-! ### Requests and their answers -/

/-- What is known of a request that its sender sent at time `j`, as `n`: it is a slice of the log
that `n` led its term with, and whoever accepted it has held all of that log in that term. -/
structure Sent (x : History σ μ) (k : ℕ) (c : Call AppendRequest AppendReply) (j : ℕ)
    (n : Node σ (Journal μ)) : Prop where
  le : j ≤ k
  node : x.node? j c.caller = some n
  leads : n.leaderTerm = some c.request.term
  slice : c.request.batch.Slice n.log.entries
  commit : c.request.commit = n.log.commit
  replies : ∀ r ∈ c.replies, r.success = true →
    ∃ i ≤ k, (x.ballot i c.peer).term = c.request.term ∧ n.log.entries <+: x.log i c.peer

lemma Sent.leads_log {c : Call AppendRequest AppendReply} {j : ℕ} (h : x.Sent k c j n) :
    x.Leads j c.caller c.request.term ∧ x.log j c.caller = n.log.entries :=
  ⟨⟨n, h.node, h.leads⟩, log_of_node h.node⟩

/-- A call goes on in a step, in which its peer may have answered. -/
structure Continues (x : History σ μ) (k : ℕ) (c c' : Call AppendRequest AppendReply) : Prop where
  mem : c ∈ (x.world k).rounds
  after : c.After c'
  replies : ∀ r ∈ c'.replies, r ∈ c.replies ∨ (r.success = true →
    ∃ n m, x.Follows k c.peer c n m ∧ n.refusal? c.request = none)

/-- A peer that accepts a request has followed it without its log refusing. -/
lemma continues_of_delivered (hx : x.IsRegular) {i : ℕ} (hact : x.acts k = .deliver i)
    {c : Call AppendRequest AppendReply} (hc : (x.world k).rounds[i]? = some c) :
    x.Continues k c (c.reply (((x.world k).cluster.node? c.peer).map
      fun n => (n.receiveAppend c.request).1)) := by
  refine ⟨List.mem_of_getElem? hc, c.reply_after _, fun r hr => ?_⟩
  rcases List.mem_append.mp hr with hr | hr
  · exact Or.inl hr
  · obtain ⟨n, hn, rfl⟩ := Option.map_eq_some_iff.mp (Option.mem_toList.mp hr)
    refine Or.inr fun hok => ?_
    have hcl : (x.world (k + 1)).cluster =
        (x.world k).cluster.modify c.peer fun n => (n.receiveAppend c.request).2 := by
      rw [world, hact]
      simp only [World.perform, hc]
      rfl
    have hn' := node?_change hcl hn
    rcases n.receiveAppend_cases c.request with ⟨-, hr⟩ | ⟨m, hy, hr⟩
    · rw [hr] at hok
      cases hok
    · rw [hr] at hok hn'
      exact ⟨n, m, hx.follows hact hc hn hy hn', Option.isNone_iff_eq_none.mp hok⟩

/-- A call was there before, or it was sent in this step. -/
lemma rounds_cases (hx : x.IsRegular) (k : ℕ) {c' : Call AppendRequest AppendReply}
    (hc' : c' ∈ (x.world (k + 1)).rounds) :
    (∃ c, x.Continues k c c') ∨
    ∃ n peer r, x.node? k c'.caller = some n ∧ n.startRound peer = some r ∧
      c'.request = r.request ∧ c'.replies = [] := by
  have hsame : c' ∈ (x.world k).rounds → ∃ c, x.Continues k c c' :=
    fun h => ⟨c', h, .refl _, fun r hr => Or.inl hr⟩
  have hdrop : ∀ id, c' ∈ (x.world k).rounds.map (Call.drop id) → ∃ c, x.Continues k c c' := by
    intro id h
    obtain ⟨c, hc, rfl⟩ := List.mem_map.mp h
    exact ⟨c, hc, c.drop_after id, fun r hr => Or.inl (by simpa using hr)⟩
  have hmodify : ∀ (i : ℕ) f, c' ∈ (x.world k).rounds.modify i f →
      c' ∈ (x.world k).rounds ∨ ∃ c, (x.world k).rounds[i]? = some c ∧ c' = f c := by
    intro i f h
    obtain ⟨j, hj⟩ := List.mem_iff_getElem?.mp h
    rw [List.getElem?_modify] at hj
    obtain ⟨c, hc, rfl⟩ := Option.map_eq_some_iff.mp hj
    split
    · rename_i hij
      exact Or.inr ⟨c, hij ▸ hc, rfl⟩
    · exact Or.inl (List.mem_of_getElem? hc)
  rw [show x.world (k + 1) = (x.world k).perform (x.acts k) from rfl] at hc'
  cases hact : x.acts k with
  | boot id m =>
    rw [hact] at hc'
    exact Or.inl (hdrop id hc')
  | crash id =>
    rw [hact] at hc'
    exact Or.inl (hdrop id hc')
  | send id peer =>
    rw [hact] at hc'
    rcases List.mem_append.mp hc' with hc' | hc'
    · exact Or.inl (hsame hc')
    · refine Or.inr ?_
      unfold World.sent at hc'
      split at hc'
      · cases hc'
      · rename_i n hn
        split at hc'
        · cases hc'
        · rename_i r hr
          rw [List.mem_singleton.mp hc']
          exact ⟨n, peer, r, hn, hr, rfl, rfl⟩
  | deliver i =>
    rw [hact] at hc'
    simp only [World.perform] at hc'
    split at hc'
    · exact Or.inl (hsame hc')
    · rename_i c hc
      rcases hmodify i _ hc' with h | ⟨d, hd, rfl⟩
      · exact Or.inl (hsame h)
      · obtain rfl := Option.some.inj (hc.symm.trans hd)
        exact Or.inl ⟨c, continues_of_delivered hx hact hc⟩
  | finish i pick =>
    rw [hact] at hc'
    simp only [World.perform] at hc'
    split at hc'
    · exact Or.inl (hsame hc')
    · split at hc'
      · rcases hmodify i _ hc' with h | ⟨d, hd, rfl⟩
        · exact Or.inl (hsame h)
        · exact Or.inl ⟨d, List.mem_of_getElem? hd, d.hangUp_after, fun r hr => Or.inl hr⟩
      · exact Or.inl (hsame hc')
  | poll i =>
    rw [hact] at hc'
    simp only [World.perform] at hc'
    split at hc' <;> exact Or.inl (hsame hc')
  | count i pick =>
    rw [hact] at hc'
    simp only [World.perform] at hc'
    split at hc'
    · exact Or.inl (hsame hc')
    · split at hc' <;> exact Or.inl (hsame hc')
  | stand | close | submit | giveUp | stepDown | hand =>
    rw [hact] at hc'
    exact Or.inl (hsame hc')

/-! ### Leaders' logs -/

namespace Follows

variable {c : Call AppendRequest AppendReply} {m : Node σ (Journal μ)}

lemma ballot_term (h : x.Follows k a c n m) : (x.ballot (k + 1) a).term = c.request.term :=
  (congrArg Ballot.term (ballot_of_node h.next)).trans h.term

/-- Whoever follows leads nothing. -/
lemma not_leads (h : x.Follows k a c n m) (t : Term) : ¬ x.Leads (k + 1) a t := by
  intro hl
  have hlead := (Node.leaderTerm_eq_some.mp ((leads_of_node h.next).mp hl)).1
  cases hlead.symm.trans h.role

/-- Following a request leaves the log as it is or makes it a beginning of the sender's. Unless the
log refuses, all of the sender's log is in it. -/
lemma spliced (h : x.Follows k a c n m) {j : ℕ} {s : Node σ (Journal μ)} (hs : x.Sent k c j s)
    (hag : Log.Agree (x.log k a) s.log.entries) :
    Log.Spliced s.log.entries (x.log k a) (x.log (k + 1) a) ∧
      (n.refusal? c.request = none → s.log.entries <+: x.log (k + 1) a) := by
  have hnum := (fit_node hs.node).1.sound.numbered
  rw [log_of_node h.node, ← (Node.yieldTo_some h.yields).1.entries] at hag ⊢
  rw [log_of_node h.next]
  obtain ⟨hsp, hcases⟩ := Log.follow_slice hnum hag hs.slice m.term m.store
  refine ⟨hsp, fun hnone => ?_⟩
  rcases hcases with ⟨-, hpre, -⟩ | ⟨⟨r, hr, -⟩, -⟩
  · exact hpre
  · rw [Node.refusal?_eq_some.mpr ⟨m, h.yields, hr⟩] at hnone
    cases hnone

end Follows

lemma log_prefix_succ (hx : x.IsRegular) (h : x.Leads (k + 1) a t) :
    x.log k a <+: x.log (k + 1) a := by
  rcases x.log_cases hx k a with hs | ⟨u, payload, -, -, hs⟩ | ⟨c, n, m, hf⟩
  · rw [hs]
  · rw [hs]
    exact List.prefix_append _ _
  · exact absurd h (hf.not_leads t)

/-- The log of a leader only grows. -/
lemma Leads.log_isPrefix (hx : x.IsRegular) {j k : ℕ} (hjk : j ≤ k) (hj : x.Leads j a t)
    (hk : x.Leads k a t) : x.log j a <+: x.log k a := by
  obtain ⟨i, -, n, tl, -, hbefore, hafter⟩ := hk.office (hx.counted k)
  have hij : i < j := Nat.lt_of_not_le fun hle => hbefore j hle hj
  induction k, hjk using Nat.le_induction with
  | base => exact List.prefix_rfl
  | succ k hjk ih =>
    have hk' := hafter k (hij.trans_le hjk) (Nat.le_succ k)
    exact (ih hk' fun m h1 h2 => hafter m h1 (Nat.le_succ_of_le h2)).trans (log_prefix_succ hx hk)

/-- Of a term's leader, one log is the beginning of another. -/
lemma Leads.log_comparable (hx : x.IsRegular) {j k : ℕ} (hj : x.Leads j a t)
    (hk : x.Leads k b t) : x.log j a <+: x.log k b ∨ x.log k b <+: x.log j a := by
  obtain rfl := hx.unique hj hk
  rcases Nat.le_total j k with h | h
  · exact Or.inl (hj.log_isPrefix hx h hk)
  · exact Or.inr (hk.log_isPrefix hx h hj)

/-- Rooted logs match. -/
lemma Rooted.agree (hx : x.IsRegular) {j k : ℕ} (he : x.Rooted j es) (hf : x.Rooted k fs) :
    Log.Agree es fs := by
  have key : ∀ {ps qs gs : List Entry}, ps <+: gs → qs <+: gs → ps.length = qs.length →
      ps = qs := fun hp hq hlen =>
    (List.prefix_of_prefix_length_le hp hq hlen.le).eq_of_length hlen
  intro i e f hei hfi hterm
  obtain ⟨j, -, c, hc, hce⟩ := he i e hei
  obtain ⟨k, -, d, hd, hdf⟩ := hf i f hfi
  have hlen : (es.take (i + 1)).length = (fs.take (i + 1)).length := by
    have h1 := (List.getElem?_eq_some_iff.mp hei).1
    have h2 := (List.getElem?_eq_some_iff.mp hfi).1
    rw [List.length_take, List.length_take, min_eq_left h1, min_eq_left h2]
  rw [hterm] at hc
  rcases hc.log_comparable hx hd with hcd | hcd
  · exact key (hce.trans hcd) hdf hlen
  · exact key hce (hdf.trans hcd) hlen

/-! ### Following a leader -/

/-- At every time all logs are rooted, and every request is a slice of a leader's log. -/
lemma rooted_and_sent (hx : x.IsRegular) (k : ℕ) :
    (∀ j ≤ k, ∀ a, x.Rooted j (x.log j a)) ∧
      ∀ c ∈ (x.world k).rounds, ∃ j n, x.Sent k c j n := by
  induction k with
  | zero =>
    refine ⟨fun j hj a => ?_, fun c hc => ?_⟩
    · obtain rfl := Nat.le_zero.mp hj
      intro i e he
      rw [x.log_zero a] at he
      cases he
    · rw [show (x.world 0).rounds = [] from x.isNew.rounds] at hc
      cases hc
  | succ k ih =>
    obtain ⟨hroot, hsent⟩ := ih
    have hagree : ∀ {c : Call AppendRequest AppendReply} {j : ℕ} {n : Node σ (Journal μ)},
        x.Sent k c j n → ∀ a, Log.Agree (x.log k a) n.log.entries := fun hs a =>
      (hroot k le_rfl a).agree hx (hs.leads_log.2 ▸ hroot _ hs.le _)
    refine ⟨fun j hj a => ?_, fun c' hc' => ?_⟩
    · rcases Nat.le_succ_iff.mp hj with hj | rfl
      · exact hroot j hj a
      · rcases log_cases hx k a with hs | ⟨t, payload, -, hl, hs⟩ | ⟨c, n, m, hf⟩
        · rw [hs]
          exact (hroot k le_rfl a).mono (Nat.le_succ k)
        · rw [hs]
          exact (hroot k le_rfl a).snoc hl hs
        · obtain ⟨j, s, hs⟩ := hsent c hf.mem
          rcases (hf.spliced hs (hagree hs a)).1.eq_or_isPrefix with h | h
          · rw [h]
            exact (hroot k le_rfl a).mono (Nat.le_succ k)
          · have hsr := hroot j hs.le c.caller
            rw [hs.leads_log.2] at hsr
            exact (hsr.of_isPrefix h).mono (Nat.le_succ_of_le hs.le)
    · rcases rounds_cases hx k hc' with ⟨c, hc⟩ | ⟨n, peer, r, hn, hr, hreq, hrep⟩
      · obtain ⟨j, n, hs⟩ := hsent c hc.mem
        refine ⟨j, n, Nat.le_succ_of_le hs.le, ?_, ?_, ?_, ?_, fun r hr hok => ?_⟩
        · exact hc.after.caller ▸ hs.node
        · exact hc.after.request ▸ hs.leads
        · exact hc.after.request ▸ hs.slice
        · exact hc.after.request ▸ hs.commit
        · rw [hc.after.peer, hc.after.request]
          rcases hc.replies r hr with hr | hnew
          · obtain ⟨i, hi, hi'⟩ := hs.replies r hr hok
            exact ⟨i, Nat.le_succ_of_le hi, hi'⟩
          · obtain ⟨m, m', hf, hnone⟩ := hnew hok
            exact ⟨k + 1, le_rfl, hf.ballot_term, (hf.spliced hs (hagree hs c.peer)).2 hnone⟩
      · obtain ⟨h1, h2, h3⟩ := Node.startRound_slice (fit_node hn).1.sound.commit_le hr
        refine ⟨k, n, Nat.le_succ k, hn, hreq ▸ h1, hreq ▸ h2, hreq ▸ h3, fun r hr => ?_⟩
        rw [hrep] at hr
        cases hr

lemma rooted (hx : x.IsRegular) (k : ℕ) (a : NodeId) : x.Rooted k (x.log k a) :=
  (rooted_and_sent hx k).1 k le_rfl a

lemma sent (hx : x.IsRegular) {c : Call AppendRequest AppendReply}
    (hc : c ∈ (x.world k).rounds) : ∃ j n, x.Sent k c j n :=
  (rooted_and_sent hx k).2 c hc

/-- Any two logs match, whenever they are looked at. -/
lemma agree (hx : x.IsRegular) (j k : ℕ) (a b : NodeId) : Log.Agree (x.log j a) (x.log k b) :=
  (rooted hx j a).agree hx (rooted hx k b)

/-- A request matches its peer's log, whichever member that is. -/
lemma Sent.agree (hx : x.IsRegular) {c : Call AppendRequest AppendReply} {j : ℕ}
    (hs : x.Sent k c j n) (a : NodeId) : Log.Agree (x.log k a) n.log.entries :=
  hs.leads_log.2 ▸ History.agree hx k j a c.caller

/-- Along every log terms never fall, and none is above the member's own. -/
lemma ordered (hx : x.IsRegular) (k : ℕ) :
    ∀ j ≤ k, ∀ a, Ordered (x.log j a) (x.ballot j a).term := by
  induction k with
  | zero =>
    intro j hj a
    obtain rfl := Nat.le_zero.mp hj
    rw [x.log_zero a]
    exact Ordered.nil _
  | succ k ih =>
    intro j hj a
    rcases Nat.le_succ_iff.mp hj with hj | rfl
    · exact ih j hj a
    · have hterm := hx.term_le (Nat.le_succ k) a
      rcases log_cases hx k a with hs | ⟨t, payload, hl, hl', hs⟩ | ⟨c, n, m, hf⟩
      · rw [hs]
        exact (ih k le_rfl a).mono hterm
      · rw [hs, hl'.term]
        have ho := ih k le_rfl a
        rw [hl.term] at ho
        exact ho.snoc rfl
      · obtain ⟨j, s, hs⟩ := sent hx hf.mem
        rcases (hf.spliced hs (hs.agree hx a)).1.eq_or_isPrefix with h | h
        · rw [h]
          exact (ih k le_rfl a).mono hterm
        · have ho := ih j hs.le c.caller
          rw [hs.leads_log.1.term, hs.leads_log.2] at ho
          rw [hf.ballot_term]
          exact ho.of_isPrefix h

/-- **Log matching**: if the logs of two members hold an entry of one index and term, then they are
equal up to there, even if they are looked at at different times; and along every log the terms
never fall and stay within the term of its member. -/
theorem log_matching (hx : x.IsRegular) {j k : ℕ} (hn : x.node? j a = some n)
    (hn' : x.node? k b = some n') :
    (∀ e ∈ n.log.entries, ∀ e' ∈ n'.log.entries, e.index = e'.index → e.term = e'.term →
      ∀ i ≤ e.index, n.log.entry? i = n'.log.entry? i) ∧
      n.log.entries.Pairwise (fun e f => e.term ≤ f.term) ∧
      ∀ e ∈ n.log.entries, e.term ≤ n.term := by
  have hord := ordered hx j j le_rfl a
  rw [log_of_node hn, ballot_of_node hn] at hord
  refine ⟨fun e he e' he' hidx hterm i hi => ?_, hord.pairwise, hord.bound⟩
  have hag := agree hx j k a b
  rw [log_of_node hn, log_of_node hn'] at hag
  obtain ⟨p, hp⟩ := List.mem_iff_getElem?.mp he
  obtain ⟨q, hq⟩ := List.mem_iff_getElem?.mp he'
  have h1 := (fit_node hn).1.sound.numbered p e hp
  have h2 := (fit_node hn').1.sound.numbered q e' hq
  obtain rfl : p = q := by
    rw [h1, h2] at hidx
    exact Nat.succ.inj hidx
  have htake := hag p e e' hp hq hterm
  rw [h1] at hi
  refine Log.entry?_eq_of_take_eq ?_
  have := congrArg (List.take i) htake
  rwa [List.take_take, List.take_take, min_eq_left hi] at this

/-- Three members, one of which is elected, takes a command and sends it to another. -/
def replicated : History Memory Kv := .play [1, 2, 3]
  [.boot 1 ⟨[]⟩, .boot 2 ⟨[]⟩, .boot 3 ⟨[]⟩, .stand 1, .poll 0, .count 0 (.ok 0), .close 1,
    .submit 1 [], .send 1 2, .deliver 0]

theorem log_matching_replicated : replicated.IsRegular ∧
    ∃ n n', replicated.node? 10 1 = some n ∧ replicated.node? 10 2 = some n' ∧
      (⟨1, 1, []⟩ : Entry) ∈ n.log.entries ∧ (⟨1, 1, []⟩ : Entry) ∈ n'.log.entries ∧
      n.log.entry? 1 = n'.log.entry? 1 := by
  have hx : replicated.IsRegular :=
    play_isRegular _ (by simp [Action.IsGenuine]) (by decide +kernel)
  refine ⟨hx, _, _, rfl, rfl, by decide, by decide, ?_⟩
  exact (log_matching hx (j := 10) (k := 10) (a := 1) (b := 2) rfl rfl).1 ⟨1, 1, []⟩ (by decide)
    ⟨1, 1, []⟩ (by decide) rfl rfl 1 le_rfl

end History

end Quorum
