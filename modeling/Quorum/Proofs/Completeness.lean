import Quorum.Proofs.Matching

/-!
Leader completeness: what a majority has held in a term, every leader of a later term has.

The voters of a later leader meet that majority. The member they share held the entries in the
earlier term and voted later, and by induction over the terms in between no leader's request took
them from it. Its vote went to a log no worse than its own, and a log that ends as late as theirs
has the entries too.
-/

namespace Quorum

open LawfulStore

namespace Ordered

variable {es : List Entry} {t : Term}

lemma termOf_le (h : Ordered es t) {i j : ℕ} (hij : i ≤ j) (hj : j ≤ es.length) :
    termOf es i ≤ termOf es j := by
  cases i with
  | zero => exact Nat.zero_le _
  | succ i =>
    obtain ⟨j, rfl⟩ : ∃ m, j = m + 1 := ⟨j - 1, by omega⟩
    have hi' : i < es.length := by omega
    have hj' : j < es.length := by omega
    rw [termOf_succ (List.getElem?_eq_getElem hi'), termOf_succ (List.getElem?_eq_getElem hj')]
    rcases Nat.lt_or_ge i j with hlt | hge
    · exact List.pairwise_iff_getElem.mp h.pairwise i j hi' hj' hlt
    · obtain rfl : i = j := by omega
      exact le_rfl

lemma termOf_bound (h : Ordered es t) (i : ℕ) : termOf es i ≤ t := by
  cases i with
  | zero => exact Nat.zero_le _
  | succ i =>
    cases he : es[i]? with
    | none => simp [termOf, he]
    | some e =>
      rw [termOf_succ he]
      exact h.bound e (List.mem_of_getElem? he)

end Ordered

namespace History

variable {σ μ : Type} [LogStore σ] [BallotStore σ] [Reopen σ] [LawfulStore σ] [Machine μ]
variable {x : History σ μ} {k : ℕ} {a b v : NodeId} {t u : Term} {n n' : Node σ (Journal μ)}
variable {es ps : List Entry}

/-- A log with entries is the beginning of one that the leader of its last term had. -/
lemma Rooted.whole (h : x.Rooted k es) (hne : es ≠ []) :
    ∃ j ≤ k, ∃ c, x.Leads j c (termOf es es.length) ∧ es <+: x.log j c := by
  have hpos := List.length_pos_of_ne_nil hne
  have hlast : es[es.length - 1]? = some (es.getLast hne) := by
    rw [← List.getLast?_eq_getElem?, List.getLast?_eq_some_getLast hne]
  obtain ⟨j, hj, c, hl, hp⟩ := h _ _ hlast
  have hlen : es.length - 1 + 1 = es.length := Nat.succ_pred_eq_of_pos hpos
  have hterm := termOf_succ hlast
  rw [hlen] at hp hterm
  rw [List.take_length] at hp
  exact ⟨j, hj, c, hterm ▸ hl, hp⟩

/-- In a term a majority has held these entries, the last of which is of that term, and so has its
leader. -/
structure Chosen (x : History σ μ) (t : Term) (ps : List Entry) : Prop where
  last : termOf ps ps.length = t
  leader : ∃ k a, x.Leads k a t ∧ ps <+: x.log k a
  held : ∃ s, IsMajority x.members s ∧
    ∀ v ∈ s, ∃ j, (x.ballot j v).term = t ∧ ps <+: x.log j v

/-- What a candidate asks for votes with is the end of its log, as long as it stands. -/
lemma request_eq (hx : x.IsRegular) {tl : Tally} (hn : x.node? k a = some n)
    (hr : n.role = .candidate) (ht : n.tally = some tl) (hterm : tl.request.term = n.term) :
    tl.request.lastIndex = n.log.entries.length ∧
      tl.request.lastTerm = termOf n.log.entries n.log.entries.length := by
  induction k generalizing n tl with
  | zero =>
    rw [x.node?_zero a] at hn
    cases hn
  | succ k ih =>
    rcases node_cases hx hn with ⟨c, store, m, -, rfl⟩ | ⟨m, hm, hmoves⟩
    · cases hr
    · cases hmoves with
      | rests _ hrest =>
        obtain ⟨hrole, hsame⟩ := hrest.turns.role (by rw [show n.standing.role = _ from hr]; simp)
        obtain ⟨tl', ht', hreq⟩ := hrest.asked tl ht
        rw [← hreq, hrest.entries]
        exact ih hm (hrole.symm.trans hr) ht' (by rw [hreq, hterm]; exact hsame)
      | stands =>
        obtain rfl := Option.some.inj ht
        exact ⟨rfl, rfl⟩
      | leads => cases hr
      | writes t payload store' hl =>
        have hlead := (Node.leaderTerm_eq_some.mp hl).1
        rw [Node.role, Node.tryCommit_standing] at hr
        cases hlead.symm.trans hr
      | learns c reply _ _ _ _ hl =>
        have hlead := (Node.leaderTerm_eq_some.mp hl).1
        rw [Node.role, Node.tryCommit_standing] at hr
        cases hlead.symm.trans hr
      | retries => exact ih (n := m) hm hr ht hterm
      | follows c m₁ hf => cases hf.role.symm.trans hr

/-- What no leader of a term up to then contradicts stays in a log. -/
lemma prefix_kept (hx : x.IsRegular) {j k : ℕ} (hjk : j ≤ k) (hp : ps <+: x.log j v)
    (hlead : ∀ s, (x.ballot j v).term ≤ s → s ≤ (x.ballot k v).term → ∀ i < k, ∀ c, x.Leads i c s →
      ps <+: x.log i c ∨ x.log i c <+: ps) : ps <+: x.log k v := by
  induction k, hjk using Nat.le_induction with
  | base => exact hp
  | succ k hjk ih =>
    have hle := hx.term_le (Nat.le_succ k) v
    have hk := ih fun s h1 h2 i hi => hlead s h1 (h2.trans hle) i (Nat.lt_succ_of_lt hi)
    rcases log_cases hx k v with hs | ⟨u, payload, -, -, hs⟩ | ⟨c, n, m, hf⟩
    · rwa [hs]
    · rw [hs]
      exact hk.trans (List.prefix_append _ _)
    · obtain ⟨i, s, hs⟩ := sent hx hf.mem
      refine (hf.spliced hs (hs.agree hx v)).1.keeps hk ?_
      rw [← hs.leads_log.2]
      refine hlead c.request.term ?_ hf.ballot_term.ge i (Nat.lt_succ_of_le hs.le) c.caller
        hs.leads_log.1
      rw [← hf.ballot_term]
      exact hx.term_le (Nat.le_succ_of_le hjk) v

/-- A log whose end a voter's log does not beat has what the voter's log has from a term before the
candidate's, where every leader in between has it. -/
lemma prefix_of_covers (hx : x.IsRegular) {r : VoteRequest} {j k : ℕ}
    (hidx : r.lastIndex = (x.log k b).length)
    (hlast : r.lastTerm = termOf (x.log k b) (x.log k b).length) (hcov : r.Covers (x.log j v))
    (hp : ps <+: x.log j v)
    (hlead : ∀ s, termOf ps ps.length < s → ∀ i ≤ k, ∀ c, x.Leads i c s → s ≤ (x.ballot k b).term →
      ps <+: x.log i c) : ps <+: x.log k b := by
  have hordv := ordered hx j j le_rfl v
  have hordb := ordered hx k k le_rfl b
  have hrv := rooted hx j v
  have hrb := rooted hx k b
  have hpv : termOf ps ps.length ≤ termOf (x.log j v) (x.log j v).length := by
    rw [← termOf_prefix hp le_rfl]
    exact hordv.termOf_le hp.length_le le_rfl
  rcases hcov with hlt | ⟨heq, hle⟩
  · -- the candidate's log ends in a later term, whose leader had the entries
    rw [hlast] at hlt
    have hne : x.log k b ≠ [] := by
      intro hnil
      rw [hnil] at hlt
      exact Nat.not_lt_zero _ hlt
    obtain ⟨i, hi, c, hl, hpre⟩ := hrb.whole hne
    have hps := hlead _ (hpv.trans_lt hlt) i hi c hl (hordb.termOf_bound _)
    rcases List.prefix_or_prefix_of_prefix hps hpre with h | h
    · exact h
    · refine absurd (hpv.trans_lt hlt) (Nat.not_lt_of_le ?_)
      have hordp : Ordered ps _ := hordv.of_isPrefix hp
      rw [← termOf_prefix h le_rfl]
      exact hordp.termOf_le h.length_le le_rfl
  · -- both logs end in one term, so one is the beginning of the other
    rw [hlast] at heq
    rw [hidx] at hle
    refine hp.trans ?_
    by_cases hnil : x.log j v = []
    · rw [hnil]
      exact List.nil_prefix
    · have hne : x.log k b ≠ [] := by
        intro h
        rw [h] at hle
        exact hnil (List.length_eq_zero_iff.mp (Nat.le_zero.mp hle))
      obtain ⟨i, -, c, hl, hpre⟩ := hrv.whole hnil
      obtain ⟨i', -, c', hl', hpre'⟩ := hrb.whole hne
      rw [heq] at hl'
      rcases hl.log_comparable hx hl' with h | h
      · exact List.prefix_of_prefix_length_le (hpre.trans h) hpre' hle
      · exact List.prefix_of_prefix_length_le hpre (hpre'.trans h) hle

/-- **Leader completeness**: what was chosen in a term is in the log of every leader of a later
term. -/
lemma Chosen.prefix_of_leads (hx : x.IsRegular) (hc : x.Chosen t ps) (htu : t < u)
    (hl : x.Leads k b u) : ps <+: x.log k b := by
  induction u using Nat.strong_induction_on generalizing k b with
  | _ u ih =>
  obtain ⟨kc, hkc, n, tl, ho, hbefore, hafter⟩ := hl.office (hx.counted k)
  -- it is enough that the log was there when the leader took office
  suffices h : ps <+: x.log kc b by
    have hl' := hafter (kc + 1) (Nat.lt_succ_self kc) hkc
    exact (h.trans (log_prefix_succ hx hl')).trans (hl'.log_isPrefix hx hkc hl)
  obtain ⟨hcand, s, hs, hback⟩ := ho.voters
  obtain ⟨s', hs', hheld⟩ := hc.held
  obtain ⟨v, hv, hv'⟩ := hs.meet hs'
  obtain ⟨j', hj', hbal, hcov⟩ := hback v hv
  obtain ⟨j, hj, hpj⟩ := hheld v hv'
  have hterm' : (x.ballot j' v).term = u := by rw [hbal, ho.request]
  have hjj' : j ≤ j' := by
    by_contra hlt
    have := hx.term_le (Nat.le_of_not_le hlt) v
    rw [hterm', hj] at this
    exact absurd htu (Nat.not_lt_of_le this)
  -- before it took office nobody led its term, and every leader in between has the entries
  have hlead : ∀ w, t < w → w ≤ u → ∀ i ≤ kc, ∀ c, x.Leads i c w → ps <+: x.log i c := by
    intro w htw hwu i hi c hlw
    rcases Nat.lt_or_eq_of_le hwu with hlt | rfl
    · exact ih w hlt htw hlw
    · obtain rfl := hx.unique hlw hl
      exact absurd hlw (hbefore i hi)
  have hkept : ps <+: x.log j' v := by
    refine prefix_kept hx hjj' hpj fun w h1 h2 i hi c hlw => ?_
    rw [hj] at h1
    rw [hterm'] at h2
    rcases Nat.lt_or_eq_of_le h1 with hlt | rfl
    · exact Or.inl (hlead w hlt h2 i (Nat.le_of_lt (hi.trans_le hj')) c hlw)
    · obtain ⟨l, d, hld, hpl⟩ := hc.leader
      rcases hld.log_comparable hx hlw with h | h
      · exact Or.inl (hpl.trans h)
      · exact List.prefix_or_prefix_of_prefix hpl h
  obtain ⟨hidx, hlast⟩ := request_eq hx ho.node ho.role ho.tally (ho.request.trans ho.term.symm)
  rw [← log_of_node ho.node] at hidx hlast
  refine prefix_of_covers hx hidx hlast hcov hkept fun w hw i hi c hlw hwb => ?_
  rw [hc.last] at hw
  rw [ballot_of_node ho.node] at hwb
  exact hlead w hw (hwb.trans ho.term.le) i hi c hlw

end History

end Quorum
