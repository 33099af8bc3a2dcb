import Quorum.Proofs.Completeness

/-!
Commitment: what is committed anywhere stays, and no two machines are ever given different entries
for one position.

A leader commits where it knows that a majority agrees with its log, up to an entry of its own term,
so all up to there is chosen. Every other commit index is one that a leader had before.
-/

namespace Quorum

open LawfulStore

/-! ### What a leader knows -/

namespace ProgressTable

lemma row_insert (id p : NodeId) (r : Progress) (t : ProgressTable) :
    row p (Table.insert id r t) = if id = p then r else t.row p := by
  unfold row
  rw [Table.find?_insert]
  by_cases h : id = p
  · rw [if_pos h, if_pos h]
  · rw [if_neg h, if_neg h]

lemma matched_advance (id p : NodeId) (i : ℕ) (t : ProgressTable) :
    ((t.advance id i).row p).matched =
      if id = p then max (t.row id).matched i else (t.row p).matched := by
  unfold advance
  rw [row_insert]
  split <;> rfl

lemma matched_backOff (id p : NodeId) (t : ProgressTable) :
    ((t.backOff id).row p).matched = (t.row p).matched := by
  unfold backOff
  rw [row_insert]
  split
  · rename_i h
    rw [h]
  · rfl

lemma matched_fresh (c : Config) (es : List Entry) (p : NodeId) :
    ((fresh c (es.length + 1)).row p).matched = if c.self = p then es.length else 0 := by
  have hpeers : ∀ (ids : List NodeId) (t : ProgressTable), (∀ p, (t.row p).matched = 0) → ∀ p,
      (row p (ids.foldl (fun t id => Table.insert id ⟨es.length + 1, 0⟩ t) t)).matched = 0 := by
    intro ids
    induction ids with
    | nil => exact fun t h => h
    | cons id ids ih =>
      intro t h
      refine ih _ fun p => ?_
      rw [row_insert]
      split
      · rfl
      · exact h p
  unfold fresh
  rw [row_insert]
  split
  · rfl
  · exact hpeers _ _ (fun _ => rfl) p

/-- Those who are counted agree up to there. -/
lemma exists_of_count {ids : List NodeId} (hn : ids.Nodup) (i : ℕ) (t : ProgressTable) :
    ∃ s : List NodeId, s.Nodup ∧ s ⊆ ids ∧ s.length = t.count ids i ∧
      ∀ v ∈ s, i ≤ (t.row v).matched := by
  refine ⟨_, hn.filter _, List.filter_sublist.subset,
    List.countP_eq_length_filter.symm, ?_⟩
  intro v hv
  have hcount := (List.mem_filter.mp hv).2
  unfold row
  split at hcount
  · exact of_decide_eq_true hcount
  · cases hcount

end ProgressTable

namespace History

variable {σ μ : Type} [LogStore σ] [BallotStore σ] [Reopen σ] [LawfulStore σ] [Machine μ]
variable {x : History σ μ} {k : ℕ} {a b v : NodeId} {t u : Term} {n n' : Node σ (Journal μ)}

/-- What a leader takes a member to agree with, the member has held in the leader's term. -/
def Knows (x : History σ μ) (k : ℕ) (n : Node σ (Journal μ)) (p : NodeId) (i : ℕ) : Prop :=
  i ≤ n.log.entries.length ∧
    (i = 0 ∨ ∃ j ≤ k, (x.ballot j p).term = n.term ∧ n.log.entries.take i <+: x.log j p)

lemma Knows.of_isPrefix {p : NodeId} {i : ℕ} (h : x.Knows k n p i) (ht : n'.term = n.term)
    (hp : n.log.entries <+: n'.log.entries) : x.Knows (k + 1) n' p i := by
  obtain ⟨hi, h⟩ := h
  refine ⟨hi.trans hp.length_le, h.imp_right fun ⟨j, hj, hterm, hpre⟩ => ?_⟩
  refine ⟨j, Nat.le_succ_of_le hj, ht ▸ hterm, ?_⟩
  rw [take_eq_of_isPrefix hp hi]
  exact hpre

lemma Knows.commit {p : NodeId} {i : ℕ} (h : x.Knows k n p i)
    (hst : n'.standing = n.standing) (hlog : n'.log.entries = n.log.entries) :
    x.Knows (k + 1) n'.tryCommit p i := by
  refine h.of_isPrefix ?_ ?_
  · exact congrArg Standing.term ((Node.tryCommit_standing n').trans hst)
  · rw [Node.tryCommit_entries, hlog]

/-- A member agrees with all of its own log. -/
lemma knows_self (hn : x.node? k a = some n) : x.Knows k n a n.log.entries.length := by
  refine ⟨le_rfl, Or.inr ⟨k, le_rfl, ?_, ?_⟩⟩
  · rw [ballot_of_node hn]
    rfl
  · rw [log_of_node hn]
    exact List.take_prefix _ _

/-- What a request was accepted with, its peer agrees with. -/
lemma knows_acked (hx : x.IsRegular) {c : Call AppendRequest AppendReply} {r : AppendReply}
    (hn : x.node? k a = some n) (hl : n.leaderTerm = some c.request.term)
    (hc : c ∈ (x.world k).rounds) (hca : c.caller = a) (hr : r ∈ c.replies)
    (hok : r.success = true) : x.Knows k n c.peer c.request.lastIndex := by
  obtain ⟨j, s, hs⟩ := sent hx hc
  obtain ⟨i, hi, hterm, hpre⟩ := hs.replies r hr hok
  have hpn : s.log.entries <+: n.log.entries := by
    have h := hs.leads_log.1.log_isPrefix hx hs.le ⟨n, hca ▸ hn, hl⟩
    rwa [hs.leads_log.2, hca, log_of_node hn] at h
  rw [AppendRequest.lastIndex_of_slice (fit_node hs.node).1.sound.numbered hs.slice]
  refine ⟨hpn.length_le, Or.inr ⟨i, hi, ?_, ?_⟩⟩
  · rw [hterm]
    exact (Node.leaderTerm_eq_some.mp hl).2.symm
  · rwa [← List.prefix_iff_eq_take.mp hpn]

/-- All that a leader takes to be known of the others' logs is so. -/
lemma knows (hx : x.IsRegular) (hn : x.node? k a = some n) (hl : n.role = .leader) (p : NodeId) :
    x.Knows k n p (n.progress.row p).matched := by
  induction k generalizing n with
  | zero => cases hn.symm.trans (x.node?_zero a)
  | succ k ih =>
    rcases node_cases hx hn with ⟨c, store, m, -, rfl⟩ | ⟨m, hm, hmoves⟩
    · cases hl
    · cases hmoves with
      | rests _ hr =>
        obtain ⟨h1, h2⟩ := hr.turns.role (by rw [show n.standing.role = _ from hl]; simp)
        rw [hr.progress]
        exact (ih hm (h1.symm.trans hl)).of_isPrefix h2 (by rw [hr.entries])
      | stands => cases hl
      | leads tl ho =>
        obtain ⟨-, hself, -⟩ := fit_node hm
        show x.Knows (k + 1) _ p ((ProgressTable.fresh m.config _).row p).matched
        rw [show m.log.size = m.log.entries.length + 1 from rfl, ProgressTable.matched_fresh, hself]
        split
        · rename_i hp
          subst hp
          exact knows_self hn
        · exact ⟨Nat.zero_le _, Or.inl rfl⟩
      | writes t payload store' hlt =>
        obtain ⟨-, hself, -⟩ := fit_node hm
        have hold := ih hm (Node.leaderTerm_eq_some.mp hlt).1
        have hentries := Node.tryCommit_entries (m.wrote t payload store')
        have hterm : (m.wrote t payload store').tryCommit.term = m.term :=
          congrArg Standing.term (Node.tryCommit_standing _)
        rw [Node.tryCommit_progress]
        show x.Knows (k + 1) _ p ((m.progress.advance m.id m.log.size).row p).matched
        rw [ProgressTable.matched_advance, show m.id = a from hself]
        split
        · rename_i hp
          subst hp
          have hmax : max (m.progress.row a).matched m.log.size =
              (m.wrote t payload store').tryCommit.log.entries.length := by
            rw [hentries]
            refine (max_eq_right (hold.1.trans (Nat.le_succ _))).trans ?_
            show _ = (m.log.entries ++ [_]).length
            rw [List.length_append]
            rfl
          rw [hmax]
          exact knows_self hn
        · exact hold.of_isPrefix hterm (hentries ▸ List.prefix_append _ _)
      | learns c reply hc hca hrep hok hlt =>
        have hold := ih hm (Node.leaderTerm_eq_some.mp hlt).1
        rw [Node.tryCommit_progress]
        show x.Knows (k + 1) _ p
          ((m.progress.advance c.peer c.request.lastIndex).row p).matched
        rw [ProgressTable.matched_advance]
        split
        · rename_i hp
          subst hp
          rcases max_choice (m.progress.row c.peer).matched c.request.lastIndex with h | h <;>
            rw [h]
          · exact hold.commit rfl rfl
          · exact (knows_acked hx hm hlt hc hca hrep hok).commit rfl rfl
        · exact hold.commit rfl rfl
      | retries p' =>
        rw [ProgressTable.matched_backOff]
        exact (ih (n := m) hm hl).of_isPrefix rfl List.prefix_rfl
      | follows c m₁ hf => cases hf.role.symm.trans hl

/-- Up to a ripe position a leader's log is chosen. -/
lemma chosen_of_ripe (hx : x.IsRegular) (hn : x.node? k a = some n) {i : ℕ} (hr : n.Ripe i) :
    x.Chosen (termOf n.log.entries i) (n.log.entries.take i) := by
  obtain ⟨hrole, hterm⟩ := Node.leaderTerm_eq_some.mp hr.term
  obtain ⟨-, -, hmem, hnd, -⟩ := fit_node hn
  have hcount := hr.count
  rw [Config.majority, hmem] at hcount
  obtain ⟨s, h1, h2, h3, h4⟩ := ProgressTable.exists_of_count hnd i n.progress
  refine ⟨?_, ⟨k, a, ⟨n, hn, hr.term⟩, ?_⟩, s, ⟨h1, h2, h3 ▸ hcount⟩, fun v hv => ?_⟩
  · rw [List.length_take, min_eq_left hr.le, termOf_take le_rfl]
  · rw [log_of_node hn]
    exact List.take_prefix _ _
  · obtain ⟨-, h0 | ⟨j, -, hj, hpre⟩⟩ := knows hx hn hrole v
    · exact absurd (hr.pos.trans_le (h4 v hv)) (h0 ▸ Nat.lt_irrefl 0)
    · exact ⟨j, hj.trans hterm, (List.take_prefix_take_left (h4 v hv)).trans hpre⟩

/-! ### Commit indices -/

/-- The step in which the leader of a term moves its commit index past a position. -/
def Commits (x : History σ μ) (k : ℕ) (a : NodeId) (t : Term) (i : ℕ) : Prop :=
  ∃ n n', x.node? k a = some n ∧ x.node? (k + 1) a = some n' ∧ n.leaderTerm = some t ∧
    n'.leaderTerm = some t ∧ n.log.commit < i ∧ i ≤ n'.log.commit

/-- A leader that commits still has in its log what it had committed before, and commits no more
than is ripe. -/
lemma tryCommit_after {m : Node σ (Journal μ)} {t : Term} (hfit : n.Fit) (hm : m.Fit)
    (hl : m.leaderTerm = some t) (hpre : n.log.entries <+: m.log.entries)
    (hcommit : m.log.commit = n.log.commit) :
    m.tryCommit.log.entries.take n.log.commit = n.log.entries.take n.log.commit ∧
      (m.tryCommit.log.commit = n.log.commit ∨ ∃ i, m.tryCommit.leaderTerm = some t ∧
        m.tryCommit.Ripe i ∧ m.tryCommit.log.commit = max n.log.commit i) := by
  refine ⟨?_, ?_⟩
  · rw [Node.tryCommit_entries]
    exact take_eq_of_isPrefix hpre hfit.sound.commit_le
  · rcases (Node.tryCommit_goes hm).2 with h | ⟨i, hi, h⟩
    · exact Or.inl (h.trans hcommit)
    · refine Or.inr ⟨i, ?_, hi.tryCommit, hcommit ▸ h⟩
      rw [Node.leaderTerm, Node.tryCommit_standing]
      exact hl

/-- A commit index moves where a leader finds a position ripe, or to that of a leader whose log the
member has taken over. What was committed before is still there. -/
lemma commit_cases (hx : x.IsRegular) (hn : x.node? k a = some n) (hm : x.Moves k a n n')
    (hn' : x.node? (k + 1) a = some n') :
    n'.log.entries.take n.log.commit = n.log.entries.take n.log.commit ∧
      (n'.log.commit = n.log.commit ∨
        (∃ t i, n.leaderTerm = some t ∧ n'.leaderTerm = some t ∧ n'.Ripe i ∧
          n'.log.commit = max n.log.commit i) ∨
        ∃ c ∈ (x.world k).rounds, ∃ j s, x.Sent k c j s ∧ n'.term = c.request.term ∧
          n'.role = .follower ∧ s.log.entries <+: n'.log.entries ∧
          n'.log.commit = max n.log.commit s.log.commit) := by
  have hfit := (fit_node hn).1
  cases hm with
  | rests _ hr => exact ⟨by rw [hr.entries], Or.inl hr.commit⟩
  | stands | leads | retries => exact ⟨rfl, Or.inl rfl⟩
  | writes t payload store' hl ha =>
    have hw : (n.wrote t payload store').leaderTerm = some t := hl
    obtain ⟨h1, h2⟩ := tryCommit_after hfit (Node.wrote_fit hfit ha) hw (List.prefix_append _ _) rfl
    exact ⟨h1, h2.imp_right fun ⟨i, h⟩ => Or.inl ⟨t, i, hl, h⟩⟩
  | learns c reply _ _ _ _ hl =>
    have hm : Node.Fit { n with
      progress := n.progress.advance c.peer c.request.lastIndex
      contacts := n.contacts.hear c.peer } := ⟨hfit.stored, hfit.sound⟩
    obtain ⟨h1, h2⟩ := tryCommit_after hfit hm hl List.prefix_rfl rfl
    exact ⟨h1, h2.imp_right fun ⟨i, h⟩ => Or.inl ⟨_, i, hl, h⟩⟩
  | follows c m hf =>
    obtain ⟨hrest, -, -⟩ := Node.yieldTo_some hf.yields
    have hmf := hrest.fit hfit
    obtain ⟨j, s, hs⟩ := sent hx hf.mem
    have hag := hs.agree hx a
    rw [log_of_node hn, ← hrest.entries] at hag
    obtain ⟨-, hkeep, -⟩ := Log.follow_sound hmf.sound m.term c.request.batch m.store
    refine ⟨by rw [← hrest.entries, ← hrest.commit]; exact hkeep, ?_⟩
    obtain ⟨-, ⟨-, hpre, hcom⟩ | ⟨-, hcom⟩⟩ :=
      Log.follow_slice (fit_node hs.node).1.sound.numbered hag hs.slice m.term m.store
    · refine Or.inr (Or.inr ⟨c, hf.mem, j, s, hs, hf.term, hf.role, hpre, ?_⟩)
      rw [← hs.commit, ← hrest.commit]
      exact hcom
    · exact Or.inl (hcom.trans hrest.commit)

/-- What a leader commits is chosen in its term. -/
lemma Commits.chosen (hx : x.IsRegular) {i : ℕ} (h : x.Commits k a t i) :
    ∃ ps, x.Chosen t ps ∧ ps <+: x.log (k + 1) a ∧ i ≤ ps.length := by
  obtain ⟨n, n', hn, hn', hl, hl', hlt, hle⟩ := h
  obtain ⟨hrole, hterm⟩ := Node.leaderTerm_eq_some.mp hl'
  rcases node_cases hx hn' with ⟨c, store, m, -, rfl⟩ | ⟨m, hm, hmoves⟩
  · cases hrole
  · obtain rfl : m = n := Option.some.inj (hm.symm.trans hn)
    obtain ⟨-, hc | ⟨u, r, -, hu, hr, hc⟩ | ⟨c, -, j, s, -, -, hf, -⟩⟩ :=
      commit_cases hx hn hmoves hn'
    · exact absurd (hlt.trans_le hle) (hc ▸ Nat.lt_irrefl _)
    · have hir : i ≤ r := by
        rw [hc] at hle
        exact (le_max_iff.mp hle).resolve_left (Nat.not_le_of_lt hlt)
      have hch := chosen_of_ripe hx hn' hr
      rw [Option.some.inj (hr.term.symm.trans hl')] at hch
      refine ⟨_, hch, ?_, ?_⟩
      · rw [log_of_node hn']
        exact List.take_prefix _ _
      · rw [List.length_take, min_eq_left hr.le]
        exact hir
    · cases hrole.symm.trans hf

/-- Whatever is committed anywhere, a leader committed, in a term that is not later. -/
lemma exists_commits (hx : x.IsRegular) (hn : x.node? k a = some n) {i : ℕ}
    (hi : i ≤ n.log.commit) (hpos : 0 < i) :
    ∃ j < k, ∃ c t, x.Commits j c t i ∧ t ≤ n.term ∧
      (x.log (j + 1) c).take i = n.log.entries.take i := by
  induction k using Nat.strong_induction_on generalizing a n with
  | _ k ih =>
  cases k with
  | zero => cases hn.symm.trans (x.node?_zero a)
  | succ k =>
    rcases node_cases hx hn with ⟨c, store, m, -, rfl⟩ | ⟨m, hm, hmoves⟩
    · exact absurd hpos (Nat.not_lt_of_le hi)
    · obtain ⟨hkeep, hcases⟩ := commit_cases hx hm hmoves hn
      by_cases him : i ≤ m.log.commit
      · obtain ⟨j, hj, c, t, hc, ht, htake⟩ := ih k (Nat.lt_succ_self k) hm him
        have hterm := hx.term_le (Nat.le_succ k) a
        rw [ballot_of_node hm, ballot_of_node hn] at hterm
        refine ⟨j, Nat.lt_succ_of_lt hj, c, t, hc, ht.trans hterm, htake.trans ?_⟩
        have := congrArg (List.take i) hkeep
        rwa [List.take_take, List.take_take, min_eq_left him, eq_comm] at this
      · have hlt := Nat.lt_of_not_le him
        rcases hcases with hc | ⟨t, r, hl, hl', -, -⟩ | ⟨c, -, j, s, hs, hterm, -, hpre, hc⟩
        · exact absurd (hc ▸ hi) him
        · refine ⟨k, Nat.lt_succ_self k, a, t, ⟨m, n, hm, hn, hl, hl', hlt, hi⟩, ?_, ?_⟩
          · exact (Node.leaderTerm_eq_some.mp hl').2.ge
          · rw [log_of_node hn]
        · have his : i ≤ s.log.commit := by
            rw [hc] at hi
            exact (le_max_iff.mp hi).resolve_left him
          obtain ⟨l, hl, d, t, hd, ht, htake⟩ := ih j (Nat.lt_succ_of_le hs.le) hs.node his
          refine ⟨l, hl.trans (Nat.lt_succ_of_le hs.le), d, t, hd, ?_, ?_⟩
          · rw [hterm, ← (Node.leaderTerm_eq_some.mp hs.leads).2]
            exact ht
          · rw [htake]
            exact (take_eq_of_isPrefix hpre
              (his.trans (fit_node hs.node).1.sound.commit_le)).symm

/-- A leader of the same or a later term has what was committed, as far as its log goes. -/
lemma Commits.take_eq (hx : x.IsRegular) {j k i : ℕ} (h : x.Commits j a t i)
    (hl : x.Leads k b u) (htu : t ≤ u) (hi : t = u → i ≤ (x.log k b).length) :
    (x.log k b).take i = (x.log (j + 1) a).take i := by
  rcases Nat.lt_or_eq_of_le htu with hlt | rfl
  · obtain ⟨ps, hch, hpre, hle⟩ := h.chosen hx
    rw [take_eq_of_isPrefix hpre hle, take_eq_of_isPrefix (hch.prefix_of_leads hx hlt hl) hle]
  · obtain ⟨n, n', -, hn', -, hl', -, hle⟩ := h
    have hlen : i ≤ (x.log (j + 1) a).length := by
      rw [log_of_node hn']
      exact hle.trans (fit_node hn').1.sound.commit_le
    rcases Leads.log_comparable hx ⟨n', hn', hl'⟩ hl with hp | hp
    · exact take_eq_of_isPrefix hp hlen
    · exact (take_eq_of_isPrefix hp (hi rfl)).symm

/-- What is committed anywhere is what every leader that committed it had. -/
lemma Commits.take_eq_of_node (hx : x.IsRegular) {j k i : ℕ} (h : x.Commits j a t i)
    (hn : x.node? k b = some n) (hi : i ≤ n.log.commit) :
    n.log.entries.take i = (x.log (j + 1) a).take i := by
  have hlen : ∀ {j a t}, x.Commits j a t i → x.Leads (j + 1) a t ∧
      i ≤ (x.log (j + 1) a).length := by
    rintro j a t ⟨m, m', -, hm', -, hl', -, hle⟩
    refine ⟨⟨m', hm', hl'⟩, ?_⟩
    rw [log_of_node hm']
    exact hle.trans (fit_node hm').1.sound.commit_le
  obtain ⟨hl, hle⟩ := hlen h
  have hpos : 0 < i := by
    obtain ⟨m, m', -, -, -, -, hlt, -⟩ := h
    exact Nat.zero_lt_of_lt hlt
  obtain ⟨l, -, c, u, hc, -, htake⟩ := exists_commits hx hn hi hpos
  obtain ⟨hl', hle'⟩ := hlen hc
  rw [← htake]
  rcases Nat.le_total t u with htu | hut
  · exact h.take_eq hx hl' htu fun _ => hle'
  · exact (hc.take_eq hx hl hut fun _ => hle).symm

/-- What is committed on two members is the same on both, whenever that is. -/
lemma committed_agree (hx : x.IsRegular) {j k i : ℕ} (hn : x.node? j a = some n)
    (hn' : x.node? k b = some n') (hi : i ≤ n.log.commit) (hi' : i ≤ n'.log.commit) :
    n.log.entries.take i = n'.log.entries.take i := by
  rcases Nat.eq_zero_or_pos i with rfl | hpos
  · rfl
  · obtain ⟨l, -, c, t, hc, -⟩ := exists_commits hx hn hi hpos
    rw [hc.take_eq_of_node hx hn hi, hc.take_eq_of_node hx hn' hi']

/-- No leader's request contradicts what its peer has committed, or leaves a gap. -/
lemma not_clash (hx : x.IsRegular) {c : Call AppendRequest AppendReply}
    (hc : c ∈ (x.world k).rounds) (hn : x.node? k c.peer = some n) {r : Refusal}
    (hr : n.refusal? c.request = some r) : ¬ r.IsClash := by
  intro hclash
  obtain ⟨m, hy, hr⟩ := Node.refusal?_eq_some.mp hr
  obtain ⟨hrest, -, hle⟩ := Node.yieldTo_some hy
  obtain ⟨j, s, hs⟩ := sent hx hc
  have hag := hs.agree hx c.peer
  rw [log_of_node hn, ← hrest.entries] at hag
  obtain ⟨-, ⟨hok, -⟩ | ⟨⟨r', hr', hcon⟩, -⟩⟩ :=
    Log.follow_slice (fit_node hs.node).1.sound.numbered hag hs.slice m.term m.store
  · cases hok.symm.trans hr
  · obtain rfl := Except.error.inj (hr'.symm.trans hr)
    obtain ⟨i, e, f, he, hf, hne, hlt⟩ := hcon hclash
    rw [hrest.entries] at he
    rw [hrest.commit] at hlt
    -- what is committed at this position is what the sender had there
    obtain ⟨l, -, d, t, hd, ht, htake⟩ := exists_commits hx hn hlt (Nat.succ_pos i)
    have hlog := hs.leads_log.2
    have hi : i + 1 ≤ s.log.entries.length := (List.getElem?_eq_some_iff.mp hf).1
    have heq := hd.take_eq hx hs.leads_log.1 (ht.trans hle) fun _ => hlog ▸ hi
    rw [hlog, htake] at heq
    rw [Log.getElem?_eq_of_take_eq heq (Nat.lt_succ_self i), he] at hf
    exact hne (congrArg Entry.term (Option.some.inj hf))

/-! ### Permanence -/

/-- What it means that committed entries are there for good. -/
structure Permanent (x : History σ μ) : Prop where
  /-- An entry that any member counts as committed was committed by a leader before, and every
  leader of a later term than that leader's, whenever it leads, has exactly this entry. -/
  leaders : ∀ k a n i e, x.node? k a = some n → 0 < i → i ≤ n.log.commit →
    n.log.entry? i = some e → (∃ j < k, ∃ c t, x.Commits j c t i) ∧
      ∀ j c t, x.Commits j c t i → ∀ l b m u, x.node? l b = some m → m.leaderTerm = some u →
        t < u → m.log.entry? i = some e
  /-- Whatever two machines are given for one position is the same, be it on two members or on one
  before and after a restart. -/
  machines : ∀ j k a b n n', x.node? j a = some n → x.node? k b = some n' →
    ∀ e ∈ n.log.machine.given, ∀ e' ∈ n'.log.machine.given, e.index = e'.index → e = e'
  /-- No request that a leader sent is refused for a gap or for what is committed. -/
  requests : ∀ k c n r, c ∈ (x.world k).rounds → x.node? k c.peer = some n →
    n.refusal? c.request = some r → ¬ r.IsClash

/-- What a machine was given is committed, and in its place. -/
lemma committed_of_given (hn : x.node? k a = some n) {e : Entry} (he : e ∈ n.log.machine.given) :
    ∃ i, e.index = i + 1 ∧ i + 1 ≤ n.log.commit ∧ n.log.entries[i]? = some e := by
  have hs := (fit_node hn).1.sound
  obtain ⟨i, hi⟩ := List.mem_iff_getElem?.mp he
  rw [hs.given, List.getElem?_take] at hi
  split at hi
  · rename_i hlt
    exact ⟨i, hs.numbered i e hi, Nat.succ_le_of_lt hlt, hi⟩
  · cases hi

/-- **Committed entries are permanent**: later leaders have them, no two machines are given
different entries for one position, and no leader's request contradicts them. -/
theorem committed_permanent (hx : x.IsRegular) : x.Permanent where
  leaders k a n i e hn hpos hi he := by
    obtain ⟨j, hj, c, t, hc, -⟩ := exists_commits hx hn hi hpos
    refine ⟨⟨j, hj, c, t, hc⟩, fun j c t hc l b m u hm hl htu => ?_⟩
    rw [← he]
    refine Log.entry?_eq_of_take_eq ?_
    have h := hc.take_eq hx ⟨m, hm, hl⟩ (Nat.le_of_lt htu) fun h => absurd h (Nat.ne_of_lt htu)
    rw [← log_of_node hm, h, hc.take_eq_of_node hx hn hi]
  machines j k a b n n' hn hn' e he e' he' hidx := by
    obtain ⟨i, hi, hc, hget⟩ := committed_of_given hn he
    obtain ⟨i', hi', hc', hget'⟩ := committed_of_given hn' he'
    obtain rfl : i = i' := by
      rw [hi, hi'] at hidx
      exact Nat.succ.inj hidx
    have htake := Log.entry?_eq_of_take_eq (committed_agree hx hn hn' hc hc')
    rw [Log.entry?_succ, Log.entry?_succ, hget, hget'] at htake
    exact Option.some.inj htake
  requests k c n r hc hn hr := not_clash hx hc hn hr

/-- A leader commits a command and is lost, and another member is elected. -/
def succeeded : History Memory Kv := .play [1, 2, 3]
  [.boot 1 ⟨[]⟩, .boot 2 ⟨[]⟩, .boot 3 ⟨[]⟩, .stand 1, .poll 0, .count 0 (.ok 0), .close 1,
    .submit 1 [], .send 1 2, .deliver 0, .finish 0 (.ok 0), .crash 1, .stand 2, .poll 3,
    .count 3 (.ok 0), .close 2]

theorem committed_permanent_succeeded : succeeded.IsRegular ∧ succeeded.Commits 10 1 1 1 ∧
    ∃ n, succeeded.node? 16 2 = some n ∧ n.leaderTerm = some 2 ∧
      n.log.entry? 1 = some ⟨1, 1, []⟩ := by
  have hx : succeeded.IsRegular := play_isRegular _ (by simp [Action.IsGenuine]) (by decide +kernel)
  have hc : succeeded.Commits 10 1 1 1 := ⟨_, _, rfl, rfl, rfl, rfl, by decide, by decide⟩
  refine ⟨hx, hc, _, rfl, rfl, ?_⟩
  exact ((committed_permanent hx).leaders 11 1 _ 1 ⟨1, 1, []⟩ rfl Nat.one_pos (by decide) rfl).2
    10 1 1 hc 16 2 _ 2 rfl rfl (by decide)

end History

end Quorum
