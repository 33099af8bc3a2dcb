import Quorum.Proofs.History

/-!
Election safety: a term has at most one leader.

The votes that a candidate has counted are those of different members, each of whom has voted for
it in its term at some time (`Tallied`). A leader has counted the votes of a majority, two
majorities share a member, and no member votes twice in a term, since its ballot outlives
everything.
-/

namespace Quorum

open LawfulStore

/-! ### Tallies -/

namespace World

variable {σ μ : Type}

/-- The election that a member is running. -/
def tally? (a : NodeId) (w : World σ μ) : Option Tally := w.cluster.node? a >>= Node.tally

/-- The voters that a count rests on: distinct members that have voted as they were asked, and none
from whom an answer is still awaited. -/
structure Voters (ids : List NodeId) (backs : VoteRequest → NodeId → Prop)
    (polls : List (Call VoteRequest VoteReply)) (a : NodeId) (t : Tally) (s : List NodeId) :
    Prop where
  nodup : s.Nodup
  sub : s ⊆ ids
  votes_le : t.votes ≤ s.length
  backed : ∀ v ∈ s, backs t.request v
  answered : ∀ (i : ℕ) c, polls[i]? = some c → c.waiting = true → c.caller = a → c.peer ∉ s

/-- What the count of every candidate rests on, where `backs` tells who has voted for what. -/
structure Tallied (ids : List NodeId) (backs : VoteRequest → NodeId → Prop) (w : World σ μ) :
    Prop where
  granted : ∀ (i : ℕ) c, w.polls[i]? = some c → ∀ a ∈ c.replies, a.granted = true →
    backs c.request c.peer
  waiting : ∀ (i : ℕ) c, w.polls[i]? = some c → c.waiting = true →
    c.peer ∈ ids ∧ ∃ t, w.tally? c.caller = some t ∧ c.request = t.request
  distinct : ∀ (i j : ℕ) c d, w.polls[i]? = some c → w.polls[j]? = some d →
    c.waiting = true → d.waiting = true → c.caller = d.caller → c.peer = d.peer → i = j
  votes : ∀ a t, w.tally? a = some t → t.request.candidate = a ∧
    ∃ s, Voters ids backs w.polls a t s

variable {ids : List NodeId} {backs backs' : VoteRequest → NodeId → Prop} {w w' : World σ μ}

lemma tally?_change (id a : NodeId) (f : Node σ (Journal μ) → Node σ (Journal μ))
    (w : World σ μ) :
    (w.change id f).tally? a =
      if id = a then (w.cluster.node? a).map f >>= Node.tally else w.tally? a := by
  unfold tally? change
  rw [Cluster.node?_modify]
  split <;> rfl

/-- As long as none is asked in the candidate's name, the voters stay the same. -/
lemma Voters.mono {polls polls' : List (Call VoteRequest VoteReply)} {a : NodeId} {t t' : Tally}
    {s : List NodeId} (h : Voters ids backs polls a t s) (hv : t'.votes = t.votes)
    (hb : ∀ v, backs t.request v → backs' t'.request v)
    (hp : ∀ (i : ℕ) c', polls'[i]? = some c' → c'.waiting = true → c'.caller = a →
      ∃ c, polls[i]? = some c ∧ c.After c') : Voters ids backs' polls' a t' s where
  nodup := h.nodup
  sub := h.sub
  votes_le := hv ▸ h.votes_le
  backed v hvs := hb v (h.backed v hvs)
  answered i c' hc' hw hcall := by
    obtain ⟨c, hc, haft⟩ := hp i c' hc' hw hcall
    rw [haft.peer]
    exact h.answered i c hc (haft.waiting hw) (haft.caller ▸ hcall)

/-- Whoever was not asked twice is not asked twice when nobody new is asked. -/
lemma Tallied.distinct_after (h : Tallied ids backs w)
    (hp : ∀ (i : ℕ) c', w'.polls[i]? = some c' → ∃ c, w.polls[i]? = some c ∧ c.After c')
    (i j : ℕ) (c' d' : Call VoteRequest VoteReply) (hc' : w'.polls[i]? = some c')
    (hd' : w'.polls[j]? = some d') (hw : c'.waiting = true) (hw' : d'.waiting = true)
    (hcall : c'.caller = d'.caller) (hpeer : c'.peer = d'.peer) : i = j := by
  obtain ⟨c, hc, hca⟩ := hp i c' hc'
  obtain ⟨d, hd, hda⟩ := hp j d' hd'
  rw [hca.caller, hda.caller] at hcall
  rw [hca.peer, hda.peer] at hpeer
  exact h.distinct i j c d hc hd (hca.waiting hw) (hda.waiting hw') hcall hpeer

/-- A step in which no count goes on: calls may be answered, counts may end, and whoever ends a
count no longer waits for votes. -/
lemma Tallied.wane (h : Tallied ids backs w) (hb : ∀ r v, backs r v → backs' r v)
    (hp : ∀ (i : ℕ) c', w'.polls[i]? = some c' → ∃ c, w.polls[i]? = some c ∧ c.After c' ∧
      (c'.waiting = true → w'.tally? c.caller = w.tally? c.caller) ∧
      ∀ a ∈ c'.replies, a.granted = true → a ∈ c.replies ∨ backs' c.request c.peer)
    (ht : ∀ a t, w'.tally? a = some t → w.tally? a = some t) : Tallied ids backs' w' where
  granted i c' hc' a ha hg := by
    obtain ⟨c, hc, haft, -, hr⟩ := hp i c' hc'
    rw [haft.request, haft.peer]
    rcases hr a ha hg with ha | h'
    · exact hb _ _ (h.granted i c hc a ha hg)
    · exact h'
  waiting i c' hc' hw := by
    obtain ⟨c, hc, haft, htal, -⟩ := hp i c' hc'
    obtain ⟨hmem, t, ht, hreq⟩ := h.waiting i c hc (haft.waiting hw)
    rw [haft.request, haft.peer, haft.caller]
    exact ⟨hmem, t, (htal hw).trans ht, hreq⟩
  distinct := h.distinct_after fun i c' hc' => by
    obtain ⟨c, hc, haft, -⟩ := hp i c' hc'
    exact ⟨c, hc, haft⟩
  votes a t hat := by
    obtain ⟨hcand, s, hs⟩ := h.votes a t (ht a t hat)
    refine ⟨hcand, s, hs.mono rfl (hb _) fun i c' hc' _ _ => ?_⟩
    obtain ⟨c, hc, haft, -⟩ := hp i c' hc'
    exact ⟨c, hc, haft⟩

/-- Nothing that a count rests on is touched. -/
lemma Tallied.quiet (h : Tallied ids backs w) (hb : ∀ r v, backs r v → backs' r v)
    (hp : w'.polls = w.polls) (ht : ∀ a, w'.tally? a = w.tally? a) : Tallied ids backs' w' := by
  refine h.wane hb (fun i c' hc' => ?_) fun a t hat => (ht a).symm.trans hat
  rw [hp] at hc'
  exact ⟨c', hc', .refl _, fun _ => ht _, fun a ha _ => Or.inl ha⟩

/-- A member is lost, or its election is over. -/
lemma Tallied.drop (h : Tallied ids backs w) (hb : ∀ r v, backs r v → backs' r v) {id : NodeId}
    (hp : w'.polls = w.polls.map (Call.drop id)) (hid : w'.tally? id = none)
    (ht : ∀ a, a ≠ id → w'.tally? a = w.tally? a) : Tallied ids backs' w' := by
  refine h.wane hb (fun i c' hc' => ?_) fun a t hat => ?_
  · rw [hp, List.getElem?_map] at hc'
    obtain ⟨c, hc, rfl⟩ := Option.map_eq_some_iff.mp hc'
    refine ⟨c, hc, c.drop_after id, fun hw => ht _ (Call.ne_of_drop_waiting hw), ?_⟩
    intro a ha _
    exact Or.inl (by simpa using ha)
  · by_cases ha : a = id
    · rw [ha, hid] at hat
      cases hat
    · exact (ht a ha).symm.trans hat

/-- A member with no election begins one: nobody waits for a vote in its name, and the first vote
is its own. -/
lemma Tallied.stand (h : Tallied ids backs w) (hb : ∀ r v, backs r v → backs' r v) (id : NodeId)
    (r : VoteRequest) (peers : List NodeId) (hnone : w.tally? id = none)
    (hp : w'.polls = w.polls ++ peers.map fun p => { caller := id, peer := p, request := r })
    (hnd : peers.Nodup) (hpeers : ∀ p ∈ peers, p ∈ ids ∧ p ≠ id) (hid : id ∈ ids)
    (htal : w'.tally? id = some { request := r }) (hr : r.candidate = id)
    (ht : ∀ a, a ≠ id → w'.tally? a = w.tally? a) (hself : backs' r id) :
    Tallied ids backs' w' := by
  have hcases : ∀ (i : ℕ) c', w'.polls[i]? = some c' →
      w.polls[i]? = some c' ∧ (c'.waiting = true → c'.caller ≠ id) ∨
      ∃ p, peers[i - w.polls.length]? = some p ∧ w.polls.length ≤ i ∧
        c' = { caller := id, peer := p, request := r } := by
    intro i c' hc'
    rw [hp] at hc'
    rcases Nat.lt_or_ge i w.polls.length with hi | hi
    · rw [List.getElem?_append_left hi] at hc'
      refine Or.inl ⟨hc', fun hw hcall => ?_⟩
      obtain ⟨-, t, htc, -⟩ := h.waiting i c' hc' hw
      rw [hcall, hnone] at htc
      cases htc
    · rw [List.getElem?_append_right hi, List.getElem?_map] at hc'
      obtain ⟨p, hpp, rfl⟩ := Option.map_eq_some_iff.mp hc'
      exact Or.inr ⟨p, hpp, hi, rfl⟩
  refine ⟨?_, ?_, ?_, ?_⟩
  · intro i c' hc' a ha hg
    rcases hcases i c' hc' with ⟨hc, -⟩ | ⟨p, -, -, rfl⟩
    · exact hb _ _ (h.granted i c' hc a ha hg)
    · cases ha
  · intro i c' hc' hw
    rcases hcases i c' hc' with ⟨hc, hne⟩ | ⟨p, hpp, -, rfl⟩
    · obtain ⟨hmem, t, htc, hreq⟩ := h.waiting i c' hc hw
      exact ⟨hmem, t, (ht _ (hne hw)).trans htc, hreq⟩
    · exact ⟨(hpeers p (List.mem_of_getElem? hpp)).1, _, htal, rfl⟩
  · intro i j c' d' hc' hd' hw hw' hcall hpeer
    rcases hcases i c' hc' with ⟨hc, hne⟩ | ⟨p, hpp, hi, rfl⟩ <;>
      rcases hcases j d' hd' with ⟨hd, hne'⟩ | ⟨q, hq, hj, rfl⟩
    · exact h.distinct i j c' d' hc hd hw hw' hcall hpeer
    · exact absurd hcall (hne hw)
    · exact absurd hcall.symm (hne' hw')
    · have hpq : p = q := hpeer
      subst hpq
      have := (List.getElem?_inj (List.getElem?_eq_some_iff.mp hpp).1 hnd).mp (hpp.trans hq.symm)
      omega
  · intro a t hat
    by_cases ha : a = id
    · subst ha
      obtain rfl := Option.some.inj (htal.symm.trans hat)
      refine ⟨hr, [a], List.nodup_singleton a, by simpa using hid, le_rfl, ?_, ?_⟩
      · intro v hv
        rw [List.mem_singleton.mp hv]
        exact hself
      · intro i c' hc' hw hcall
        rcases hcases i c' hc' with ⟨-, hne⟩ | ⟨p, hpp, -, rfl⟩
        · exact absurd hcall (hne hw)
        · simpa using (hpeers p (List.mem_of_getElem? hpp)).2
    · obtain ⟨hcand, s, hs⟩ := h.votes a t ((ht a ha).symm.trans hat)
      refine ⟨hcand, s, hs.mono rfl (hb _) fun i c' hc' hw hcall => ?_⟩
      rcases hcases i c' hc' with ⟨hc, -⟩ | ⟨p, -, -, rfl⟩
      · exact ⟨c', hc, .refl c'⟩
      · exact absurd hcall.symm ha

/-- A candidate takes up an answer. A vote is from a member whose vote was not counted yet, since
each peer was asked once in an election. -/
lemma Tallied.count [BallotStore σ] [LogStore σ] [Reopen σ] [LawfulStore σ]
    (h : Tallied ids backs w) {i : ℕ} {c : Call VoteRequest VoteReply}
    (hc : w.polls[i]? = some c) (hw : c.waiting = true) (pick : Except NetworkError ℕ)
    (hp : w'.polls = w.polls.modify i Call.hangUp)
    (htal : ∀ n, w.cluster.node? c.caller = some n →
      w'.tally? c.caller = (n.countVote (c.answer pick)).tally)
    (ht : ∀ a, a ≠ c.caller → w'.tally? a = w.tally? a) : Tallied ids backs w' := by
  obtain ⟨hmem, t, htc, hreq⟩ := h.waiting i c hc hw
  obtain ⟨n, hn, hnt⟩ := Option.bind_eq_some_iff.mp htc
  obtain ⟨t', ht', hreq', hvotes⟩ := (n.countVote_cases (c.answer pick)).2 t hnt
  have hat' : w'.tally? c.caller = some t' := (htal n hn).trans ht'
  have hcases : ∀ (j : ℕ) d', w'.polls[j]? = some d' → ∃ d, w.polls[j]? = some d ∧ d.After d' ∧
      d'.replies = d.replies ∧ (d'.waiting = true → j ≠ i) := by
    intro j d' hd'
    rw [hp, List.getElem?_modify] at hd'
    obtain ⟨d, hd, hdd⟩ := Option.map_eq_some_iff.mp hd'
    by_cases hij : i = j
    · rw [if_pos hij] at hdd
      subst hdd
      exact ⟨d, hd, d.hangUp_after, rfl, fun hw => by cases hw⟩
    · rw [if_neg hij] at hdd
      subst hdd
      exact ⟨d, hd, .refl _, rfl, fun _ => Ne.symm hij⟩
  have hafter : ∀ (j : ℕ) d', w'.polls[j]? = some d' → ∃ d, w.polls[j]? = some d ∧ d.After d' := by
    intro j d' hd'
    obtain ⟨d, hd, haft, -⟩ := hcases j d' hd'
    exact ⟨d, hd, haft⟩
  refine ⟨?_, ?_, ?_, ?_⟩
  · intro j d' hd' a ha hg
    obtain ⟨d, hd, haft, hrep, -⟩ := hcases j d' hd'
    rw [haft.request, haft.peer]
    exact h.granted j d hd a (hrep ▸ ha) hg
  · intro j d' hd' hw'
    obtain ⟨d, hd, haft, -, -⟩ := hcases j d' hd'
    obtain ⟨hdm, u, hu, hdr⟩ := h.waiting j d hd (haft.waiting hw')
    rw [haft.request, haft.peer, haft.caller]
    by_cases hdc : d.caller = c.caller
    · refine ⟨hdm, t', hdc ▸ hat', ?_⟩
      rw [hdc, htc] at hu
      rw [hdr, hreq', ← Option.some.inj hu]
    · exact ⟨hdm, u, (ht _ hdc).trans hu, hdr⟩
  · exact h.distinct_after hafter
  · intro a u hau
    by_cases ha : a = c.caller
    · subst ha
      obtain rfl := Option.some.inj (hat'.symm.trans hau)
      obtain ⟨hcand, s, hs⟩ := h.votes _ t htc
      rw [hreq']
      refine ⟨hcand, ?_⟩
      rcases hvotes with hv | ⟨hv, r, hr, hg, -⟩
      · exact ⟨s, hs.mono hv (fun v hvs => hreq'.symm ▸ hvs) fun j d' hd' _ _ => hafter j d' hd'⟩
      -- the voter is new, and none from whom an answer is awaited is the voter
      · refine ⟨c.peer :: s, List.nodup_cons.mpr ⟨hs.answered i c hc hw rfl, hs.nodup⟩,
          List.cons_subset.mpr ⟨hmem, hs.sub⟩, ?_, ?_, ?_⟩
        · rw [hv, List.length_cons]
          exact Nat.succ_le_succ hs.votes_le
        · intro v hvs
          rw [hreq']
          rcases List.mem_cons.mp hvs with rfl | hvs
          · exact hreq ▸ h.granted i c hc r (Call.mem_of_answer hr) hg
          · exact hs.backed v hvs
        · intro j d' hd' hw' hcall
          obtain ⟨d, hd, hda, -, hji⟩ := hcases j d' hd'
          have hdw := hda.waiting hw'
          have hdc : d.caller = c.caller := hda.caller ▸ hcall
          rw [hda.peer, List.mem_cons, not_or]
          refine ⟨fun hdp => hji hw' ?_, hs.answered j d hd hdw hdc⟩
          exact h.distinct j i d c hd hc hdw hw hdc hdp
    · obtain ⟨hcand, s, hs⟩ := h.votes a u ((ht a ha).symm.trans hau)
      exact ⟨hcand, s, hs.mono rfl (fun v hvs => hvs) fun j d' hd' _ _ => hafter j d' hd'⟩

lemma tally?_change_of_eq (id : NodeId) {f : Node σ (Journal μ) → Node σ (Journal μ)}
    (hf : ∀ n, (f n).tally = n.tally) (w : World σ μ) (a : NodeId) :
    (w.change id f).tally? a = w.tally? a := by
  rw [tally?_change]
  split
  · unfold tally?
    rcases w.cluster.node? a with _ | n
    · rfl
    · exact hf n
  · rfl

lemma tally?_change_of_ne {id a : NodeId} (h : a ≠ id)
    (f : Node σ (Journal μ) → Node σ (Journal μ)) (w : World σ μ) :
    (w.change id f).tally? a = w.tally? a := by
  rw [tally?_change, if_neg (Ne.symm h)]

lemma tally?_of_find? {a : NodeId}
    (h : Table.find? a w'.cluster.hosts = Table.find? a w.cluster.hosts) :
    w'.tally? a = w.tally? a := by
  unfold tally? Cluster.node?
  rw [h]

end World

/-! ### Histories -/

namespace History

variable {σ μ : Type} [LogStore σ] [BallotStore σ] [Reopen σ] [LawfulStore σ] [Machine μ]

/-- At some time a member has voted as the request asked, with a log no better than that of the
candidate. -/
def Backs (x : History σ μ) (k : ℕ) (r : VoteRequest) (v : NodeId) : Prop :=
  ∃ j ≤ k, x.ballot j v = ⟨r.term, some r.candidate⟩ ∧ r.Covers (x.log j v)

variable {x : History σ μ} {k : ℕ} {a b : NodeId} {t : Term} {n : Node σ (Journal μ)}

lemma Backs.succ {r : VoteRequest} {v : NodeId} (h : x.Backs k r v) : x.Backs (k + 1) r v := by
  obtain ⟨j, hj, hb⟩ := h
  exact ⟨j, Nat.le_succ_of_le hj, hb⟩

lemma node?_change {id : NodeId} {f : Node σ (Journal μ) → Node σ (Journal μ)}
    (h : (x.world (k + 1)).cluster = (x.world k).cluster.modify id f)
    (hn : x.node? k id = some n) : x.node? (k + 1) id = some (f n) := by
  unfold node? at hn ⊢
  rw [h, Cluster.node?_modify, if_pos rfl, hn]
  rfl

/-- Whoever grants a vote backs the candidate. -/
lemma backs_of_granted {r : VoteRequest}
    (h : (x.world (k + 1)).cluster = (x.world k).cluster.modify a fun n => (n.receiveVote r).2)
    (hn : x.node? k a = some n) (hg : (n.receiveVote r).1.granted = true) :
    x.Backs (k + 1) r a := by
  have hn' := node?_change h hn
  obtain ⟨hb, -, hc⟩ := Node.receiveVote_granted hg
  refine ⟨k + 1, le_rfl, (ballot_of_node hn').trans hb, ?_⟩
  rw [log_of_node hn', (n.receiveVote_rests r).entries]
  exact hc

/-- A member that was lost or started anew runs no election. -/
lemma tally?_boot (x : History σ μ) (k : ℕ) (id : NodeId) (m : μ) :
    ((x.world k).perform (.boot id m)).tally? id = none := by
  have hb : Table.find? id ((x.world k).perform (.boot id m)).cluster.hosts = _ :=
    (x.world k).cluster.find?_boot (⟨m, []⟩ : Journal μ) id id
  rw [if_pos rfl] at hb
  unfold World.tally? Cluster.node?
  rw [hb]
  cases hh : Table.find? id (x.world k).cluster.hosts with
  | none => rfl
  | some h =>
    obtain ⟨store', -, ⟨j, hb⟩ | ⟨-, hb⟩⟩ := Host.boot_cases m (fit k hh).numbered
    · exact congrArg (fun h => Host.node? h >>= Node.tally) hb
    · exact congrArg (fun h => Host.node? h >>= Node.tally) hb

lemma tallied_stand {id : NodeId} (h : (x.world k).Tallied x.members (x.Backs k))
    (hact : x.acts k = .stand id) :
    ((x.world k).perform (.stand id)).Tallied x.members (x.Backs (k + 1)) := by
  have hb : ∀ r v, x.Backs k r v → x.Backs (k + 1) r v := fun r v h => h.succ
  have hcl : (x.world (k + 1)).cluster =
      (x.world k).cluster.modify id fun n => n.startElection.2 := by
    rw [world, hact]
    rfl
  have htal := fun a => World.tally?_change id a (fun n => n.startElection.2) (x.world k)
  -- an election that does not begin asks nobody
  have hquiet : (x.world k).asked id = [] → (∀ n, x.node? k id = some n →
      n.startElection.2.tally = n.tally) →
      ((x.world k).perform (.stand id)).Tallied x.members (x.Backs (k + 1)) := by
    intro hasked hsame
    refine h.quiet hb ?_ fun a => (htal a).trans ?_
    · show (x.world k).polls ++ (x.world k).asked id = _
      rw [hasked, List.append_nil]
    · split
      · rename_i hid
        subst hid
        unfold World.tally?
        rcases hn : (x.world k).cluster.node? id with _ | n
        · rfl
        · exact hsame n hn
      · rfl
  cases hn : x.node? k id with
  | none =>
    refine hquiet ?_ fun n hn' => by rw [hn] at hn'; cases hn'
    unfold World.asked
    rw [show (x.world k).cluster.node? id = none from hn]
  | some n =>
    have hcn : (x.world k).cluster.node? id = some n := hn
    rcases n.startElection_cases with ⟨hnone, -, hsame⟩ | ⟨hnone, store', hc, hs⟩
    · refine hquiet ?_ fun m hm => ?_
      · unfold World.asked
        rw [hcn]
        dsimp only
        rw [hnone]
      · rw [hn] at hm
        exact Option.some.inj hm ▸ hsame
    · obtain ⟨hfit, hself, hmem, hnd, hid⟩ := fit_node hn
      have hn' := node?_change hcl hn
      rw [hs] at hn'
      refine h.stand hb id n.candidacy n.config.peers ?_ ?_ ?_ ?_ hid ?_ hself
        (fun a ha => World.tally?_change_of_ne ha _ _) ?_
      · exact (congrArg (· >>= Node.tally) hcn).trans hnone
      · show _ ++ World.asked id (x.world k) = _
        unfold World.asked
        rw [hcn]
        dsimp only
        rw [hs]
      · exact (hmem ▸ hnd : n.config.members.Nodup).filter _
      · intro p hp
        obtain ⟨h1, h2⟩ := Config.mem_peers hp
        exact ⟨hmem ▸ h1, hself ▸ h2⟩
      · refine (htal id).trans ?_
        rw [if_pos rfl, hcn]
        exact congrArg (fun p => p.2.tally) hs
      · refine ⟨k + 1, le_rfl, ballot_of_node hn', ?_⟩
        rw [log_of_node hn']
        exact n.candidacy_covers

/-- An answer that grants a vote comes from a member that has cast it. -/
lemma tallied_poll {i : ℕ} (h : (x.world k).Tallied x.members (x.Backs k))
    (hact : x.acts k = .poll i) :
    ((x.world k).perform (.poll i)).Tallied x.members (x.Backs (k + 1)) := by
  have hb : ∀ r v, x.Backs k r v → x.Backs (k + 1) r v := fun r v h => h.succ
  rcases hc : (x.world k).polls[i]? with _ | c
  · simp only [World.perform, hc]
    exact h.quiet hb rfl fun _ => rfl
  · have hcl : (x.world (k + 1)).cluster =
        (x.world k).cluster.modify c.peer fun n => (n.receiveVote c.request).2 := by
      rw [world, hact]
      simp only [World.perform, hc]
      rfl
    simp only [World.perform, hc]
    have htal := World.tally?_change_of_eq c.peer (fun n => n.receiveVote_tally c.request)
      (x.world k)
    refine h.wane hb (fun j d' hd' => ?_) fun a t hat => (htal a).symm.trans hat
    rw [List.getElem?_modify] at hd'
    obtain ⟨d, hd, rfl⟩ := Option.map_eq_some_iff.mp hd'
    split
    · rename_i hij
      subst hij
      obtain rfl : d = c := Option.some.inj (hd.symm.trans hc)
      refine ⟨d, hd, d.reply_after _, fun _ => htal _, fun a ha hg => ?_⟩
      rcases List.mem_append.mp ha with ha | ha
      · exact Or.inl ha
      · obtain ⟨n, hn, rfl⟩ := Option.map_eq_some_iff.mp (Option.mem_toList.mp ha)
        exact Or.inr (backs_of_granted hcl hn hg)
    · exact ⟨d, hd, .refl _, fun _ => htal _, fun a ha _ => Or.inl ha⟩

lemma tallied_count {i : ℕ} (h : (x.world k).Tallied x.members (x.Backs k))
    (pick : Except NetworkError ℕ) :
    ((x.world k).perform (.count i pick)).Tallied x.members (x.Backs (k + 1)) := by
  have hup : (x.world k).Tallied x.members (x.Backs (k + 1)) :=
    h.quiet (fun r v h => h.succ) rfl fun _ => rfl
  rcases hc : (x.world k).polls[i]? with _ | c
  · simp only [World.perform, hc]
    exact hup
  · by_cases hw : c.waiting = true
    · simp only [World.perform, hc, if_pos hw]
      refine hup.count hc hw pick rfl (fun n hn => ?_) fun a ha => ?_
      · refine (World.tally?_change _ _ _ _).trans ?_
        rw [if_pos rfl, hn]
        rfl
      · exact World.tally?_change_of_ne ha _ _
    · simp only [World.perform, hc, if_neg hw]
      exact hup

/-- The counts of all candidates rest on votes that were cast. -/
lemma tallied (x : History σ μ) (k : ℕ) : (x.world k).Tallied x.members (x.Backs k) := by
  induction k with
  | zero =>
    have hpolls : ∀ (i : ℕ) c, (x.world 0).polls[i]? ≠ some c := by
      intro i c hc
      have : (x.world 0).polls = [] := x.isNew.polls
      rw [this] at hc
      cases hc
    refine ⟨fun i c hc => absurd hc (hpolls i c), fun i c hc => absurd hc (hpolls i c),
      fun i j c d hc => absurd hc (hpolls i c), fun a t ht => ?_⟩
    obtain ⟨n, hn, -⟩ := Option.bind_eq_some_iff.mp ht
    cases hn.symm.trans (x.node?_zero a)
  | succ k ih =>
    have hb : ∀ r v, x.Backs k r v → x.Backs (k + 1) r v := fun r v h => h.succ
    have hquiet : ∀ id (f : Node σ (Journal μ) → Node σ (Journal μ)),
        (∀ n, (f n).tally = n.tally) → ((x.world k).change id f).Tallied x.members
          (x.Backs (k + 1)) :=
      fun id f hf => ih.quiet hb rfl (World.tally?_change_of_eq id hf _)
    show ((x.world k).perform (x.acts k)).Tallied _ _
    cases hact : x.acts k with
    | boot id m =>
      refine ih.drop hb rfl (tally?_boot x k id m) fun a ha => World.tally?_of_find? ?_
      exact (Cluster.find?_boot _ _ _ _).trans (if_neg (Ne.symm ha))
    | crash id =>
      refine ih.drop hb rfl ?_ fun a ha => World.tally?_of_find? ?_
      · have hc : Table.find? id ((x.world k).perform (.crash id)).cluster.hosts = _ :=
          (x.world k).cluster.find?_crash id id
        unfold World.tally? Cluster.node?
        rw [hc, if_pos rfl]
        rcases Table.find? id (x.world k).cluster.hosts with _ | h <;> rfl
      · exact (Cluster.find?_crash _ _ _).trans (if_neg (Ne.symm ha))
    | stand id => exact tallied_stand ih hact
    | poll i => exact tallied_poll ih hact
    | count i pick => exact tallied_count ih pick
    | close id =>
      refine ih.drop hb rfl ?_ fun a ha => World.tally?_change_of_ne ha _ _
      refine (World.tally?_change _ _ _ _).trans ?_
      rw [if_pos rfl]
      rcases (x.world k).cluster.node? id with _ | n
      · rfl
      · exact n.closeElection_cases.1
    | send id peer => exact ih.quiet hb rfl fun _ => rfl
    | deliver i =>
      rcases hc : (x.world k).rounds[i]? with _ | c
      · simp only [World.perform, hc]
        exact ih.quiet hb rfl fun _ => rfl
      · simp only [World.perform, hc]
        exact (hquiet _ _ fun n => (n.receiveAppend_goes _).2).quiet (fun _ _ h => h) rfl
          fun _ => rfl
    | finish i pick =>
      rcases hc : (x.world k).rounds[i]? with _ | c
      · simp only [World.perform, hc]
        exact ih.quiet hb rfl fun _ => rfl
      · by_cases hw : c.waiting = true
        · simp only [World.perform, hc, if_pos hw]
          exact (hquiet _ _ fun n => n.finishRound_tally _ _).quiet (fun _ _ h => h) rfl
            fun _ => rfl
        · simp only [World.perform, hc, if_neg hw]
          exact ih.quiet hb rfl fun _ => rfl
    | submit id payload => exact hquiet _ _ fun n => n.submit_tally payload
    | giveUp id wr => exact hquiet _ _ fun _ => rfl
    | stepDown id t => exact hquiet _ _ fun _ => rfl
    | hand id m => exact hquiet _ _ fun n => n.receive_tally m

/-! ### One leader a term -/

/-- Whoever takes office has the votes of a majority. -/
lemma TakesOffice.voters {tl : Tally} (h : x.TakesOffice k a t n tl) :
    tl.request.candidate = a ∧ ∃ s, IsMajority x.members s ∧ ∀ v ∈ s, x.Backs k tl.request v := by
  have htal : (x.world k).tally? a = some tl := (congrArg (· >>= Node.tally) h.node).trans h.tally
  obtain ⟨hcand, s, hs⟩ := (x.tallied k).votes a tl htal
  refine ⟨hcand, s, ⟨hs.nodup, hs.sub, ?_⟩, hs.backed⟩
  have hmaj := h.majority
  rw [Config.majority, (fit_node h.node).2.2.1] at hmaj
  exact hmaj.trans hs.votes_le

/-- A leader has the ballots of a majority. -/
lemma Leads.voters (hx : x.CountsTo k) (h : x.Leads k a t) :
    ∃ s, IsMajority x.members s ∧ ∀ v ∈ s, ∃ j ≤ k, x.ballot j v = ⟨t, some a⟩ := by
  obtain ⟨j, hj, n, tl, ho, -⟩ := h.office hx
  obtain ⟨hcand, s, hs, hback⟩ := ho.voters
  refine ⟨s, hs, fun v hv => ?_⟩
  obtain ⟨i, hi, hbal, -⟩ := hback v hv
  rw [ho.request, hcand] at hbal
  exact ⟨i, hi.trans (Nat.le_of_lt hj), hbal⟩

/-- A member has one vote in a term, whenever it casts it. -/
lemma vote_unique {i j k : ℕ} {v : NodeId} (hx : x.CountsTo k) (hik : i ≤ k) (hjk : j ≤ k)
    (hi : x.ballot i v = ⟨t, some a⟩) (hj : x.ballot j v = ⟨t, some b⟩) : a = b := by
  rcases Nat.le_total i j with h | h
  · exact (ballot_before (hx.mono hjk) h v).vote_eq (by rw [hi, hj]) (by rw [hi]) (by rw [hj])
  · exact ((ballot_before (hx.mono hik) h v).vote_eq (by rw [hi, hj]) (by rw [hj])
      (by rw [hi])).symm

lemma Leads.unique {i j k : ℕ} (hx : x.CountsTo k) (hik : i ≤ k) (hjk : j ≤ k)
    (ha : x.Leads i a t) (hb : x.Leads j b t) : a = b := by
  obtain ⟨s, hs, hsv⟩ := ha.voters (hx.mono hik)
  obtain ⟨s', hs', hsv'⟩ := hb.voters (hx.mono hjk)
  obtain ⟨v, hv, hv'⟩ := hs.meet hs'
  obtain ⟨p, hp, hvp⟩ := hsv v hv
  obtain ⟨q, hq, hvq⟩ := hsv' v hv'
  exact vote_unique hx (hp.trans hik) (hq.trans hjk) hvp hvq

/-- **Election safety**: in all that can happen in a cluster, whatever is lost, delayed or repeated
and whatever fails, at most one member has led a term, as long as no election begins in the last
term. -/
theorem election_safety (x : History σ μ) {k : ℕ} (hx : x.CountsTo k) (t : Term) :
    {a | ∃ j ≤ k, x.Leads j a t}.Subsingleton := by
  rintro a ⟨i, hi, ha⟩ b ⟨j, hj, hb⟩
  exact ha.unique hx hi hj hb

/-- With the votes of two out of three a member is elected. -/
def elected : History Memory Kv := .play [1, 2, 3]
  [.boot 1 ⟨[]⟩, .boot 2 ⟨[]⟩, .boot 3 ⟨[]⟩, .stand 1, .poll 0, .count 0 (.ok 0), .close 1]

theorem election_safety_elected :
    elected.CountsTo 7 ∧ {a | ∃ j ≤ 7, elected.Leads j a 1} = {1} := by
  have hx : elected.CountsTo 7 := play_countsTo (by decide +kernel)
  have hl : elected.Leads 7 1 1 := ⟨_, rfl, rfl⟩
  exact ⟨hx, (election_safety elected hx 1).eq_singleton_of_mem ⟨7, le_rfl, hl⟩⟩

/-- Member 1 is told of the last term, stands for election there, and is elected by member 2. Then
member 2 does the same, and is elected by member 3. -/
def overrun : History Memory Kv := .play [1, 2, 3]
  [.boot 1 ⟨[]⟩, .boot 2 ⟨[]⟩, .boot 3 ⟨[]⟩, .stepDown 1 (wordLimit - 1), .stand 1, .poll 0,
    .count 0 (.ok 0), .close 1, .stepDown 2 (wordLimit - 1), .stand 2, .poll 3, .count 3 (.ok 0),
    .close 2]

/-- The count of terms has started over twice, and both lead its first term. -/
theorem overrun_led_by_two :
    overrun.Leads 13 1 0 ∧ overrun.Leads 13 2 0 ∧
      ¬ {a | ∃ k, overrun.Leads k a 0}.Subsingleton := by
  have h1 : overrun.Leads 13 1 0 := ⟨_, rfl, rfl⟩
  have h2 : overrun.Leads 13 2 0 := ⟨_, rfl, rfl⟩
  exact ⟨h1, h2, fun h => absurd (h ⟨13, h1⟩ ⟨13, h2⟩) (by decide)⟩

end History

end Quorum
