import Quorum.Proofs.Commitment

/-!
A leader's cursors: what its table of progress says of the members' logs is so.

The cursors of every row stay within the leader's log (`ProgressTable.Charts`). What a row takes to
be matched, its member has held in the leader's term (`History.knows`), and as long as the member is
in that term it holds it still: every request of the term is a slice of one growing log, and no such
request takes back what that log has.
-/

namespace Quorum

/-- The cursors of a row lie within a log of this length. -/
structure Progress.Within (len : ℕ) (p : Progress) : Prop where
  next_pos : 1 ≤ p.next
  next_le : p.next ≤ len + 1
  matched_le : p.matched ≤ len

lemma Progress.Within.mono {len len' : ℕ} {p : Progress} (h : p.Within len) (hle : len ≤ len') :
    p.Within len' := by
  have h1 := h.next_le
  have h2 := h.matched_le
  exact ⟨h.next_pos, by lia, by lia⟩

namespace ProgressTable

variable {c : Config} {len : ℕ} {t : ProgressTable} {p : NodeId} {row : Progress}

lemma row_eq_of_find? (h : Table.find? p t = some row) : t.row p = row := by
  unfold ProgressTable.row
  rw [h]

/-- What is in a new leader's table. -/
lemma find?_fresh (c : Config) (size : ℕ) (p : NodeId) :
    Table.find? p (fresh c size) = if c.self = p then some ⟨size, size - 1⟩
      else if p ∈ c.peers then some ⟨size, 0⟩ else none := by
  have hpeers : ∀ (ids : List NodeId) (t : ProgressTable),
      Table.find? p (ids.foldl (fun t id => Table.insert id ⟨size, 0⟩ t) t) =
        if p ∈ ids then some ⟨size, 0⟩ else Table.find? p t := by
    intro ids
    induction ids with
    | nil => simp
    | cons id ids ih =>
      intro t
      rw [List.foldl_cons, ih, Table.find?_insert]
      by_cases h : p ∈ ids
      · simp [h]
      · by_cases hid : id = p
        · simp [hid]
        · simp [h, hid, Ne.symm hid]
  unfold fresh
  rw [Table.find?_insert, hpeers, Table.find?_nil]

/-- A table for a log of this length: it has a row for every member, all cursors lie within the
log, and the leader itself has all of it. -/
structure Charts (c : Config) (len : ℕ) (t : ProgressTable) : Prop where
  rows : ∀ p row, Table.find? p t = some row → row.Within len
  members : ∀ p ∈ c.members, ∃ row, Table.find? p t = some row
  own : (t.row c.self).matched = len

lemma charts_fresh (c : Config) (len : ℕ) : Charts c len (fresh c (len + 1)) where
  rows p row hrow := by
    rw [find?_fresh] at hrow
    split_ifs at hrow
    · obtain rfl := Option.some.inj hrow
      exact ⟨by simp, by simp, by simp⟩
    · obtain rfl := Option.some.inj hrow
      exact ⟨by simp, by simp, by simp⟩
  members p hp := by
    rw [find?_fresh]
    by_cases hself : c.self = p
    · exact ⟨_, if_pos hself⟩
    · have hpeer : p ∈ c.peers := by simp [Config.peers, hp, Ne.symm hself]
      exact ⟨_, by rw [if_neg hself, if_pos hpeer]⟩
  own := by
    have hself := (find?_fresh c (len + 1) c.self).trans (if_pos rfl)
    rw [row_eq_of_find? hself, Nat.add_sub_cancel]

namespace Charts

/-- A row that is not there has matched nothing. -/
lemma matched_le (h : Charts c len t) (p : NodeId) : (t.row p).matched ≤ len := by
  cases hp : Table.find? p t with
  | none => simp [ProgressTable.row, hp]
  | some row =>
    rw [row_eq_of_find? hp]
    exact (h.rows p row hp).matched_le

/-- One row is written, and the log may have grown to the length that the new row is within. -/
lemma insert (h : Charts c len t) {len' : ℕ} (hle : len ≤ len') (hrow : row.Within len')
    (hown : (ProgressTable.row c.self (Table.insert p row t)).matched = len') :
    Charts c len' (Table.insert p row t) where
  rows q r hr := by
    rw [Table.find?_insert] at hr
    split_ifs at hr
    · exact Option.some.inj hr ▸ hrow
    · exact (h.rows q r hr).mono hle
  members q hq := by
    rw [Table.find?_insert]
    split_ifs
    · exact ⟨row, rfl⟩
    · exact h.members q hq
  own := hown

lemma advance (h : Charts c len t) {i : ℕ} (hi : i ≤ len) (p : NodeId) :
    Charts c len (t.advance p i) := by
  have hm : max (t.row p).matched i ≤ len := max_le (h.matched_le p) hi
  refine h.insert le_rfl ⟨by simp, Nat.succ_le_succ hm, hm⟩ ?_
  show ((t.advance p i).row c.self).matched = len
  rw [matched_advance]
  split_ifs with hp
  · rw [hp, h.own]
    exact max_eq_left hi
  · exact h.own

/-- The leader adds an entry to its log and counts it as its own. -/
lemma grow (h : Charts c len t) : Charts c (len + 1) (t.advance c.self (len + 1)) := by
  have hmax : max (t.row c.self).matched (len + 1) = len + 1 := by
    rw [h.own]
    exact max_eq_right (Nat.le_succ len)
  refine h.insert (Nat.le_succ len) ?_ ?_
  · rw [hmax]
    exact ⟨by simp, le_rfl, le_rfl⟩
  · rw [row_insert, if_pos rfl]
    exact hmax

lemma backOff (h : Charts c len t) (p : NodeId) : Charts c len (t.backOff p) := by
  have hnext : (t.row p).next ≤ len + 1 := by
    cases hp : Table.find? p t with
    | none => simp [ProgressTable.row, hp]
    | some row =>
      rw [row_eq_of_find? hp]
      exact (h.rows p row hp).next_le
  refine h.insert le_rfl ⟨le_max_right _ _, by simp; lia, h.matched_le p⟩ ?_
  show ((t.backOff p).row c.self).matched = len
  rw [matched_backOff]
  exact h.own

end Charts

end ProgressTable

namespace History

variable {σ μ : Type} [LogStore σ] [BallotStore σ] [Reopen σ] [LawfulStore σ] [Machine μ]
variable {x : History σ μ} {k : ℕ} {a p : NodeId} {t : Term} {n : Node σ (Journal μ)}

/-- A leader's table is one for its own log. -/
lemma charts (hx : x.IsRegular) (hn : x.node? k a = some n) (hl : n.role = .leader) :
    n.progress.Charts n.config n.log.entries.length := by
  induction k generalizing n with
  | zero => cases hn.symm.trans (x.node?_zero a)
  | succ k ih =>
    rcases node_cases hx hn with ⟨c, store, m, -, rfl⟩ | ⟨m, hm, hmoves⟩
    · cases hl
    · cases hmoves with
      | rests _ hr =>
        obtain ⟨hrole, -⟩ := hr.turns.role (by rw [show n.standing.role = _ from hl]; simp)
        rw [hr.progress, hr.config, hr.entries]
        exact ih hm (hrole.symm.trans hl)
      | stands => cases hl
      | leads => exact ProgressTable.charts_fresh _ _
      | writes t payload store' hlt =>
        have hold := ih hm (Node.leaderTerm_eq_some.mp hlt).1
        have hlen : (m.wrote t payload store').log.entries.length = m.log.entries.length + 1 :=
          List.length_append
        rw [Node.tryCommit_progress, Node.tryCommit_config, Node.tryCommit_entries, hlen]
        exact hold.grow
      | learns c reply hc hca hrep hok hlt =>
        have hold := ih hm (Node.leaderTerm_eq_some.mp hlt).1
        have hsent := (knows_acked hx hm hlt hc hca hrep hok).1
        rw [Node.tryCommit_progress, Node.tryCommit_config, Node.tryCommit_entries]
        exact hold.advance hsent c.peer
      | retries q => exact (ih (n := m) hm hl).backOff q
      | follows c m₁ hf => cases hf.role.symm.trans hl

/-- What a leader knows of a member that is not in a later term, the member has. -/
lemma Knows.isPrefix (hx : x.IsRegular) (hn : x.node? k a = some n) (hl : n.leaderTerm = some t)
    {i : ℕ} (h : x.Knows k n p i) (ht : (x.ballot k p).term ≤ t) :
    n.log.entries.take i <+: x.log k p := by
  obtain ⟨-, rfl | ⟨j, hj, hterm, hpre⟩⟩ := h
  · exact List.nil_prefix
  · refine prefix_kept hx hj hpre fun s hs hs' i' _ c hc => ?_
    have hnt := (Node.leaderTerm_eq_some.mp hl).2
    obtain rfl : s = t := by lia
    -- the leader of that term at any time is this one, and its log only grows
    have hown : n.log.entries.take i <+: x.log k a := by
      rw [log_of_node hn]
      exact List.take_prefix _ _
    rcases hc.log_comparable hx ⟨n, hn, hl⟩ with hcmp | hcmp
    · exact List.prefix_or_prefix_of_prefix hown hcmp
    · exact Or.inl (hown.trans hcmp)

/-- What it means that a leader's cursors tell the truth. -/
structure Candid (x : History σ μ) (k : ℕ) (a : NodeId) (n : Node σ (Journal μ)) : Prop where
  /-- The leader counts all of its own log. -/
  own : (n.progress.row a).matched = n.log.entries.length
  /-- There is a row for every member, and every row is within the log. -/
  known : ∀ p ∈ x.members, ∃ row, Table.find? p n.progress = some row
  within : ∀ p row, Table.find? p n.progress = some row →
    1 ≤ row.next ∧ row.next ≤ n.log.entries.length + 1 ∧ row.matched ≤ n.log.entries.length
  /-- A running member that is not in a later term has what its row takes to be matched. -/
  matched : ∀ p row m, Table.find? p n.progress = some row → x.node? k p = some m →
    m.term ≤ n.term → m.log.entries.take row.matched = n.log.entries.take row.matched
  /-- So has one that does not run, in what it has stored. -/
  stored : ∀ p row, Table.find? p n.progress = some row → (x.ballot k p).term ≤ n.term →
    (x.log k p).take row.matched = n.log.entries.take row.matched

/-- **A leader's cursors tell the truth**, whatever is lost, delayed or repeated, and whatever
becomes of the members in between. -/
theorem cursors_candid (hx : x.IsRegular) (hn : x.node? k a = some n)
    (hl : n.leaderTerm = some t) : x.Candid k a n := by
  obtain ⟨hrole, hterm⟩ := Node.leaderTerm_eq_some.mp hl
  obtain ⟨-, hself, hmem, -⟩ := fit_node hn
  have hch := charts hx hn hrole
  have hstored : ∀ p row, Table.find? p n.progress = some row → (x.ballot k p).term ≤ n.term →
      (x.log k p).take row.matched = n.log.entries.take row.matched := by
    intro p row hrow hle
    have hknow := knows hx hn hrole p
    rw [ProgressTable.row_eq_of_find? hrow] at hknow
    have hpre := hknow.isPrefix hx hn hl (hterm ▸ hle)
    have hlen : row.matched ≤ (n.log.entries.take row.matched).length := by
      rw [List.length_take, min_eq_left hknow.1]
    rw [take_eq_of_isPrefix hpre hlen, List.take_take, min_self]
  refine ⟨?_, ?_, fun p row hrow => ?_, fun p row m hrow hm hle => ?_, hstored⟩
  · rw [← hself]
    exact hch.own
  · rw [← hmem]
    exact hch.members
  · have hw := hch.rows p row hrow
    exact ⟨hw.next_pos, hw.next_le, hw.matched_le⟩
  · have h := hstored p row hrow (by rw [ballot_of_node hm]; exact hle)
    rwa [log_of_node hm] at h

/-- Member 1 leads and sends two commands, one after the other, to member 2. The answer to the
second round comes first, and member 2 is lost and started anew before the other one. -/
def acknowledged : History Memory Kv := .play [1, 2, 3]
  [.boot 1 ⟨[]⟩, .boot 2 ⟨[]⟩, .boot 3 ⟨[]⟩, .stand 1, .poll 0, .count 0 (.ok 0), .close 1,
    .submit 1 [0], .send 1 2, .deliver 0, .submit 1 [1], .send 1 2, .deliver 1, .finish 1 (.ok 0),
    .crash 2, .boot 2 ⟨[]⟩, .finish 0 (.ok 0)]

theorem cursors_candid_acknowledged : acknowledged.IsRegular ∧
    ∃ n m, acknowledged.node? 17 1 = some n ∧ n.leaderTerm = some 1 ∧
      acknowledged.node? 17 2 = some m ∧ Table.find? 2 n.progress = some ⟨3, 2⟩ ∧
      m.log.entries.take 2 = n.log.entries.take 2 := by
  have hx : acknowledged.IsRegular :=
    play_isRegular _ (by simp [Action.IsGenuine]) (by decide +kernel)
  have hc := cursors_candid hx (k := 17) (a := 1) rfl rfl
  exact ⟨hx, _, _, rfl, rfl, rfl, rfl, hc.matched 2 ⟨3, 2⟩ _ rfl rfl (by decide)⟩

end History

end Quorum
