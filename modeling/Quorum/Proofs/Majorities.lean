import Mathlib.Order.Bounds.Basic
import Quorum.Proofs.Discipline
import Quorum.Proofs.World

/-!
How far a leader commits.

A leader looks at all positions behind its commit index at once and takes the last one that
qualifies: its entry is of the leader's own term, and a majority is known to agree up to it. It
would come to the same if it went through the positions in order, committed to each that qualifies
and applied each time (`Node.scan`), since committing changes nothing of what qualifies. An entry of
an earlier term is committed with a later one of the leader's own, and never decides by itself.
-/

namespace Quorum

namespace Node

variable {σ μ : Type} {n : Node σ μ} {i j : ℕ}

/-! ### Positions that qualify -/

/-- The members that are known to agree up to a position. -/
def backers (n : Node σ μ) (i : Index) : Finset NodeId :=
  n.config.members.toFinset.filter fun id => i ≤ (n.progress.row id).matched

/-- A leader may move its commit index to this position. -/
structure Qualifies (n : Node σ μ) (i : Index) : Prop where
  behind : n.log.commit < i
  entry : ∃ e, n.log.entry? i = some e ∧ e.term = n.term
  backed : n.config.majority ≤ (n.backers i).card

/-- Each member is counted once, if it is listed once. -/
lemma count_eq_card (hnd : n.config.members.Nodup) (hi : 0 < i) :
    n.progress.count n.config.members i = (n.backers i).card := by
  rw [ProgressTable.count_eq_card hnd, ProgressTable.holders_of_pos hi, backers]

lemma qualifies_iff (hnd : n.config.members.Nodup) (hrole : n.role = .leader) :
    n.Qualifies i ↔ n.log.commit < i ∧ n.Ripe i := by
  refine ⟨fun h => ⟨h.behind, ?_⟩, fun ⟨hlt, h⟩ => ⟨hlt, ?_, ?_⟩⟩
  · obtain ⟨k, rfl⟩ := Nat.exists_eq_succ_of_ne_zero (Nat.ne_of_gt (Nat.zero_lt_of_lt h.behind))
    obtain ⟨e, he, hterm⟩ := h.entry
    rw [Log.entry?_succ] at he
    obtain ⟨hk, -⟩ := List.getElem?_eq_some_iff.mp he
    refine ⟨Nat.succ_pos k, hk, leaderTerm_eq_some.mpr ⟨hrole, ?_⟩, ?_⟩
    · rw [termOf_succ he, hterm]
    · rw [count_eq_card hnd (Nat.succ_pos k)]
      exact h.backed
  · obtain ⟨k, rfl⟩ := Nat.exists_eq_succ_of_ne_zero (Nat.ne_of_gt h.pos)
    have hget := List.getElem?_eq_getElem h.le
    refine ⟨_, hget, ?_⟩
    rw [← termOf_succ hget]
    exact (leaderTerm_eq_some.mp h.term).2.symm
  · rw [← count_eq_card hnd h.pos]
    exact h.count

/-! ### Going through the positions in order -/

section Scanning

variable [Machine μ]

/-- Commits to a position and applies, if the member leads in the term of the entry there and a
majority is known to agree up to it. -/
def consider (n : Node σ μ) (i : Index) : Node σ μ :=
  if n.leaderTerm = some (n.log.termAt i) ∧ n.config.majority ≤ (n.backers i).card then
    { n with log := n.log.commitTo i }
  else n

/-- Considers the positions behind the commit index in order. -/
def scan (n : Node σ μ) : Node σ μ :=
  (List.range' (n.log.commit + 1) (n.log.lastIndex - n.log.commit)).foldl consider n

lemma consider_of_ripe (hnd : n.config.members.Nodup) (h : n.Ripe i) :
    n.consider i = { n with log := n.log.commitTo i } := by
  refine if_pos ⟨h.term, ?_⟩
  rw [← count_eq_card hnd h.pos]
  exact h.count

lemma consider_of_not_ripe (hnd : n.config.members.Nodup) (hpos : 0 < i)
    (hle : i ≤ n.log.entries.length) (h : ¬ n.Ripe i) : n.consider i = n := by
  refine if_neg fun ⟨hterm, hbacked⟩ => h ⟨hpos, hle, hterm, ?_⟩
  rw [count_eq_card hnd hpos]
  exact hbacked

/-- Where a scan has come to: at the last ripe position so far, or where it began if there was
none. -/
lemma foldl_consider {n : Node σ (Journal μ)} (hnd : n.config.members.Nodup) (hl : n.log.Steady)
    (m : ℕ) (hm : n.log.commit + m ≤ n.log.entries.length) :
    ∃ i, n.log.commit ≤ i ∧ i ≤ n.log.commit + m ∧ (i = n.log.commit ∨ n.Ripe i) ∧
      (∀ j, n.Ripe j → j ≤ n.log.commit + m → j ≤ i) ∧
      (List.range' (n.log.commit + 1) m).foldl consider n =
        { n with log := n.log.commitTo i } := by
  induction m with
  | zero =>
    refine ⟨n.log.commit, le_rfl, le_rfl, Or.inl rfl, fun j _ hj => hj, ?_⟩
    rw [Log.commitTo_of_le le_rfl]
    rfl
  | succ m ih =>
    obtain ⟨i, hci, him, hi, hlast, hn⟩ := ih (by lia)
    rw [List.range'_1_concat, List.foldl_append, hn, List.foldl_cons, List.foldl_nil]
    have hpos : 0 < n.log.commit + 1 + m := by lia
    have hle : n.log.commit + 1 + m ≤ n.log.entries.length := by lia
    by_cases hripe : n.Ripe (n.log.commit + 1 + m)
    · refine ⟨_, by lia, by lia, Or.inr hripe, fun j _ hj => by lia, ?_⟩
      -- it is still ripe after what was committed before
      have hstill : Ripe { n with log := n.log.commitTo i } (n.log.commit + 1 + m) :=
        hripe.of_eq rfl rfl (Log.commitTo_entries i) rfl
      rw [consider_of_ripe (n := { n with log := n.log.commitTo i }) hnd hstill]
      dsimp only
      rw [Log.commitTo_commitTo hl.applied_le (by lia) (by lia)]
    · refine ⟨i, hci, by lia, hi, fun j hj hjm => hlast j hj ?_, ?_⟩
      · have hne : j ≠ n.log.commit + 1 + m := fun h => hripe (h ▸ hj)
        lia
      · refine consider_of_not_ripe hnd hpos ?_ fun h => hripe ?_
        · rw [Log.commitTo_entries]
          exact hle
        · exact h.of_eq rfl rfl (Log.commitTo_entries i).symm rfl

lemma tryCommit_eq_scan {n : Node σ (Journal μ)} (hnd : n.config.members.Nodup)
    (hl : n.log.Steady) : n.tryCommit = n.scan := by
  have hlen : n.log.commit + (n.log.lastIndex - n.log.commit) = n.log.entries.length :=
    Nat.add_sub_cancel' hl.commit_le
  obtain ⟨i, hci, -, hi, hlast, hscan⟩ := foldl_consider hnd hl _ hlen.le
  rw [scan, hscan]
  rcases tryCommit_cases hl.numbered with ⟨htry, hnone⟩ | ⟨j, hlt, hj, hlast', htry⟩
  · have hic : i ≤ n.log.commit := hi.elim Eq.le (hnone i)
    rw [htry, Log.commitTo_of_le hic]
  · obtain rfl : i = j := by
      refine Nat.le_antisymm ?_ (hlast j hj (hj.le.trans hlen.ge))
      rcases hi with rfl | hi
      · exact Nat.le_of_lt hlt
      · exact hlast' i hi
    exact htry

end Scanning

/-! ### How far a leader commits -/

variable [Machine μ]

lemma tryCommit_of_not_leader (hn : Numbered n.log.entries) (hrole : n.role ≠ .leader) :
    n.tryCommit = n := by
  rcases tryCommit_cases hn with ⟨htry, -⟩ | ⟨i, -, hi, -, -⟩
  · exact htry
  · exact absurd (leaderTerm_eq_some.mp hi.term).1 hrole

lemma tryCommit_isGreatest {n : Node σ (Journal μ)} (hnd : n.config.members.Nodup)
    (hn : Numbered n.log.entries) (hrole : n.role = .leader) :
    IsGreatest (insert n.log.commit {i | n.Qualifies i}) n.tryCommit.log.commit := by
  rcases tryCommit_cases hn with ⟨htry, hnone⟩ | ⟨i, hlt, hi, hlast, htry⟩
  · rw [htry]
    refine ⟨Set.mem_insert _ _, ?_⟩
    rintro j (rfl | hj)
    · exact le_rfl
    · exact hnone j ((qualifies_iff hnd hrole).mp hj).2
  · have hcommit : n.tryCommit.log.commit = i := by
      rw [htry]
      exact Log.commitTo_commit_of_lt hlt
    rw [hcommit]
    refine ⟨Or.inr ((qualifies_iff hnd hrole).mpr ⟨hlt, hi⟩), ?_⟩
    rintro j (rfl | hj)
    · exact Nat.le_of_lt hlt
    · exact hlast j ((qualifies_iff hnd hrole).mp hj).2

/-- What is newly committed is applied, and no wait for it is left open. -/
lemma tryCommit_advanced {n : Node σ (Journal μ)} (hl : n.log.Steady)
    (h : n.log.commit < n.tryCommit.log.commit) :
    n.log.termAt n.tryCommit.log.commit = n.term ∧
      n.tryCommit.log.applied = n.tryCommit.log.commit ∧
      n.tryCommit.log.machine.given = n.log.entries.take n.tryCommit.log.commit ∧
      ∀ i t, n.log.applied < i → i ≤ n.tryCommit.log.commit →
        Table.find? i n.log.waits.filed = some t → n.log.waits.status? t = some .pending →
          n.tryCommit.log.waits.status? t = some .committed ∧
            Table.find? i n.tryCommit.log.waits.filed = none := by
  rcases tryCommit_cases hl.numbered with ⟨htry, -⟩ | ⟨i, hlt, hi, -, htry⟩
  · rw [htry] at h
    exact absurd h (Nat.lt_irrefl _)
  · obtain ⟨happ, hgiven⟩ := Log.commitTo_applied hl.applied_le hi.le
    rw [if_pos hlt] at happ
    have hall := hgiven hl.given
    rw [happ] at hall
    rw [htry]
    dsimp only
    rw [Log.commitTo_commit_of_lt hlt]
    refine ⟨(leaderTerm_eq_some.mp hi.term).2.symm, happ, hall, fun j t hj hji hf ht => ?_⟩
    exact Log.commitTo_told hf ht hj hji hlt hi.le

/-- **A leader commits exactly as far as it may**: to the last position that qualifies, if there is
one. Nobody else commits. It comes to the same as a scan in order. An entry of an older term never
decides how far, and whatever is committed is applied, and those who wait for it are told. -/
theorem tryCommit_exact {n : Node σ (Journal μ)} (hc : n.config.check = .ok ())
    (hl : n.log.Steady) :
    (n.role ≠ .leader → n.tryCommit = n) ∧
      (n.role = .leader →
        IsGreatest (insert n.log.commit {i | n.Qualifies i}) n.tryCommit.log.commit) ∧
      n.tryCommit = n.scan ∧
      (n.log.commit < n.tryCommit.log.commit →
        n.log.termAt n.tryCommit.log.commit = n.term ∧
          n.tryCommit.log.applied = n.tryCommit.log.commit ∧
          n.tryCommit.log.machine.given = n.log.entries.take n.tryCommit.log.commit ∧
          ∀ i t, n.log.applied < i → i ≤ n.tryCommit.log.commit →
            Table.find? i n.log.waits.filed = some t →
            n.log.waits.status? t = some .pending →
            n.tryCommit.log.waits.status? t = some .committed ∧
              Table.find? i n.tryCommit.log.waits.filed = none) := by
  obtain ⟨hnd, -⟩ := Config.of_check hc
  exact ⟨tryCommit_of_not_leader hl.numbered, tryCommit_isGreatest hnd hl.numbered,
    tryCommit_eq_scan hnd hl, tryCommit_advanced hl⟩

/-- A leader of term 3 with an entry of each term. A majority is known to agree up to some position,
and a client waits for the last entry. -/
def counting (matched : Index) : Node Memory (Journal Kv) where
  config := ⟨1, [1, 2, 3], {}⟩
  store := {}
  standing := ⟨⟨3, some 1⟩, .leader⟩
  log :=
    { entries := [⟨1, 1, [0]⟩, ⟨2, 2, [1]⟩, ⟨3, 3, [2]⟩], machine := ⟨⟨[]⟩, []⟩
      waits := { all := [{ index := 3 }], filed := [(3, 0)] } }
  progress := [(1, ⟨4, 3⟩), (2, ⟨matched + 1, matched⟩)]

theorem tryCommit_exact_counting :
    (counting 3).config.check = .ok () ∧ (counting 3).log.Steady ∧
      IsGreatest (insert 0 {i | (counting 3).Qualifies i}) 3 ∧
      (counting 3).tryCommit.log.machine.given = (counting 3).log.entries ∧
      (counting 3).tryCommit.log.waits.status? 0 = some .committed := by
  have hc : (counting 3).config.check = .ok () := rfl
  have hl : (counting 3).log.Steady := ⟨by decide, by decide, by decide, rfl⟩
  obtain ⟨-, hgreatest, -, hadvance⟩ := tryCommit_exact hc hl
  obtain ⟨-, -, hgiven, htold⟩ := hadvance (by decide)
  exact ⟨hc, hl, hgreatest rfl, hgiven, (htold 3 0 (by decide) (by decide) rfl rfl).1⟩

/-- An entry of an earlier term is not committed, even if a majority has it. -/
example : (counting 2).tryCommit.log.commit = 0 := rfl

end Node

end Quorum
