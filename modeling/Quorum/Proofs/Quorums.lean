import Mathlib.Data.Finset.Card
import Mathlib.Data.List.Nodup
import Mathlib.Data.List.Perm.Subperm
import Quorum.Progress

/-!
What the check of a configuration says, and why counting members of a checked one means something.

Four conditions are looked at in order, and the first that fails is the answer (`Config.Judged`).
Where all of them hold, every member is listed once: a count over the list is a count of different
members, the peers are all the others, and two majorities share a member (`IsMajority.meet`).
-/

namespace Quorum

/-! ### Majorities -/

/-- More than half of the members, each listed once. -/
structure IsMajority (ids s : List NodeId) : Prop where
  nodup : s.Nodup
  sub : s ⊆ ids
  half : ids.length / 2 + 1 ≤ s.length

/-- Two majorities have a member in common. -/
lemma IsMajority.meet {ids s t : List NodeId} (hs : IsMajority ids s) (ht : IsMajority ids t) :
    ∃ v, v ∈ s ∧ v ∈ t := by
  by_contra hc
  have hd : s.Disjoint t := fun v hv hv' => hc ⟨v, hv, hv'⟩
  have hsub : (s ++ t).Subperm ids :=
    List.subperm_of_subset (hs.nodup.append ht.nodup hd) (List.append_subset.mpr ⟨hs.sub, ht.sub⟩)
  have hlen := hsub.length_le
  have h1 := hs.half
  have h2 := ht.half
  rw [List.length_append] at hlen
  omega

namespace Config

variable {c : Config} {ids seen : List NodeId} {id : NodeId} {r : Except ConfigError Unit}

/-! ### Members that are listed twice -/

lemma firstRepeat?_eq_none (hids : ids.Nodup) (hseen : ∀ id ∈ ids, id ∉ seen) :
    firstRepeat? seen ids = none := by
  induction ids generalizing seen with
  | nil => rfl
  | cons id ids ih =>
    obtain ⟨hid, hids⟩ := List.nodup_cons.mp hids
    rw [firstRepeat?, if_neg (hseen id List.mem_cons_self)]
    refine ih hids fun j hj hmem => ?_
    rcases List.mem_cons.mp hmem with rfl | hmem
    · exact hid hj
    · exact hseen j (List.mem_cons_of_mem _ hj) hmem

lemma nodup_of_firstRepeat? (h : firstRepeat? seen ids = none) :
    ids.Nodup ∧ ∀ id ∈ ids, id ∉ seen := by
  induction ids generalizing seen with
  | nil => exact ⟨List.nodup_nil, by simp⟩
  | cons id ids ih =>
    unfold firstRepeat? at h
    split at h
    · cases h
    · rename_i hid
      obtain ⟨h1, h2⟩ := ih h
      refine ⟨List.nodup_cons.mpr ⟨fun hm => h2 id hm List.mem_cons_self, h1⟩, ?_⟩
      intro j hj
      rcases List.mem_cons.mp hj with rfl | hj
      · exact hid
      · exact fun hm => h2 j hj (List.mem_cons_of_mem _ hm)

/-- What stands before the first repeat is listed once, and the repeat is listed there or was seen
before. -/
lemma exists_of_firstRepeat? (h : firstRepeat? seen ids = some id) :
    ∃ before after, ids = before ++ id :: after ∧ before.Nodup ∧ (∀ j ∈ before, j ∉ seen) ∧
      (id ∈ seen ∨ id ∈ before) := by
  induction ids generalizing seen with
  | nil => cases h
  | cons i ids ih =>
    unfold firstRepeat? at h
    split at h
    · rename_i hi
      cases h
      exact ⟨[], ids, rfl, List.nodup_nil, by simp, Or.inl hi⟩
    · rename_i hi
      obtain ⟨before, after, rfl, hnd, hseen, hid⟩ := ih h
      refine ⟨i :: before, after, rfl, List.nodup_cons.mpr ⟨fun hm => ?_, hnd⟩, ?_, ?_⟩
      · exact hseen i hm List.mem_cons_self
      · intro j hj
        rcases List.mem_cons.mp hj with rfl | hj
        · exact hi
        · exact fun hm => hseen j hj (List.mem_cons_of_mem _ hm)
      · rcases hid with hid | hid
        · rcases List.mem_cons.mp hid with rfl | hid
          · exact Or.inr List.mem_cons_self
          · exact Or.inl hid
        · exact Or.inr (List.mem_cons_of_mem _ hid)

lemma firstRepeat?_eq_some {before after : List NodeId} (hnd : before.Nodup)
    (hseen : ∀ j ∈ before, j ∉ seen) (hid : id ∈ seen ∨ id ∈ before) :
    firstRepeat? seen (before ++ id :: after) = some id := by
  induction before generalizing seen with
  | nil => exact if_pos (hid.resolve_right List.not_mem_nil)
  | cons j before ih =>
    obtain ⟨hj, hnd⟩ := List.nodup_cons.mp hnd
    rw [List.cons_append, firstRepeat?, if_neg (hseen j List.mem_cons_self)]
    refine ih hnd (fun i hi hm => ?_) ?_
    · rcases List.mem_cons.mp hm with rfl | hm
      · exact hj hi
      · exact hseen i (List.mem_cons_of_mem _ hi) hm
    · rcases hid with hid | hid
      · exact Or.inl (List.mem_cons_of_mem _ hid)
      · rcases List.mem_cons.mp hid with rfl | hid
        · exact Or.inl List.mem_cons_self
        · exact Or.inr hid

/-! ### The check -/

/-- A configuration that a member can use. -/
structure Sound (c : Config) : Prop where
  populated : c.members ≠ []
  nodup : c.members.Nodup
  member : c.self ∈ c.members
  window : c.timing.electionMin < c.timing.electionMax

/-- What is to be said of a configuration: that it is sound, or else the first of four conditions
that fails. -/
inductive Judged (c : Config) : Except ConfigError Unit → Prop
  | empty : c.members = [] → Judged c (.error .emptyCluster)
  | repeated {before after : List NodeId} {id : NodeId} : c.members = before ++ id :: after →
      before.Nodup → id ∈ before → Judged c (.error (.duplicateMember id))
  | stranger : c.members ≠ [] → c.members.Nodup → c.self ∉ c.members →
      Judged c (.error (.unknownSelf c.self))
  | narrow : c.members ≠ [] → c.members.Nodup → c.self ∈ c.members →
      c.timing.electionMax ≤ c.timing.electionMin →
      Judged c (.error (.emptyElectionWindow c.timing.electionMin c.timing.electionMax))
  | sound : c.Sound → Judged c (.ok ())

lemma check_judged (c : Config) : c.Judged c.check := by
  by_cases hempty : c.members = []
  · rw [check, if_pos hempty]
    exact .empty hempty
  rw [check, if_neg hempty]
  rcases hrepeat : firstRepeat? [] c.members with _ | id
  · obtain ⟨hnd, -⟩ := nodup_of_firstRepeat? hrepeat
    dsimp only
    split_ifs with hself hwindow
    · exact .narrow hempty hnd hself hwindow
    · exact .sound ⟨hempty, hnd, hself, Nat.lt_of_not_le hwindow⟩
    · exact .stranger hempty hnd hself
  · obtain ⟨before, after, heq, hnd, -, hmem⟩ := exists_of_firstRepeat? hrepeat
    exact .repeated heq hnd (hmem.resolve_left List.not_mem_nil)

lemma Judged.check_eq (h : c.Judged r) : c.check = r := by
  have hnone : c.members.Nodup → firstRepeat? [] c.members = none := fun hnd =>
    firstRepeat?_eq_none hnd (by simp)
  cases h with
  | empty hempty => exact if_pos hempty
  | repeated heq hnd hmem =>
    rw [check, if_neg (by simp [heq]), heq, firstRepeat?_eq_some hnd (by simp) (Or.inr hmem)]
  | stranger hempty hnd hself => simp [check, hempty, hnone hnd, hself]
  | narrow hempty hnd hself hwindow => simp [check, hempty, hnone hnd, hself, hwindow]
  | sound h =>
    have hwindow := Nat.not_le_of_lt h.window
    simp [check, h.populated, hnone h.nodup, h.member, hwindow]

lemma check_eq_iff : c.check = r ↔ c.Judged r :=
  ⟨fun h => h ▸ c.check_judged, Judged.check_eq⟩

lemma sound_iff_check : c.Sound ↔ c.check = .ok () :=
  ⟨fun h => (Judged.sound h).check_eq, fun h => by
    cases check_eq_iff.mp h with
    | sound h => exact h⟩

lemma of_check (h : c.check = .ok ()) : c.members.Nodup ∧ c.self ∈ c.members :=
  have hs := sound_iff_check.mpr h
  ⟨hs.nodup, hs.member⟩

/-! ### Counting members -/

lemma mem_peers (h : id ∈ c.peers) : id ∈ c.members ∧ id ≠ c.self := by
  simpa [peers] using h

namespace Sound

lemma perm_peers (h : c.Sound) : (c.self :: c.peers).Perm c.members := by
  have herase : c.peers = c.members.erase c.self := by
    rw [h.nodup.erase_eq_filter, peers]
    exact List.filter_congr fun id _ => by rw [decide_not, bne, beq_eq_decide]
  rw [herase]
  exact (List.perm_cons_erase h.member).symm

lemma majority_le (h : c.Sound) : c.majority ≤ c.members.length := by
  have hpos := List.length_pos_of_ne_nil h.populated
  unfold majority
  omega

/-- Two sets of at least as many members as a majority share one. -/
lemma meet {A B : Finset NodeId} (hA : A ⊆ c.members.toFinset)
    (hB : B ⊆ c.members.toFinset) (hcA : c.majority ≤ A.card) (hcB : c.majority ≤ B.card) :
    ∃ id ∈ A, id ∈ B := by
  have hmajority : ∀ S : Finset NodeId, S ⊆ c.members.toFinset → c.majority ≤ S.card →
      IsMajority c.members S.toList := fun S hS hcS =>
    ⟨S.nodup_toList, fun id hid => List.mem_toFinset.mp (hS (Finset.mem_toList.mp hid)),
      by rwa [Finset.length_toList]⟩
  obtain ⟨id, hid, hid'⟩ := (hmajority A hA hcA).meet (hmajority B hB hcB)
  exact ⟨id, Finset.mem_toList.mp hid, Finset.mem_toList.mp hid'⟩

end Sound

end Config

namespace ProgressTable

variable {members : List NodeId} {t : ProgressTable} {i j : Index}

/-- The members with a row that says they agree up to a position. -/
def holders (members : List NodeId) (i : Index) (t : ProgressTable) : Finset NodeId :=
  members.toFinset.filter fun id => ∃ p ∈ Table.find? id t, i ≤ p.matched

/-- Each member is counted once, if it is listed once. -/
lemma count_eq_card (hnd : members.Nodup) (i : Index) (t : ProgressTable) :
    t.count members i = (t.holders members i).card := by
  have hset : t.holders members i =
      (members.filter fun id => ∃ p ∈ Table.find? id t, i ≤ p.matched).toFinset := by
    ext id
    simp [holders]
  rw [hset, List.toFinset_card_of_nodup (hnd.filter _), count, List.countP_eq_length_filter]
  refine congrArg List.length (List.filter_congr fun id _ => ?_)
  rcases Table.find? id t with _ | p <;> simp

/-- Who has no row is known to agree up to position 0 alone. -/
lemma holders_of_pos (hi : 0 < i) :
    t.holders members i = members.toFinset.filter fun id => i ≤ (t.row id).matched := by
  refine Finset.filter_congr fun id _ => ?_
  unfold row
  rcases Table.find? id t with _ | p
  · simpa using Nat.ne_of_gt hi
  · simp

lemma count_antitone (members : List NodeId) (t : ProgressTable) :
    Antitone fun i => t.count members i := by
  intro i j hij
  refine List.countP_mono_left fun id _ h => ?_
  rcases hp : Table.find? id t with _ | p
  · simp [hp] at h
  · simp only [hp, decide_eq_true_eq] at h ⊢
    exact hij.trans h

end ProgressTable

namespace Config

/-- **The check of a configuration gives what counting needs.** It succeeds on the sound
configurations and otherwise names the first condition that fails. The peers of a sound
configuration are its members but one, a majority can be reached and is never reached by two sets
of members apart, and a count of those who hold a position counts members, each of them once, and
no more of them the further the position. -/
theorem check_counts (c : Config) :
    (c.check = .ok () ↔ c.Sound) ∧ (∀ r, c.check = r ↔ c.Judged r) ∧
      (c.check = .ok () →
        (c.self :: c.peers).Perm c.members ∧
        (1 ≤ c.majority ∧ c.majority ≤ c.members.toFinset.card) ∧
        (∀ A B : Finset NodeId, A ⊆ c.members.toFinset → B ⊆ c.members.toFinset →
          c.majority ≤ A.card → c.majority ≤ B.card → ∃ id ∈ A, id ∈ B) ∧
        ∀ t : ProgressTable,
          (∀ i, t.count c.members i = (t.holders c.members i).card) ∧
          (∀ i, 0 < i → t.count c.members i =
            (c.members.toFinset.filter fun id => i ≤ (t.row id).matched).card) ∧
          Antitone fun i => t.count c.members i) := by
  refine ⟨sound_iff_check.symm, fun r => check_eq_iff, fun h => ?_⟩
  have hs := sound_iff_check.mpr h
  have hcount := fun i t => ProgressTable.count_eq_card hs.nodup i t
  refine ⟨hs.perm_peers, ⟨Nat.le_add_left 1 _, ?_⟩, fun A B => Sound.meet, fun t => ?_⟩
  · rw [List.toFinset_card_of_nodup hs.nodup]
    exact hs.majority_le
  · refine ⟨fun i => hcount i t, fun i hi => ?_, t.count_antitone c.members⟩
    rw [hcount i t, ProgressTable.holders_of_pos hi]

/-- An even number of members, of which half is not a majority. -/
def four : Config := ⟨1, [3, 1, 4, 2], {}⟩

theorem check_counts_four :
    four.check = .ok () ∧ (four.self :: four.peers).Perm [3, 1, 4, 2] ∧
      (∃ id ∈ ({3, 1, 4} : Finset NodeId), id ∈ ({2, 1, 3} : Finset NodeId)) ∧
      ProgressTable.count four.members 1 [(4, ⟨8, 7⟩), (3, ⟨3, 2⟩), (5, ⟨9, 8⟩)] = 2 ∧
      ProgressTable.count four.members 5 [(4, ⟨8, 7⟩), (3, ⟨3, 2⟩), (5, ⟨9, 8⟩)] ≤ 2 := by
  have hc : four.check = .ok () := rfl
  obtain ⟨-, -, hsound⟩ := check_counts four
  obtain ⟨hperm, -, hmeet, hcount⟩ := hsound hc
  obtain ⟨-, hrow, hanti⟩ := hcount [(4, ⟨8, 7⟩), (3, ⟨3, 2⟩), (5, ⟨9, 8⟩)]
  have htwo := hrow 1 (by decide)
  have hfewer := hanti (show 1 ≤ 5 by decide)
  dsimp only at hfewer
  rw [htwo] at hfewer
  exact ⟨hc, hperm, hmeet {3, 1, 4} {2, 1, 3} (by decide) (by decide) (by decide) (by decide),
    htwo, hfewer⟩

end Config

end Quorum
