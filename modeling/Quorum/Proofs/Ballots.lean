import Mathlib.Logic.Relation
import Quorum.Proofs.Stores
import Quorum.Standing

/-!
How a standing changes: the ballot only goes forward, whatever storage does, and what is stored is
the ballot in force.

Only standing for election and taking office raise a role. Every other operation is a chain of small
changes (`Standing.Shift`): a role is given up, or a ballot is adopted and no role is raised. So
what a small change keeps, on whatever storage, every operation keeps; on storage that is lawful
that is `Standing.Turns`.
-/

namespace Quorum

open LawfulStore Relation

/-- A ballot gives way to one of a later term, or to one in the same term that keeps the vote. -/
def Ballot.Before (b b' : Ballot) : Prop :=
  b.term < b'.term ∨ b'.term = b.term ∧ (b.vote = none ∨ b'.vote = b.vote)

namespace Ballot.Before

variable {a b c : Ballot}

lemma refl (b : Ballot) : b.Before b := Or.inr ⟨rfl, Or.inr rfl⟩

lemma trans (h : a.Before b) (h' : b.Before c) : a.Before c := by
  rcases h with h | ⟨ht, hv⟩ <;> rcases h' with h' | ⟨ht', hv'⟩
  · exact Or.inl (Nat.lt_trans h h')
  · exact Or.inl (ht' ▸ h)
  · exact Or.inl (ht ▸ h')
  · refine Or.inr ⟨ht'.trans ht, ?_⟩
    rcases hv with hv | hv
    · exact Or.inl hv
    · rcases hv' with hv' | hv'
      · exact Or.inl (hv ▸ hv')
      · exact Or.inr (hv'.trans hv)

lemma term_le (h : a.Before b) : a.term ≤ b.term := by
  rcases h with h | ⟨h, -⟩
  · exact Nat.le_of_lt h
  · exact Nat.le_of_eq h.symm

/-- A vote once cast in a term is the vote of that term. -/
lemma vote_eq (h : a.Before b) (ht : b.term = a.term) {c d : NodeId} (ha : a.vote = some c)
    (hb : b.vote = some d) : c = d := by
  rcases h with h | ⟨-, h | h⟩
  · exact absurd ht (Nat.ne_of_gt h)
  · rw [ha] at h
    cases h
  · rw [ha, hb] at h
    exact (Option.some.inj h).symm

end Ballot.Before

namespace Standing

variable {σ : Type} {s s' s'' : Standing} {store store' store'' : σ}

section

variable [BallotStore σ]

/-- A ballot is taken once its write is reported as done, and not at all otherwise. -/
lemma adopt_eq (b : Ballot) (r : Role) (s : Standing) (store : σ) :
    (∃ store', BallotStore.writeBallot b store = (.ok (), store') ∧
      s.adopt b r store = (.ok (), ⟨b, r⟩, store')) ∨
    ∃ e store', BallotStore.writeBallot b store = (.error e, store') ∧
      s.adopt b r store = (.error e, s, store') := by
  unfold adopt
  rcases BallotStore.writeBallot b store with ⟨_ | _, store'⟩
  · exact Or.inr ⟨_, store', rfl, rfl⟩
  · exact Or.inl ⟨store', rfl, rfl⟩

/-- A vote that is given is the vote in force, in the term that it was asked for. -/
lemma ballot_of_cast {c : NodeId} (h : s.cast c store = (.ok true, s', store')) :
    s'.ballot = ⟨s.term, some c⟩ := by
  unfold cast at h
  split at h
  · rename_i other hv
    obtain ⟨h1, h2⟩ := Prod.mk.inj h
    have hc : other = c := by simpa using h1
    obtain ⟨rfl, -⟩ := Prod.mk.inj h2
    rw [← hc, ← hv]
    rfl
  · rcases adopt_eq ⟨s.term, some c⟩ s.role s store with ⟨st, -, ha⟩ | ⟨e, st, -, ha⟩
    · rw [ha] at h
      obtain ⟨-, h2⟩ := Prod.mk.inj h
      obtain ⟨rfl, -⟩ := Prod.mk.inj h2
      rfl
    · rw [ha] at h
      obtain ⟨h1, -⟩ := Prod.mk.inj h
      cases h1

lemma ballot_of_grant {t : Term} {c : NodeId} (h : s.grant t c store = (.ok true, s', store')) :
    s'.ballot = ⟨t, some c⟩ := by
  unfold grant at h
  split at h
  · obtain ⟨h1, -⟩ := Prod.mk.inj h
    cases h1
  · split at h
    · rcases adopt_eq ⟨t, none⟩ .follower s store with ⟨st, -, ha⟩ | ⟨e, st, -, ha⟩
      · rw [ha] at h
        exact ballot_of_cast h
      · rw [ha] at h
        obtain ⟨h1, -⟩ := Prod.mk.inj h
        cases h1
    · have ht : s.term = t := by lia
      rw [← ht]
      exact ballot_of_cast h

lemma ballot_of_stand {self : NodeId} {t : Term} (h : s.stand self store = (.ok t, s', store')) :
    s'.ballot = ⟨t, some self⟩ := by
  unfold stand at h
  rcases adopt_eq ⟨s.term.next, some self⟩ .candidate s store with ⟨st, -, ha⟩ | ⟨e, st, -, ha⟩
  · rw [ha] at h
    obtain ⟨h1, h2⟩ := Prod.mk.inj h
    obtain ⟨rfl, -⟩ := Prod.mk.inj h2
    rw [← Except.ok.inj h1]
    rfl
  · rw [ha] at h
    cases (Prod.mk.inj h).1

/-- A candidacy is for the next term. -/
lemma term_of_stand {self : NodeId} {t : Term} (h : s.stand self store = (.ok t, s', store')) :
    t = s.term.next := by
  unfold stand at h
  rcases adopt_eq ⟨s.term.next, some self⟩ .candidate s store with ⟨st, -, ha⟩ | ⟨e, st, -, ha⟩
  · rw [ha] at h
    exact (Except.ok.inj (Prod.mk.inj h).1).symm
  · rw [ha] at h
    cases (Prod.mk.inj h).1

/-- The small changes that raise no role. -/
inductive Shift : Standing × σ → Standing × σ → Prop
  | yields (s : Standing) (store : σ) : Shift (s, store) ({ s with role := .follower }, store)
  | adopts {b : Ballot} {r : Role} {s : Standing} (store : σ) : s.ballot.Before b →
      (r ≠ .follower → r = s.role ∧ b.term = s.term) → Shift (s, store) (s.adopt b r store).2

/-- A chain of small changes. -/
abbrev Shifts : Standing × σ → Standing × σ → Prop := ReflTransGen Shift

lemma follow_shifts (t : Term) (s : Standing) (store : σ) :
    Shifts (s, store) (s.follow t store).2 := by
  unfold follow
  split
  · rename_i ht
    exact .single (.adopts store (Or.inl ht) fun h => absurd rfl h)
  · exact .single (.yields s store)

lemma cast_shifts (c : NodeId) (s : Standing) (store : σ) :
    Shifts (s, store) (s.cast c store).2 := by
  unfold cast
  split
  · exact .refl
  · rename_i hv
    have ha : Shift (s, store) (s.adopt ⟨s.term, some c⟩ s.role store).2 :=
      .adopts store (Or.inr ⟨rfl, Or.inl hv⟩) fun _ => ⟨rfl, rfl⟩
    split <;> rename_i heq <;> rw [heq] at ha <;> exact .single ha

/-- Between the two writes of a vote in a later term the member is in that term without a vote. -/
lemma grant_shifts (t : Term) (c : NodeId) (s : Standing) (store : σ) :
    Shifts (s, store) (s.grant t c store).2 := by
  unfold grant
  split
  · exact .refl
  · split
    · rename_i ht
      have ha : Shift (s, store) (s.adopt ⟨t, none⟩ .follower store).2 :=
        .adopts store (Or.inl ht) fun h => absurd rfl h
      split <;> rename_i heq <;> rw [heq] at ha
      · exact .single ha
      · exact (cast_shifts c _ _).head ha
    · exact cast_shifts c s store

end

variable [LogStore σ] [BallotStore σ] [Reopen σ] [LawfulStore σ]

/-- A change that raises no role. Storage changes with the ballot and keeps its records. -/
structure Turns (s : Standing) (store : σ) (s' : Standing) (store' : σ) : Prop where
  before : s.ballot.Before s'.ballot
  role : s'.role ≠ .follower → s'.role = s.role ∧ s'.term = s.term
  records : (contents store').records = (contents store).records
  held : (contents store).ballot = s.ballot → (contents store').ballot = s'.ballot

namespace Turns

lemma refl (s : Standing) (store : σ) : Turns s store s store :=
  ⟨.refl _, fun _ => ⟨rfl, rfl⟩, rfl, id⟩

lemma trans (h : Turns s store s' store') (h' : Turns s' store' s'' store'') :
    Turns s store s'' store'' where
  before := h.before.trans h'.before
  role hr := by
    obtain ⟨h1, h2⟩ := h'.role hr
    obtain ⟨h3, h4⟩ := h.role (h1 ▸ hr)
    exact ⟨h1.trans h3, h2.trans h4⟩
  records := h'.records.trans h.records
  held hs := h'.held (h.held hs)

end Turns

/-- A ballot is taken once it is stored, and not at all if it cannot be. -/
lemma adopt_cases (b : Ballot) (r : Role) (s : Standing) (store : σ) :
    (∃ store', s.adopt b r store = (.ok (), ⟨b, r⟩, store') ∧
      contents store' = { contents store with ballot := b }) ∨
    ∃ e store', s.adopt b r store = (.error e, s, store') ∧
      contents store' = contents store := by
  rcases adopt_eq b r s store with ⟨store', hw, ha⟩ | ⟨e, store', hw, ha⟩
  · exact Or.inl ⟨store', ha, writeBallot_ok hw⟩
  · exact Or.inr ⟨e, store', ha, writeBallot_error hw⟩

/-- Storage that holds the ballot goes on to hold it. -/
lemma Shift.turns {p p' : Standing × σ} (h : Shift p p') : Turns p.1 p.2 p'.1 p'.2 := by
  cases h with
  | yields s store => exact ⟨.refl _, fun h => absurd rfl h, rfl, id⟩
  | @adopts b r s store hb hr =>
    rcases adopt_cases b r s store with ⟨store', h, hc⟩ | ⟨e, store', h, hc⟩
    · rw [h]
      exact ⟨hb, hr, by rw [hc], fun _ => by rw [hc]⟩
    · rw [h]
      exact ⟨.refl _, fun _ => ⟨rfl, rfl⟩, by rw [hc], fun hs => by rw [hc, hs]⟩

lemma Shifts.turns {p p' : Standing × σ} (h : Shifts p p') : Turns p.1 p.2 p'.1 p'.2 := by
  induction h with
  | refl => exact .refl _ _
  | tail _ hlast ih => exact ih.trans hlast.turns

lemma follow_turns (t : Term) (s : Standing) (store : σ) :
    Turns s store (s.follow t store).2.1 (s.follow t store).2.2 :=
  (follow_shifts t s store).turns

lemma grant_turns (t : Term) (c : NodeId) (s : Standing) (store : σ) :
    Turns s store (s.grant t c store).2.1 (s.grant t c store).2.2 :=
  (grant_shifts t c s store).turns

/-- Standing for election is the next term with a vote for oneself, or nothing at all. -/
lemma stand_cases (self : NodeId) (s : Standing) (store : σ) :
    (∃ store', s.stand self store =
        (.ok s.term.next, ⟨⟨s.term.next, some self⟩, .candidate⟩, store') ∧
      contents store' = { contents store with ballot := ⟨s.term.next, some self⟩ }) ∨
    ∃ e store', s.stand self store = (.error e, s, store') ∧
      contents store' = contents store := by
  unfold stand
  rcases adopt_cases ⟨s.term.next, some self⟩ .candidate s store with
    ⟨st, ha, hc⟩ | ⟨e, st, ha, hc⟩
  · rw [ha]
    exact Or.inl ⟨st, rfl, hc⟩
  · rw [ha]
    exact Or.inr ⟨e, st, rfl, hc⟩

lemma restore_cases (store : σ) :
    (∃ store', restore store = (.ok { ballot := (contents store).ballot }, store') ∧
      contents store' = contents store) ∨
    ∃ e store', restore store = (.error e, store') ∧ contents store' = contents store := by
  unfold restore
  rcases hr : BallotStore.readBallot store with ⟨_ | b, store'⟩
  · exact Or.inr ⟨_, store', rfl, readBallot_error hr⟩
  · obtain ⟨rfl, hc⟩ := readBallot_ok hr
    exact Or.inl ⟨store', rfl, hc⟩

/-- Whoever follows in a term, and has it stored, follows in that term or a later one. -/
lemma follow_standing {t : Term} (h : (s.follow t store).1 = .ok ()) :
    (s.follow t store).2.1 =
      if s.term < t then ⟨⟨t, none⟩, .follower⟩ else { s with role := .follower } := by
  unfold follow at h ⊢
  split
  · rename_i ht
    rw [if_pos ht] at h
    rcases adopt_cases ⟨t, none⟩ .follower s store with ⟨st, ha, -⟩ | ⟨e, st, ha, -⟩
    · rw [ha]
    · rw [ha] at h
      cases h
  · rfl

end Standing

end Quorum
