import Quorum.Proofs.Ballots

/-!
One vote a term, over the whole life of a member, whatever becomes of its writes.

A write of a ballot may be lost, and it may be reported as lost though the ballot was replaced, so
what is stored can be ahead of the ballot in force. It is never behind it (`Post.Backed`), which is
what a restart needs. The ballot in force goes forward at every step, restarts included, and a vote
that is given is the vote in force. Only a candidacy in the last term there is leads back to an
earlier one.
-/

namespace Quorum

open LawfulStore

/-! ### Storage that may lie about a failure -/

/-- What becomes of a write. -/
inductive WriteFate
  | done
  /-- It fails and changes nothing. -/
  | lost
  /-- It is reported as failed, though the ballot was replaced. -/
  | hidden

/-- Storage with the fates of all writes of a ballot that are to come. -/
structure Fickle (σ : Type) where
  store : σ
  fates : ℕ → WriteFate

namespace Fickle

variable {σ : Type}

/-- The fates from the second one on. -/
def spent (f : Fickle σ) : ℕ → WriteFate := fun i => f.fates (i + 1)

instance [BallotStore σ] : BallotStore (Fickle σ) where
  readBallot f :=
    match BallotStore.readBallot f.store with
    | (r, store) => (r, { f with store })
  writeBallot b f :=
    match f.fates 0 with
    | .done =>
      match BallotStore.writeBallot b f.store with
      | (r, store) => (r, ⟨store, f.spent⟩)
    | .lost => (.error (.io .other), ⟨f.store, f.spent⟩)
    | .hidden => (.error (.io .other), ⟨(BallotStore.writeBallot b f.store).2, f.spent⟩)

/-- No write is reported as failed that was not. -/
def Plain (f : Fickle σ) : Prop := ∀ i, f.fates i ≠ .hidden

lemma Plain.spent {f : Fickle σ} (h : f.Plain) (store : σ) : Plain ⟨store, f.spent⟩ :=
  fun i => h (i + 1)

variable [LogStore σ] [BallotStore σ] [Reopen σ] [LawfulStore σ]

/-- The ballot that is stored. -/
def held (f : Fickle σ) : Ballot := (contents f.store).ballot

lemma read_cases (f : Fickle σ) :
    (∃ f', BallotStore.readBallot f = (.ok f.held, f') ∧ f'.held = f.held ∧
      (f.Plain → f'.Plain)) ∨
    ∃ e f', BallotStore.readBallot f = (.error e, f') ∧ f'.held = f.held ∧
      (f.Plain → f'.Plain) := by
  simp only [BallotStore.readBallot]
  rcases hr : BallotStore.readBallot f.store with ⟨e | b, store⟩
  · exact Or.inr ⟨e, _, rfl, congrArg Memory.ballot (readBallot_error hr), id⟩
  · obtain ⟨rfl, hc⟩ := readBallot_ok hr
    exact Or.inl ⟨_, rfl, congrArg Memory.ballot hc, id⟩

/-- After a write that is reported as failed, the ballot may be the old one or the new one. -/
lemma write_cases (b : Ballot) (f : Fickle σ) :
    (∃ f', BallotStore.writeBallot b f = (.ok (), f') ∧ f'.held = b ∧ (f.Plain → f'.Plain)) ∨
    ∃ e f', BallotStore.writeBallot b f = (.error e, f') ∧ (f'.held = f.held ∨ f'.held = b) ∧
      (f.Plain → f'.Plain ∧ f'.held = f.held) := by
  simp only [BallotStore.writeBallot]
  rcases hw : BallotStore.writeBallot b f.store with ⟨e | _, store⟩
  · have hold : held ⟨store, f.spent⟩ = f.held := congrArg Memory.ballot (writeBallot_error hw)
    rcases hf : f.fates 0 with _ | _ | _
    · exact Or.inr ⟨e, _, rfl, Or.inl hold, fun h => ⟨h.spent _, hold⟩⟩
    · exact Or.inr ⟨_, _, rfl, Or.inl rfl, fun h => ⟨h.spent _, rfl⟩⟩
    · exact Or.inr ⟨_, _, rfl, Or.inl hold, fun h => ⟨h.spent _, hold⟩⟩
  · have hnew : held ⟨store, f.spent⟩ = b := congrArg Memory.ballot (writeBallot_ok hw)
    rcases hf : f.fates 0 with _ | _ | _
    · exact Or.inl ⟨_, rfl, hnew, fun h => h.spent _⟩
    · exact Or.inr ⟨_, _, rfl, Or.inl rfl, fun h => ⟨h.spent _, rfl⟩⟩
    · exact Or.inr ⟨_, _, rfl, Or.inr hnew, fun h => absurd hf (h 0)⟩

end Fickle

/-! ### One step of a life -/

/-- The ballot in force and what is stored. -/
structure Post (σ : Type) where
  standing : Standing
  store : Fickle σ

/-- What happens to a member's standing: one of its changes, or a restart. -/
inductive Motion
  | follow (t : Term)
  | stand
  | lead (t : Term)
  | withdraw (t : Term)
  | grant (t : Term) (candidate : NodeId)
  | restart

namespace Post

variable {σ : Type}

section

variable [BallotStore σ]

/-- How a member stands after an operation that gave an answer. -/
def upon {α : Type} (answer : α × Standing × Fickle σ) : Post σ := ⟨answer.2.1, answer.2.2⟩

/-- A restart that cannot read the ballot does not take place. -/
def restarted (p : Post σ) : Post σ :=
  match Standing.restore p.store with
  | (.ok standing, store) => ⟨standing, store⟩
  | (.error _, store) => { p with store }

def moved (self : NodeId) (p : Post σ) : Motion → Post σ
  | .follow t => upon (p.standing.follow t p.store)
  | .stand => upon (p.standing.stand self p.store)
  | .lead t => { p with standing := (p.standing.lead t).2 }
  | .withdraw t => { p with standing := (p.standing.withdraw t).2 }
  | .grant t candidate => upon (p.standing.grant t candidate p.store)
  | .restart => p.restarted

/-- To stand for election is to adopt a ballot. -/
lemma upon_stand (self : NodeId) (s : Standing) (f : Fickle σ) :
    upon (s.stand self f) = upon (s.adopt ⟨s.term.next, some self⟩ .candidate f) := by
  unfold Standing.stand
  split <;> rename_i heq <;> rw [heq] <;> rfl

end

variable [LogStore σ] [BallotStore σ] [Reopen σ] [LawfulStore σ]
variable {p p' p'' : Post σ}

/-- The ballot in force gives way to the stored one. -/
def Backed (p : Post σ) : Prop := p.standing.ballot.Before p.store.held

/-- The stored ballot is the one in force, and stays so. -/
def Mirrored (p : Post σ) : Prop := p.store.Plain ∧ p.store.held = p.standing.ballot

/-- What every step keeps, but for a candidacy in the last term. A candidacy is an old one, or one
for a later term. -/
structure Advances (p p' : Post σ) : Prop where
  before : p.standing.ballot.Before p'.standing.ballot
  backed : p'.Backed
  candidate : p'.standing.role = .candidate →
    p.standing.role = .candidate ∧ p'.standing.term = p.standing.term ∨
      p.standing.term < p'.standing.term

namespace Advances

lemma refl (h : p.Backed) : Advances p p := ⟨.refl _, h, fun hr => Or.inl ⟨hr, rfl⟩⟩

lemma trans (h : Advances p p') (h' : Advances p' p'') : Advances p p'' where
  before := h.before.trans h'.before
  backed := h'.backed
  candidate hr := by
    have hle : p.standing.term ≤ p'.standing.term := h.before.term_le
    rcases h'.candidate hr with ⟨hr', ht'⟩ | hlt
    · rw [ht']
      exact h.candidate hr'
    · exact Or.inr (Nat.lt_of_le_of_lt hle hlt)

/-- Giving up a role, or taking one that is not that of a candidate, leaves the ballot alone. -/
lemma of_role {r : Role} (h : p.Backed) (hr : r ≠ .candidate) :
    Advances p { p with standing := { p.standing with role := r } } :=
  ⟨.refl _, h, fun hc => absurd hc hr⟩

end Advances

/-- Whether the write is done, lost or hidden, what is stored backs the ballot in force. -/
lemma adopt_advances {s : Standing} {f : Fickle σ} {b : Ballot} {r : Role} (h : Backed ⟨s, f⟩)
    (hb : s.ballot.Before b)
    (hr : r = .candidate → s.role = .candidate ∧ b.term = s.term ∨ s.term < b.term) :
    Advances ⟨s, f⟩ (upon (s.adopt b r f)) := by
  unfold Standing.adopt
  rcases f.write_cases b with ⟨f', hw, hheld, -⟩ | ⟨e, f', hw, hheld, -⟩ <;> rw [hw]
  · refine ⟨hb, ?_, hr⟩
    show b.Before f'.held
    rw [hheld]
    exact .refl b
  · refine ⟨.refl _, ?_, fun hc => Or.inl ⟨hc, rfl⟩⟩
    show s.ballot.Before f'.held
    rcases hheld with hheld | hheld <;> rw [hheld]
    · exact h
    · exact hb

/-- What raises no role is made of small changes. -/
lemma advances_of_shifts {a a' : Standing × Fickle σ} (hs : Standing.Shifts a a')
    (h : Backed ⟨a.1, a.2⟩) : Advances ⟨a.1, a.2⟩ ⟨a'.1, a'.2⟩ := by
  induction hs with
  | refl => exact .refl h
  | tail _ hlast ih =>
    refine ih.trans ?_
    cases hlast with
    | yields => exact .of_role ih.backed (by simp)
    | adopts store hb hr =>
      refine adopt_advances ih.backed hb fun hc => Or.inl ?_
      obtain ⟨hrole, hterm⟩ := hr (by rw [hc]; simp)
      exact ⟨hrole.symm.trans hc, hterm⟩

/-- In the last term the ballot would go back. -/
lemma stand_advances (h : p.Backed) (hlast : ¬ p.standing.term.IsLast) (self : NodeId) :
    Advances p (upon (p.standing.stand self p.store)) := by
  have hlt : p.standing.term < p.standing.term.next := Term.lt_next_iff.mpr hlast
  rw [upon_stand]
  exact adopt_advances h (Or.inl hlt) fun _ => Or.inr hlt

/-- A member that restarts takes the stored ballot, which may be ahead of the one it had. -/
lemma restarted_advances (h : p.Backed) : Advances p p.restarted := by
  unfold restarted Standing.restore
  rcases p.store.read_cases with ⟨f, hr, hheld, -⟩ | ⟨e, f, hr, hheld, -⟩ <;> rw [hr]
  · refine ⟨h, ?_, fun hc => absurd hc (by simp)⟩
    show p.store.held.Before f.held
    rw [hheld]
    exact .refl _
  · refine ⟨.refl _, ?_, fun hc => Or.inl ⟨hc, rfl⟩⟩
    show p.standing.ballot.Before f.held
    rw [hheld]
    exact h

lemma moved_advances (h : p.Backed) (self : NodeId) {m : Motion}
    (hm : m = .stand → ¬ p.standing.term.IsLast) : Advances p (p.moved self m) := by
  cases m with
  | follow t => exact advances_of_shifts (Standing.follow_shifts t p.standing p.store) h
  | stand => exact stand_advances h (hm rfl) self
  | lead t =>
    show Advances p { p with standing := (p.standing.lead t).2 }
    unfold Standing.lead
    split
    · exact .of_role h (by simp)
    · exact .refl h
  | withdraw t =>
    show Advances p { p with standing := (p.standing.withdraw t).2 }
    unfold Standing.withdraw
    split
    · exact .of_role h (by simp)
    · exact .refl h
  | grant t c => exact advances_of_shifts (Standing.grant_shifts t c p.standing p.store) h
  | restart => exact restarted_advances h

/-! What is stored goes with the ballot in force, in the last term too. -/

lemma adopt_mirrored {s : Standing} {f : Fickle σ} (h : Mirrored ⟨s, f⟩) (b : Ballot) (r : Role) :
    Mirrored (upon (s.adopt b r f)) := by
  unfold Standing.adopt
  rcases f.write_cases b with ⟨f', hw, hheld, hplain⟩ | ⟨e, f', hw, -, hplain⟩ <;> rw [hw]
  · exact ⟨hplain h.1, hheld⟩
  · obtain ⟨hp, heq⟩ := hplain h.1
    exact ⟨hp, heq.trans h.2⟩

lemma mirrored_of_shifts {a a' : Standing × Fickle σ} (hs : Standing.Shifts a a')
    (h : Mirrored ⟨a.1, a.2⟩) : Mirrored ⟨a'.1, a'.2⟩ := by
  induction hs with
  | refl => exact h
  | tail _ hlast ih =>
    cases hlast with
    | yields => exact ih
    | adopts store _ _ => exact adopt_mirrored ih _ _

lemma restarted_mirrored (h : p.Mirrored) : p.restarted.Mirrored := by
  unfold restarted Standing.restore
  rcases p.store.read_cases with ⟨f, hr, hheld, hplain⟩ | ⟨e, f, hr, hheld, hplain⟩ <;> rw [hr]
  · exact ⟨hplain h.1, hheld⟩
  · exact ⟨hplain h.1, hheld.trans h.2⟩

lemma moved_mirrored (h : p.Mirrored) (self : NodeId) (m : Motion) :
    (p.moved self m).Mirrored := by
  cases m with
  | follow t => exact mirrored_of_shifts (Standing.follow_shifts t p.standing p.store) h
  | stand =>
    show (upon (p.standing.stand self p.store)).Mirrored
    rw [upon_stand]
    exact adopt_mirrored h _ _
  | lead t =>
    show Mirrored { p with standing := (p.standing.lead t).2 }
    unfold Standing.lead
    split <;> exact h
  | withdraw t =>
    show Mirrored { p with standing := (p.standing.withdraw t).2 }
    unfold Standing.withdraw
    split <;> exact h
  | grant t c => exact mirrored_of_shifts (Standing.grant_shifts t c p.standing p.store) h
  | restart => exact restarted_mirrored h

end Post

/-! ### A life -/

/-- The life of one member: it starts from what it has stored, and then goes on with a fate for
each of its writes. -/
structure Life (σ : Type) [BallotStore σ] where
  self : NodeId
  begins : Post σ
  restored : ∃ store, Standing.restore store = (.ok begins.standing, begins.store)
  acts : ℕ → Motion

namespace Life

variable {σ : Type}

section

variable [BallotStore σ]

/-- How things are after so many steps. -/
def post (x : Life σ) : ℕ → Post σ
  | 0 => x.begins
  | k + 1 => (x.post k).moved x.self (x.acts k)

def standing (x : Life σ) (k : ℕ) : Standing := (x.post k).standing

/-- In the step after this time the member votes in a term: for a candidate that it grants the vote
to, or for itself as it stands for election. -/
inductive Votes (x : Life σ) (k : ℕ) (t : Term) : NodeId → Prop
  | grants {c : NodeId} {s : Standing} {f : Fickle σ} : x.acts k = .grant t c →
      (x.standing k).grant t c (x.post k).store = (.ok true, s, f) → Votes x k t c
  | stands {s : Standing} {f : Fickle σ} : x.acts k = .stand →
      (x.standing k).stand x.self (x.post k).store = (.ok t, s, f) → Votes x k t x.self

/-- The member does not stand for election in the last term, behind which the count starts over. -/
def IsCounted (x : Life σ) : Prop := ∀ k, x.acts k = .stand → ¬ (x.standing k).term.IsLast

/-- In the step after this time the member takes office. -/
def Leads (x : Life σ) (k : ℕ) (t : Term) : Prop :=
  x.acts k = .lead t ∧ ((x.standing k).lead t).1 = true

/-- A vote that is given is the vote in force. -/
lemma ballot_of_votes {x : Life σ} {k : ℕ} {t : Term} {c : NodeId} (h : x.Votes k t c) :
    (x.standing (k + 1)).ballot = ⟨t, some c⟩ := by
  cases h with
  | @grants _ s f ha hg =>
    have hpost : x.post (k + 1) = .upon ((x.standing k).grant t c (x.post k).store) := by
      rw [post, ha]
      rfl
    unfold standing
    rw [hpost, hg]
    exact Standing.ballot_of_grant hg
  | @stands s f ha hs =>
    have hpost : x.post (k + 1) = .upon ((x.standing k).stand x.self (x.post k).store) := by
      rw [post, ha]
      rfl
    unfold standing
    rw [hpost, hs]
    exact Standing.ballot_of_stand hs

lemma term_of_votes {x : Life σ} {k : ℕ} {t : Term} {c : NodeId} (h : x.Votes k t c) :
    (x.standing (k + 1)).term = t :=
  congrArg Ballot.term (ballot_of_votes h)

/-- Who has taken office in a term is past every candidacy in it. -/
lemma standing_of_leads {x : Life σ} {k : ℕ} {t : Term} (h : x.Leads k t) :
    (x.standing k).role = .candidate ∧ (x.standing k).term = t ∧
      (x.standing (k + 1)).role = .leader ∧ (x.standing (k + 1)).term = t := by
  obtain ⟨ha, hl⟩ := h
  have hpost : x.standing (k + 1) = ((x.standing k).lead t).2 := by
    unfold standing
    rw [post, ha]
    rfl
  unfold Standing.lead at hl hpost
  split at hl
  · rename_i hc
    rw [if_pos hc] at hpost
    rw [hpost]
    exact ⟨hc.1, hc.2, rfl, hc.2⟩
  · cases hl

end

variable [LogStore σ] [BallotStore σ] [Reopen σ] [LawfulStore σ] {x : Life σ} {j k : ℕ}

lemma begins_held (x : Life σ) : x.begins.store.held = x.begins.standing.ballot := by
  obtain ⟨f, h⟩ := x.restored
  unfold Standing.restore at h
  rcases f.read_cases with ⟨f', hr, hheld, -⟩ | ⟨e, f', hr, -, -⟩ <;> rw [hr] at h
  · obtain ⟨h1, rfl⟩ := Prod.mk.inj h
    rw [hheld, ← Except.ok.inj h1]
  · cases (Prod.mk.inj h).1

lemma backed (hx : x.IsCounted) (k : ℕ) : (x.post k).Backed := by
  induction k with
  | zero =>
    show x.begins.standing.ballot.Before x.begins.store.held
    rw [x.begins_held]
    exact .refl _
  | succ k ih => exact (Post.moved_advances ih x.self (hx k)).backed

lemma advances (hx : x.IsCounted) (h : j ≤ k) : (x.post j).Advances (x.post k) := by
  induction k, h using Nat.le_induction with
  | base => exact .refl (backed hx j)
  | succ k _ ih => exact ih.trans (Post.moved_advances (backed hx k) x.self (hx k))

/-- Without hidden writes the stored ballot is the one in force, whatever the member does. -/
lemma post_mirrored (x : Life σ) (hp : x.begins.store.Plain) (k : ℕ) : (x.post k).Mirrored := by
  induction k with
  | zero => exact ⟨hp, x.begins_held⟩
  | succ k ih => exact Post.moved_mirrored ih x.self (x.acts k)

lemma Votes.unique {t : Term} {c d : NodeId} (hx : x.IsCounted) (hc : x.Votes j t c)
    (hd : x.Votes k t d) (h : j ≤ k) : c = d := by
  have hj := ballot_of_votes hc
  have hk := ballot_of_votes hd
  have hbefore := (advances hx (Nat.succ_le_succ h)).before
  refine hbefore.vote_eq ?_ (congrArg Ballot.vote hj) (congrArg Ballot.vote hk)
  exact (congrArg Ballot.term hk).trans (congrArg Ballot.term hj).symm

/-- Once a member has led in a term, it never again stands in it. -/
lemma Leads.not_leads {t : Term} (hx : x.IsCounted) (hj : x.Leads j t) (h : j < k) :
    ¬ x.Leads k t := by
  intro hk
  obtain ⟨-, -, hrole, hterm⟩ := standing_of_leads hj
  obtain ⟨hcand, hterm', -, -⟩ := standing_of_leads hk
  rcases (advances hx h).candidate hcand with ⟨hr, -⟩ | hlt
  · cases hr.symm.trans hrole
  · have hlt' : (x.standing (j + 1)).term < (x.standing k).term := hlt
    rw [hterm, hterm'] at hlt'
    exact absurd hlt' (Nat.lt_irrefl t)

/-- What it means that a member keeps to its word. -/
structure Steadfast (x : Life σ) : Prop where
  /-- In no term are there votes for two. -/
  vote : ∀ t j k c d, x.Votes j t c → x.Votes k t d → c = d
  /-- In no term does it take office twice. -/
  office : ∀ t j k, x.Leads j t → x.Leads k t → j = k
  /-- It goes back to no earlier term, and within a term to no earlier vote. -/
  term_le : ∀ j k, j ≤ k → (x.standing j).term ≤ (x.standing k).term
  vote_kept : ∀ j k c, j ≤ k → (x.standing k).term = (x.standing j).term →
    (x.standing j).vote = some c → (x.standing k).vote = some c

lemma steadfast_of_counted (hx : x.IsCounted) : x.Steadfast where
  vote t j k c d hc hd := by
    rcases Nat.le_total j k with h | h
    · exact hc.unique hx hd h
    · exact (hd.unique hx hc h).symm
  office t j k hj hk := by
    rcases Nat.lt_trichotomy j k with h | h | h
    · exact absurd hk (hj.not_leads hx h)
    · exact h
    · exact absurd hj (hk.not_leads hx h)
  term_le j k h := (advances hx h).before.term_le
  vote_kept j k c h ht hv := by
    rcases (advances hx h).before with hlt | ⟨-, hnone | heq⟩
    · exact absurd ht (Nat.ne_of_gt hlt)
    · cases hv.symm.trans hnone
    · exact heq.trans hv

omit [LogStore σ] [Reopen σ] [LawfulStore σ] in
/-- Who votes for itself in the last term has gone back to an earlier one. -/
lemma not_steadfast_of_last {t : Term} (ha : x.acts k = .stand)
    (hs : ((x.standing k).stand x.self (x.post k).store).1 = .ok t)
    (hlast : (x.standing k).term.IsLast) : ¬ x.Steadfast := by
  intro h
  rcases hst : (x.standing k).stand x.self (x.post k).store with ⟨r, s, f⟩
  obtain rfl : r = .ok t := by rw [hst] at hs; exact hs
  have hnext : t = (x.standing k).term.next := Standing.term_of_stand hst
  have hterm := term_of_votes (.stands ha hst)
  have hle := h.term_le k (k + 1) (Nat.le_succ k)
  rw [hterm, hnext] at hle
  exact absurd hle (Nat.not_le_of_lt (Term.next_lt hlast))

/-- **One vote a term**, for as long as the member lives: whatever is asked of it, whenever it is
restarted, and whether its writes are done, lost or only reported as lost, if it never stands for
election in the last term. If it does and the candidacy is stored, it goes back to an earlier term
and has broken its word. Its ballot is always the stored one, unless a write is reported as failed
that was not. -/
theorem steadfast (x : Life σ) :
    (x.IsCounted → x.Steadfast) ∧
      (∀ k t, x.acts k = .stand → ((x.standing k).stand x.self (x.post k).store).1 = .ok t →
        (x.standing k).term.IsLast → ¬ x.Steadfast) ∧
      (x.begins.store.Plain → ∀ k, (x.post k).store.held = (x.standing k).ballot) :=
  ⟨steadfast_of_counted, fun _ _ => not_steadfast_of_last, fun hp k => (x.post_mirrored hp k).2⟩

/-- A vote for member 1 is stored but reported as lost; the member then votes for another, and
stands for election. -/
def torn : Life Memory where
  self := 3
  begins := ⟨{}, {}, fun i => if i = 1 then .hidden else .done⟩
  restored := ⟨⟨{}, fun i => if i = 1 then .hidden else .done⟩, rfl⟩
  acts k := if k = 0 then .grant 5 1 else if k = 2 then .stand else .grant 5 2

lemma torn_counted : torn.IsCounted := by
  intro k hk
  have h2 : k = 2 := by
    by_contra hne
    by_cases h0 : k = 0 <;> simp [torn, hne, h0] at hk
  rw [h2]
  decide

/-- The vote that was hidden is not one that was given. -/
theorem steadfast_torn :
    torn.IsCounted ∧ torn.Steadfast ∧ (torn.post 1).store.held = ⟨5, some 1⟩ ∧
      (torn.standing 1).ballot = ⟨5, none⟩ ∧ torn.Votes 1 5 2 ∧ torn.Votes 2 6 3 :=
  ⟨torn_counted, (steadfast torn).1 torn_counted, rfl, rfl, .grants rfl rfl, .stands rfl rfl⟩

/-- A member that voted in term 0 is told of the last term, stands for election there, and takes
office; and so once more. -/
def overrun : Life Memory where
  self := 3
  begins := ⟨{}, {}, fun _ => .done⟩
  restored := ⟨⟨{}, fun _ => .done⟩, rfl⟩
  acts k :=
    if k = 0 then .grant 0 2
    else if k % 3 = 1 then .follow (wordLimit - 1)
    else if k % 3 = 2 then .stand
    else .lead 0

/-- In term 0 the member votes for another and for itself, and takes office twice. -/
theorem overrun_breaks :
    overrun.Votes 0 0 2 ∧ overrun.Votes 2 0 3 ∧ overrun.Leads 3 0 ∧ overrun.Leads 6 0 ∧
      (overrun.standing 2).term = wordLimit - 1 ∧ (overrun.standing 3).term = 0 ∧
      ¬ overrun.Steadfast := by
  have hgrants : overrun.Votes 0 0 2 := .grants rfl rfl
  have hstands : overrun.Votes 2 0 3 := .stands rfl rfl
  refine ⟨hgrants, hstands, ⟨rfl, rfl⟩, ⟨rfl, rfl⟩, rfl, rfl, fun h => ?_⟩
  exact absurd (h.vote 0 0 2 2 3 hgrants hstands) (by decide)

end Life

end Quorum
