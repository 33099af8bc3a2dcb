import Quorum.Proofs.Followers
import Quorum.Proofs.Votes

/-!
To whom a member gives its vote, and what becomes of it as it answers.

A request of a later term is first followed into that term, and then it is a request of the current
term to a member without a vote (`Node.receiveVote_stepDown`). So what is to be decided is decided
for requests of no later term, and the rule is one for all (`Node.Entitled`), as long as storage
takes the ballots. When it does not, a vote may be withheld that should be given, but none is given
that is not stored as it is given, unless it was in force before (`Node.receiveVote_stored`). Such a
vote is given without a write, also when a ballot of a later term was stored since and storage said
that it was not (`Node.vote_eclipsed`).
-/

namespace Quorum

open LawfulStore

/-! ### Storage that takes ballots -/

/-- Storage takes every ballot from here on. -/
def TakesBallots {σ : Type} [BallotStore σ] (store : σ) : Prop :=
  ∃ good : Set σ, store ∈ good ∧
    ∀ s ∈ good, ∀ b, ∃ s' ∈ good, BallotStore.writeBallot b s = (.ok (), s')

namespace TakesBallots

variable {σ : Type} [BallotStore σ] {store : σ}

lemma memory (m : Memory) : TakesBallots m :=
  ⟨Set.univ, trivial, fun _ _ _ => ⟨_, trivial, rfl⟩⟩

lemma adopt (h : TakesBallots store) (b : Ballot) (r : Role) (s : Standing) :
    ∃ store', s.adopt b r store = (.ok (), ⟨b, r⟩, store') ∧ TakesBallots store' := by
  obtain ⟨good, hs, hgood⟩ := h
  obtain ⟨store', hs', hw⟩ := hgood store hs b
  exact ⟨store', by rw [Standing.adopt, hw], good, hs', hgood⟩

/-- A vote that is not another's is cast. -/
lemma cast (h : TakesBallots store) {s : Standing} {c : NodeId}
    (hfree : ∀ d, s.vote = some d → d = c) :
    ∃ store', s.cast c store = (.ok true, { s with ballot := ⟨s.term, some c⟩ }, store') := by
  unfold Standing.cast
  split
  · rename_i d hd
    obtain rfl := hfree d hd
    have hballot : s.ballot = ⟨s.term, some d⟩ := by rw [← hd]; rfl
    exact ⟨store, by rw [decide_eq_true rfl, ← hballot]⟩
  · obtain ⟨store', ha, -⟩ := h.adopt ⟨s.term, some c⟩ s.role s
    exact ⟨store', by rw [ha]⟩

end TakesBallots

namespace Standing

variable {σ : Type} [BallotStore σ] {s : Standing} {c : NodeId} {t : Term}

lemma cast_of_other {d : NodeId} (hv : s.vote = some d) (hd : d ≠ c) (store : σ) :
    s.cast c store = (.ok false, s, store) := by
  rw [cast, hv]
  simp only [hd, decide_false]

lemma grant_of_lt (h : t < s.term) (c : NodeId) (store : σ) :
    s.grant t c store = (.ok false, s, store) := if_pos h

lemma grant_of_eq (h : s.term = t) (c : NodeId) (store : σ) :
    s.grant t c store = s.cast c store := by
  rw [grant, h, if_neg (Nat.lt_irrefl t), if_neg (Nat.lt_irrefl t)]

end Standing

namespace Node

/-! ### The rule -/

section

variable {σ μ : Type}

/-- The candidate is to have the vote: its term is not over, its log ends no earlier than the
member's, by term and then by length, and no other has the vote in its term. -/
structure Entitled (n : Node σ μ) (r : VoteRequest) : Prop where
  term : n.term ≤ r.term
  log : toLex (n.log.lastTerm, n.log.lastIndex) ≤ toLex (r.lastTerm, r.lastIndex)
  vote : r.term = n.term → ∀ c, n.standing.vote = some c → c = r.candidate

/-- What a request for a vote is to make of a member, whose answer it also says. -/
structure Decides (n : Node σ μ) (r : VoteRequest) (reply : VoteReply) (n' : Node σ μ) : Prop where
  granted : reply.granted = true ↔ n.Entitled r
  term : n'.term = max n.term r.term
  told : reply.term = n'.term
  vote : n'.standing.vote =
    if reply.granted then some r.candidate
    else if n.term < r.term then none else n.standing.vote
  /-- A later term ends all that was the member's in its own. -/
  follows : n.term < r.term → n'.role = .follower ∧ n'.heartbeats = false
  fails : n.term < r.term → n.attached = true → n'.log.waits.size = 0 ∧
    ∀ i t, Table.find? i n.log.waits.filed = some t → n.log.waits.status? t = some .pending →
      n'.log.waits.status? t = some .failed
  stays : ¬ n.term < r.term →
    n'.role = n.role ∧ n'.heartbeats = n.heartbeats ∧ n'.log.waits = n.log.waits
  log : n'.log = { n.log with waits := n'.log.waits }
  progress : n'.progress = n.progress

lemma isCurrent_iff_le {n : Node σ μ} {r : VoteRequest} :
    n.isCurrent r = true ↔
      toLex (n.log.lastTerm, n.log.lastIndex) ≤ toLex (r.lastTerm, r.lastIndex) := by
  rw [Prod.Lex.le_iff, isCurrent, Bool.or_eq_true, Bool.and_eq_true, decide_eq_true_eq,
    decide_eq_true_eq, decide_eq_true_eq, eq_comm (a := r.lastTerm)]
  rfl

variable [BallotStore σ] {n : Node σ μ} {r : VoteRequest}

/-- To a member that has followed into the later term, the request is one of its own term. -/
lemma receiveVote_stepDown (h : n.term < r.term) (hm : (n.stepDown r.term).term = r.term) :
    n.receiveVote r = (n.stepDown r.term).receiveVote r := by
  have hnot : ¬ (n.stepDown r.term).term < r.term := by
    rw [hm]
    exact Nat.lt_irrefl _
  rw [receiveVote, receiveVote, if_pos h, if_neg hnot]

/-- A request of no later term is granted or not, and nothing else becomes of the member. -/
lemma receiveVote_decides (hw : TakesBallots n.store) (h : ¬ n.term < r.term) :
    n.Decides r (n.receiveVote r).1 (n.receiveVote r).2 := by
  have hmax : n.term = max n.term r.term := (Nat.max_eq_left (Nat.le_of_not_lt h)).symm
  -- all but the vote is the same whatever the answer is
  have hsame : ∀ (granted : Bool) (ballot : Ballot) (store : σ) (resets : ℕ),
      ballot.term = n.term → (granted = true ↔ n.Entitled r) →
      ballot.vote = (if granted then some r.candidate else n.standing.vote) →
      n.Decides r ⟨ballot.term, granted⟩
        { n with standing := { n.standing with ballot }, store, resets } := by
    intro granted ballot store resets hterm hgranted hvote
    exact {
      granted := hgranted
      term := hterm.trans hmax
      told := rfl
      vote := by rw [if_neg h]; exact hvote
      follows := fun hlt => absurd hlt h
      fails := fun hlt => absurd hlt h
      stays := fun _ => ⟨rfl, rfl, rfl⟩
      log := rfl
      progress := rfl }
  unfold receiveVote
  rw [if_neg h]
  dsimp only
  split
  · rename_i hcurrent
    by_cases hover : r.term < n.term
    · rw [Standing.grant_of_lt hover]
      refine hsame false n.standing.ballot n.store n.resets rfl ?_ rfl
      simp only [Bool.false_eq_true, false_iff]
      exact fun he => absurd he.term (Nat.not_le_of_lt hover)
    · have hterm : n.standing.term = r.term :=
        Nat.le_antisymm (Nat.le_of_not_lt hover) (Nat.le_of_not_lt h)
      rw [Standing.grant_of_eq hterm]
      by_cases hfree : ∀ c, n.standing.vote = some c → c = r.candidate
      · obtain ⟨store', hcast⟩ := hw.cast hfree
        rw [hcast]
        refine hsame true ⟨n.standing.term, some r.candidate⟩ store' (n.resets + 1) rfl ?_ rfl
        simp only [true_iff]
        exact ⟨Nat.le_of_eq hterm, isCurrent_iff_le.mp hcurrent, fun _ => hfree⟩
      · have hother := hfree
        push Not at hother
        obtain ⟨d, hd, hne⟩ := hother
        rw [Standing.cast_of_other hd hne]
        refine hsame false n.standing.ballot n.store n.resets rfl ?_ rfl
        simp only [Bool.false_eq_true, false_iff]
        exact fun he => hfree (he.vote hterm.symm)
  · rename_i hcurrent
    refine hsame false n.standing.ballot n.store n.resets rfl ?_ rfl
    simp only [Bool.false_eq_true, false_iff]
    exact fun he => hcurrent (isCurrent_iff_le.mpr he.log)

/-- With storage that takes ballots a later term is followed in. -/
lemma stepDown_taken (hw : TakesBallots n.store) {t : Term} (h : n.term < t) :
    (n.stepDown t).standing = ⟨⟨t, none⟩, .follower⟩ ∧ TakesBallots (n.stepDown t).store := by
  obtain ⟨store', ha, hw'⟩ := hw.adopt ⟨t, none⟩ .follower n.standing
  have hlt : n.standing.term < t := h
  rw [stepDown, Standing.follow, if_pos hlt, ha]
  exact ⟨rfl, hw'⟩

lemma stepDown_log_eq (t : Term) (n : Node σ μ) :
    (n.stepDown t).log = if n.attached then n.log.failWaits else n.log := rfl

/-- Who ends no earlier than a log does so whatever its waits are. -/
lemma lastTerm_stepDown (t : Term) (n : Node σ μ) :
    (n.stepDown t).log.lastTerm = n.log.lastTerm ∧
      (n.stepDown t).log.lastIndex = n.log.lastIndex := by
  rw [stepDown_log_eq]
  split <;> exact ⟨rfl, rfl⟩

/-- A member that is to follow into the later term gives its vote as it does after that. -/
lemma entitled_stepDown_iff (h : n.term < r.term)
    (hs : (n.stepDown r.term).standing = ⟨⟨r.term, none⟩, .follower⟩) :
    (n.stepDown r.term).Entitled r ↔ n.Entitled r := by
  obtain ⟨hterm, hindex⟩ := lastTerm_stepDown r.term n
  constructor
  · rintro ⟨-, hlog, -⟩
    rw [hterm, hindex] at hlog
    exact ⟨Nat.le_of_lt h, hlog, fun heq => absurd heq (Nat.ne_of_gt h)⟩
  · rintro ⟨-, hlog, -⟩
    rw [← hterm, ← hindex] at hlog
    refine ⟨Nat.le_of_eq (congrArg Standing.term hs), hlog, fun _ c hc => ?_⟩
    rw [hs] at hc
    cases hc

/-- With storage that takes ballots, every request is decided as it is to be. -/
lemma receiveVote_lawful (hw : TakesBallots n.store) (r : VoteRequest) :
    n.Decides r (n.receiveVote r).1 (n.receiveVote r).2 := by
  by_cases h : n.term < r.term
  · obtain ⟨hs, hw'⟩ := stepDown_taken hw h
    have hterm : (n.stepDown r.term).term = r.term := congrArg Standing.term hs
    have hnot : ¬ (n.stepDown r.term).term < r.term := by
      rw [hterm]
      exact Nat.lt_irrefl _
    have hd := receiveVote_decides hw' hnot
    obtain ⟨hrole, hheart, hwaits⟩ := hd.stays hnot
    rw [receiveVote_stepDown h hterm]
    exact {
      granted := hd.granted.trans (entitled_stepDown_iff h hs)
      term := by rw [hd.term, hterm, Nat.max_self, Nat.max_eq_right (Nat.le_of_lt h)]
      told := hd.told
      vote := by
        rw [hd.vote, if_neg hnot, if_pos h, hs]
        rfl
      follows := fun _ => ⟨hrole.trans (congrArg Standing.role hs), hheart⟩
      fails := fun _ ha => by
        rw [hwaits, stepDown_log_eq, if_pos ha]
        exact ⟨congrArg List.length (Waits.failAll_filed _),
          fun i t hi hp => Waits.status?_failAll_of_filed hi hp⟩
      stays := fun hlt => absurd h hlt
      log := by
        rw [hd.log, stepDown_log_eq]
        split <;> rfl
      progress := hd.progress }
  · exact receiveVote_decides hw h

end

end Node

/-! ### Votes and what is stored -/

namespace Standing

variable {σ : Type} [LogStore σ] [BallotStore σ] [Reopen σ] [LawfulStore σ]
variable {s s' : Standing} {t : Term} {c : NodeId} {f f' : Fickle σ}

/-- A vote that is given was stored as it was given, or it was in force before and no ballot was
written. -/
lemma cast_stored (h : s.cast c f = (.ok true, s', f')) :
    f'.held = ⟨s.term, some c⟩ ∨ s.ballot = ⟨s.term, some c⟩ ∧ f' = f := by
  unfold cast at h
  split at h
  · rename_i d hd
    obtain ⟨hgiven, hrest⟩ := Prod.mk.inj h
    obtain rfl : d = c := by simpa using hgiven
    exact .inr ⟨by rw [← hd]; rfl, (Prod.mk.inj hrest).2.symm⟩
  · unfold adopt at h
    rcases f.write_cases ⟨s.term, some c⟩ with ⟨f₁, hw, hheld, -⟩ | ⟨e, f₁, hw, -⟩ <;>
      rw [hw] at h
    · obtain ⟨-, hrest⟩ := Prod.mk.inj h
      obtain ⟨-, rfl⟩ := Prod.mk.inj hrest
      exact .inl hheld
    · cases (Prod.mk.inj h).1

lemma grant_stored (h : s.grant t c f = (.ok true, s', f')) :
    f'.held = ⟨t, some c⟩ ∨ s.ballot = ⟨t, some c⟩ ∧ f' = f := by
  unfold grant at h
  split at h
  · cases (Prod.mk.inj h).1
  · split at h
    · rcases adopt_eq ⟨t, none⟩ .follower s f with ⟨f₁, -, ha⟩ | ⟨e, f₁, -, ha⟩ <;> rw [ha] at h
      · rcases cast_stored h with hheld | ⟨hballot, -⟩
        · exact .inl hheld
        · cases congrArg Ballot.vote hballot
      · cases (Prod.mk.inj h).1
    · obtain rfl : s.term = t := by lia
      exact cast_stored h

end Standing

namespace Node

variable {σ μ : Type} [LogStore σ] [BallotStore σ] [Reopen σ] [LawfulStore σ]
variable {r : VoteRequest}

omit [LogStore σ] [Reopen σ] [LawfulStore σ] in
/-- Following into a later term, a member votes for nobody there. -/
lemma ballot_stepDown_ne {n : Node (Fickle σ) μ} {t : Term} (h : n.term < t) (c : NodeId) :
    (n.stepDown t).standing.ballot ≠ ⟨t, some c⟩ := by
  intro hballot
  have hlt : n.standing.term < t := h
  have hs : (n.stepDown t).standing = (n.standing.follow t n.store).2.1 := rfl
  rw [hs, Standing.follow, if_pos hlt] at hballot
  rcases Standing.adopt_eq ⟨t, none⟩ .follower n.standing n.store with
    ⟨f, -, ha⟩ | ⟨e, f, -, ha⟩ <;> rw [ha] at hballot
  · cases congrArg Ballot.vote hballot
  · exact absurd (congrArg Ballot.term hballot) (Nat.ne_of_lt hlt)

/-- Whatever becomes of the writes, a vote that is given was stored as it was given, or it was in
force before and nothing was written. -/
lemma receiveVote_stored {n : Node (Fickle σ) μ} (h : (n.receiveVote r).1.granted = true) :
    (n.receiveVote r).2.store.held = ⟨r.term, some r.candidate⟩ ∨
      n.standing.ballot = ⟨r.term, some r.candidate⟩ ∧ (n.receiveVote r).2.store = n.store := by
  have hanswer : ∀ m : Node (Fickle σ) μ, (if n.term < r.term then n.stepDown r.term else n) = m →
      (n.receiveVote r).2.store.held = ⟨r.term, some r.candidate⟩ ∨
        m.standing.ballot = ⟨r.term, some r.candidate⟩ ∧ (n.receiveVote r).2.store = m.store := by
    intro m hm
    unfold receiveVote at h ⊢
    rw [hm] at h ⊢
    dsimp only at h ⊢
    split at h
    · rename_i hc
      rw [if_pos hc]
      split at h <;> rename_i heq
      · cases h
      · cases h
      · exact Standing.grant_stored heq
    · cases h
  by_cases hlt : n.term < r.term
  · rcases hanswer _ (if_pos hlt) with hheld | ⟨hballot, -⟩
    · exact .inl hheld
    · exact absurd hballot (ballot_stepDown_ne hlt _)
  · exact hanswer n (if_neg hlt)

/-! ### Votes in a life -/

/-- The member has the ballot in force and the stored one that there are in a life at that time.
What becomes of its writes from here on is left open. -/
structure AppearsIn (n : Node (Fickle σ) μ) (x : Life σ) (k : ℕ) : Prop where
  ballot : n.standing.ballot = (x.standing k).ballot
  held : n.store.held = (x.post k).store.held

namespace AppearsIn

variable {n : Node (Fickle σ) μ} {x : Life σ} {k : ℕ}

lemma held_eq (h : n.AppearsIn x k) (hp : x.begins.store.Plain) :
    n.store.held = n.standing.ballot := by
  rw [h.held, h.ballot]
  exact (x.post_mirrored hp k).2

lemma before (h : n.AppearsIn x k) (hx : x.IsCounted) :
    n.standing.ballot.Before n.store.held := by
  rw [h.held, h.ballot]
  exact Life.backed hx k

end AppearsIn

variable [Machine μ]

/-- **The rule of votes.** With storage that takes ballots every request for a vote is decided by
one rule, whatever the member was and whatever is asked of it, and of the rest of the member there
changes only what a later term ends. A vote that is given is stored, in every state that a member
comes to on storage that may fail at any write. If a write may also be reported as lost that was
done, the vote is stored as it is given, or it was in force before and nothing is written. Then it
is the stored one in every life without such writes, and with them that one or one of a later term,
if the member never stood for election in the last. -/
theorem vote_decided (r : VoteRequest) :
    (∀ n : Node σ (Journal μ), TakesBallots n.store →
        n.Decides r (n.receiveVote r).1 (n.receiveVote r).2) ∧
      (∀ n : Node σ (Journal μ), n.Reached → (n.receiveVote r).1.granted = true →
        (contents (n.receiveVote r).2.store).ballot = ⟨r.term, some r.candidate⟩) ∧
      ∀ n : Node (Fickle σ) (Journal μ), (n.receiveVote r).1.granted = true →
        let given : Ballot := ⟨r.term, some r.candidate⟩
        let n' := (n.receiveVote r).2
        (n'.store.held = given ∨ n.standing.ballot = given ∧ n'.store = n.store) ∧
          ∀ (x : Life σ) (k : ℕ), n.AppearsIn x k →
            (x.begins.store.Plain → n'.store.held = given) ∧
              (x.IsCounted → given.Before n'.store.held) := by
  refine ⟨fun n hw => receiveVote_lawful hw r, fun n hn hg => ?_, fun n hg => ?_⟩
  · have hheld : (n.receiveVote r).2.Held := (receiveVote_rests r n).held hn.held
    exact hheld.trans (receiveVote_granted hg).1
  · intro given n'
    have hstored : n'.store.held = given ∨ n.standing.ballot = given ∧ n'.store = n.store :=
      receiveVote_stored hg
    refine ⟨hstored, fun x k hx => ?_⟩
    rcases hstored with hheld | ⟨hballot, hstore⟩
    · exact ⟨fun _ => hheld, fun _ => hheld ▸ .refl _⟩
    · rw [hstore, ← hballot]
      exact ⟨hx.held_eq, hx.before⟩

/-- A leader that has a client waiting. -/
def seated : Node Memory (Journal Kv) :=
  ((beginner.startElection.2.countVote (.ok ⟨1, true⟩)).closeElection.2.write [7]).2

/-- Two writes are done, something becomes of the third, and all others fail. -/
def wavering (third : WriteFate) : Fickle Memory :=
  ⟨{}, fun i => if i < 2 then .done else if i = 2 then third else .lost⟩

/-- A member that has voted in term 5 and is then asked for its vote in term 7. -/
def asked (third : WriteFate) : Node (Fickle Memory) (Journal Kv) :=
  let n : Node (Fickle Memory) (Journal Kv) :=
    { config := ⟨1, [1, 2, 3], {}⟩, store := wavering third, standing := {}
      log := { machine := ⟨⟨[]⟩, []⟩ } }
  ((n.receiveVote ⟨5, 2, 0, 0⟩).2.receiveVote ⟨7, 3, 0, 0⟩).2

def asking (third : WriteFate) : Life Memory where
  self := 1
  begins := ⟨{}, wavering third⟩
  restored := ⟨wavering third, rfl⟩
  acts k := if k = 0 then .grant 5 2 else .grant 7 3

lemma asking_counted (third : WriteFate) : (asking third).IsCounted := by
  intro k hk
  by_cases h0 : k = 0 <;> simp [asking, h0] at hk

/-- A leader votes for a candidate of a later term and stops leading; whoever waits is told. Whoever
could not follow into a later term gives its vote again, and it is stored or a later one is. -/
theorem vote_decided_seated : TakesBallots seated.store ∧ seated.Reached ∧
    seated.leaderTerm = some 1 ∧ seated.log.waits.status? 0 = some .pending ∧
    (seated.receiveVote ⟨3, 2, 1, 1⟩).1 = ⟨3, true⟩ ∧
    (seated.receiveVote ⟨3, 2, 1, 1⟩).2.role = .follower ∧
    (seated.receiveVote ⟨3, 2, 1, 1⟩).2.log.waits.status? 0 = some .failed ∧
    (seated.receiveVote ⟨3, 2, 1, 1⟩).2.store.ballot = ⟨3, some 2⟩ ∧
    (wavering .lost).Plain ∧ (asked .lost).AppearsIn (asking .lost) 2 ∧
    ((asked .lost).receiveVote ⟨5, 2, 0, 0⟩).2.store.held = ⟨5, some 2⟩ ∧
    (asking .hidden).IsCounted ∧ (asked .hidden).AppearsIn (asking .hidden) 2 ∧
    Ballot.Before ⟨5, some 2⟩ ((asked .hidden).receiveVote ⟨5, 2, 0, 0⟩).2.store.held := by
  have hstart : restore ⟨1, [1, 2, 3], {}⟩ ⟨⟨[]⟩, []⟩ ({} : Memory) = (.ok beginner, {}) := rfl
  have hreached : seated.Reached :=
    ((((Reached.starts hstart).does (.stands _)).does (.counts _ _)).does
      (.closes _)).does (.writes _ _)
  have hworks : TakesBallots seated.store := .memory _
  have hdecides := (vote_decided ⟨3, 2, 1, 1⟩).1 seated hworks
  have hstored := (vote_decided ⟨3, 2, 1, 1⟩).2.1 seated hreached
  have hgranted : (seated.receiveVote ⟨3, 2, 1, 1⟩).1.granted = true :=
    hdecides.granted.mpr ⟨by decide, by decide, by decide⟩
  have hplain : (wavering .lost).Plain := by
    intro i
    unfold wavering
    dsimp only
    split_ifs <;> simp
  have hlost : (asked .lost).AppearsIn (asking .lost) 2 := ⟨rfl, rfl⟩
  have hhidden : (asked .hidden).AppearsIn (asking .hidden) 2 := ⟨rfl, rfl⟩
  have hagain := (vote_decided (σ := Memory) (μ := Kv) ⟨5, 2, 0, 0⟩).2.2
  exact ⟨hworks, hreached, rfl, rfl, rfl, (hdecides.follows (by decide)).1,
    (hdecides.fails (by decide) rfl).2 1 0 rfl rfl, hstored hgranted, hplain, hlost,
    ((hagain (asked .lost) rfl).2 _ _ hlost).1 hplain, asking_counted _, hhidden,
    ((hagain (asked .hidden) rfl).2 _ _ hhidden).2 (asking_counted _)⟩

/-- A vote that was given is given again, and a ballot of a later term is stored. -/
theorem vote_eclipsed : (asked .hidden).standing.ballot = ⟨5, some 2⟩ ∧
    ((asked .hidden).receiveVote ⟨5, 2, 0, 0⟩).1 = ⟨5, true⟩ ∧
    ((asked .hidden).receiveVote ⟨5, 2, 0, 0⟩).2.store.held = ⟨7, none⟩ :=
  ⟨rfl, rfl, rfl⟩

end Node

end Quorum
