import Quorum.Proofs.Members

/-!
What an acknowledged append request says of the member that acknowledges it.

A member keeps what it has stored in step with its ballot on every run (`Node.Reached.held`). So a
member that makes way for a later term and has that term stored follows in it, durably. A member
whose storage does not take the term (`Node.Balks`) stays what it is, be it the leader of an earlier
term, and goes on to take the request into its log all the same.
-/

namespace Quorum

open LawfulStore

namespace Log

variable {σ μ : Type} [LogStore σ] [BallotStore σ] [Reopen σ] [LawfulStore σ]
variable {l : Log μ} {store : σ}

/-! ### The log and the stored ballot -/

/-- Records come and go without the ballot. -/
lemma Taken.ballot {e : Entry} {out : Except Refusal Unit × Log μ × σ}
    (h : Taken e l store out) : (contents out.2.2).ballot = (contents store).ballot := by
  cases h with
  | kept | conflict | gap => rfl
  | unadded x store' _ ha => rw [append_error ha]
  | uncut old x store' _ _ _ ht => rw [truncate_error ht]
  | added i store' _ ha => rw [contents_append ha]
  | cut old x store₁ store' _ _ _ ht ha =>
    rw [append_error ha, truncate_ok ht]
    rfl
  | replaced old i store₁ store' _ _ _ ht ha =>
    rw [contents_append ha, truncate_ok ht]
    rfl

lemma acceptAll_ballot (es : List Entry) (l : Log μ) (store : σ) :
    (contents (l.acceptAll es store).2.2).ballot = (contents store).ballot := by
  induction es generalizing l store with
  | nil => rfl
  | cons e es ih =>
    have hone := (accept_taken e l store).ballot
    rw [acceptAll]
    split <;> rename_i heq <;> rw [heq] at hone
    · exact hone
    · rw [ih]
      exact hone

lemma follow_ballot [Machine μ] (current : Term) (b : Batch) (l : Log μ) (store : σ) :
    (contents (l.follow current b store).2.2).ballot = (contents store).ballot := by
  have hall := acceptAll_ballot b.entries l store
  unfold follow
  split
  · rfl
  · split <;> rename_i heq <;> rw [heq] at hall <;> exact hall

omit [BallotStore σ] [Reopen σ] [LawfulStore σ] in
/-- Any log takes in a batch of nothing. -/
lemma follow_empty [Machine μ] {current t : Term} (h : current ≤ t) :
    (l.follow current ⟨t, 0, 0, [], 0⟩ store).1 = .ok () := by
  have hfits : l.fits current ⟨t, 0, 0, [], 0⟩ = .ok () := by
    unfold fits
    dsimp only
    rw [if_neg (Nat.not_lt_of_le h), if_neg (Nat.not_lt_zero _), if_neg fun hne => hne rfl]
  rw [follow, hfits]
  rfl

lemma push_ballot (e : Entry) (l : Log μ) (store : σ) :
    (contents (l.push e store).2.2).ballot = (contents store).ballot := by
  rcases push_cases e l store with ⟨i, store', ha, hp⟩ | ⟨x, store', ha, hp⟩ <;> rw [hp]
  · rw [contents_append ha]
  · rw [append_error ha]

lemma restore_ballot (machine : μ) (store : σ) :
    (contents (restore machine store).2).ballot = (contents store).ballot := by
  unfold restore
  rcases hr : LogStore.readAll store with ⟨x | es, store'⟩
  · rw [readAll_error hr]
  · have hc := (readAll_ok hr).2
    dsimp only
    split
    · rw [hc]
    · rename_i kept _
      rcases ht : LogStore.truncate kept.length store' with ⟨x | ⟨⟩, store''⟩ <;> dsimp only
      · rw [truncate_error ht, hc]
      · rw [truncate_ok ht, ← hc]
        rfl

end Log

namespace Node

variable {σ μ : Type} [LogStore σ] [BallotStore σ] [Reopen σ] [LawfulStore σ] [Machine μ]
variable {n n' m : Node σ (Journal μ)} {t : Term}

/-! ### The members that there can be -/

/-- One step of a member, whatever it is sent and whatever becomes of its clients. -/
inductive Does : Node σ (Journal μ) → Node σ (Journal μ) → Prop
  /-- Storage comes to fail, or to work again, and holds the same. -/
  | weathers {n : Node σ (Journal μ)} {store' : σ} : contents store' = contents n.store →
      Does n { n with store := store' }
  /-- Time passes: rounds go out or cease, clients stop waiting, others are heard of or not. -/
  | ticks (n : Node σ (Journal μ)) (due : List NodeId) (heartbeats : Bool) (contacts : Contacts)
      (waits : Waits) : Does n { n with due, heartbeats, contacts, log := { n.log with waits } }
  | writes (n : Node σ (Journal μ)) (payload : Bytes) : Does n (n.write payload).2
  | settles (n : Node σ (Journal μ)) (w : Written) : Does n (n.settle w)
  | stands (n : Node σ (Journal μ)) : Does n n.startElection.2
  | counts (n : Node σ (Journal μ)) (reply : Except NetworkError VoteReply) :
      Does n (n.countVote reply)
  | closes (n : Node σ (Journal μ)) : Does n n.closeElection.2
  | receives (n : Node σ (Journal μ)) (m : Message) : Does n (n.receive m).2
  | finishes (n : Node σ (Journal μ)) (r : Round) (reply : Except NetworkError AppendReply) :
      Does n (n.finishRound r reply)
  | stepsDown (n : Node σ (Journal μ)) (t : Term) : Does n (n.stepDown t)

/-- What a member can come to from a start on any storage. -/
inductive Reached : Node σ (Journal μ) → Prop
  | starts {config : Config} {machine : μ} {store store' : σ} {n : Node σ (Journal μ)} :
      restore config ⟨machine, []⟩ store = (.ok n, store') → Reached n
  | does {n n' : Node σ (Journal μ)} : Reached n → Does n n' → Reached n'

/-- The ballot in force is the stored one. -/
def Held (n : Node σ (Journal μ)) : Prop := (contents n.store).ballot = n.standing.ballot

omit [Machine μ] in
lemma Rests.held (h : n.Rests n') (hn : n.Held) : n'.Held := h.turns.held hn

omit [Machine μ] in
lemma write_held (payload : Bytes) (hn : n.Held) : (n.write payload).2.Held := by
  unfold write
  split
  · exact hn
  · rename_i t _
    have hp := (Log.push_ballot ⟨t, n.log.size, payload⟩ n.log n.store).trans hn
    dsimp only
    split <;> rename_i heq <;> rw [heq] at hp <;> exact hp

lemma settle_held (w : Written) (hn : n.Held) : (n.settle w).Held := by
  unfold settle Held
  split
  · rw [tryCommit_store, tryCommit_standing]
    exact hn
  · exact hn

lemma receiveAppend_held (r : AppendRequest) (hn : n.Held) : (n.receiveAppend r).2.Held := by
  rcases receiveAppend_cases r n with ⟨-, h⟩ | ⟨m, hy, h⟩
  · rw [h]
    exact hn
  · rw [h]
    have hm := (yieldTo_some hy).1.held hn
    exact (Log.follow_ballot m.term r.batch m.log m.store).trans hm

lemma finishRound_held (r : Round) (reply : Except NetworkError AppendReply) (hn : n.Held) :
    (n.finishRound r reply).Held := by
  rcases finishRound_cases r reply n with ⟨h, -⟩ | ⟨a, -, -, ⟨-, h⟩ | h⟩
  · exact h.held hn
  · rw [h, Held, tryCommit_store, tryCommit_standing]
    exact hn
  · rw [h]
    exact hn

lemma Does.held (h : n.Does n') (hn : n.Held) : n'.Held := by
  cases h with
  | weathers hc => exact (congrArg Memory.ballot hc).trans hn
  | ticks => exact hn
  | writes payload => exact write_held payload hn
  | settles w => exact settle_held w hn
  | stands =>
    rcases startElection_cases n with ⟨-, hr, -⟩ | ⟨-, store', hc, hs⟩
    · exact hr.held hn
    · rw [hs]
      exact congrArg Memory.ballot hc
  | counts reply => exact (countVote_cases reply n).1.held hn
  | closes =>
    rcases (closeElection_cases n).2 with ⟨t, -, -, -, -, hc⟩ | hr
    · rw [hc]
      exact hn
    · exact hr.held hn
  | receives m =>
    cases m with
    | voteRequest r => exact (receiveVote_rests r n).held hn
    | appendRequest r => exact receiveAppend_held r hn
    | voteReply | appendReply => exact hn
  | finishes r reply => exact finishRound_held r reply hn
  | stepsDown t => exact (stepDown_rests t n).held hn

/-- What is stored is in step with the ballot, on every run. -/
lemma Reached.held (h : n.Reached) : n.Held := by
  induction h with
  | @starts config machine store store' n hr =>
    unfold restore at hr
    rcases Standing.restore_cases store with ⟨st, hs, hc⟩ | ⟨e, st, hs, -⟩ <;> rw [hs] at hr
    · have hl := Log.restore_ballot (⟨machine, []⟩ : Journal μ) st
      dsimp only at hr
      split at hr <;> rename_i heq <;> rw [heq] at hl <;> cases hr
      exact hl.trans (congrArg Memory.ballot hc)
    · cases hr
  | does _ hd ih => exact hd.held ih

/-! ### Acknowledged requests -/

/-- Storage does not take a later term. -/
def Balks (n : Node σ (Journal μ)) (t : Term) : Prop :=
  n.term < t ∧ ∃ e store', BallotStore.writeBallot ⟨t, none⟩ n.store = (.error e, store')

/-- The member follows in a term and has that term stored. -/
structure Adopted (n : Node σ (Journal μ)) (t : Term) : Prop where
  role : n.role = .follower
  term : n.term = t
  stored : (contents n.store).ballot.term = t

omit [LogStore σ] [Reopen σ] [LawfulStore σ] [Machine μ] in
lemma follow_of_not_balks (h : ¬ n.Balks t) (ht : n.term < t) :
    (n.standing.follow t n.store).1 = .ok () := by
  have hlt : n.standing.term < t := ht
  rw [Standing.follow, if_pos hlt]
  rcases Standing.adopt_eq ⟨t, none⟩ .follower n.standing n.store with
    ⟨store', -, ha⟩ | ⟨e, store', hw, -⟩
  · rw [ha]
  · exact absurd ⟨ht, e, store', hw⟩ h

omit [LogStore σ] [Reopen σ] [LawfulStore σ] [Machine μ] in
/-- A member that balks stays what it is, and makes way no less. -/
lemma Balks.yieldTo (h : n.Balks t) : ∃ m, n.yieldTo t = some m ∧ m.standing = n.standing := by
  obtain ⟨ht, e, store', hw⟩ := h
  have hlt : n.standing.term < t := ht
  refine ⟨n.stepDown t, ?_, ?_⟩
  · rw [Node.yieldTo, if_neg (Nat.not_lt_of_le (Nat.le_of_lt ht)), if_pos ht]
  · have hf : n.standing.follow t n.store = (.error e, n.standing, store') := by
      rw [Standing.follow, if_pos hlt, Standing.adopt, hw]
    rw [stepDown, hf]

omit [Reopen σ] [LawfulStore σ] in
lemma Balks.receiveAppend {r : AppendRequest} (h : n.Balks r.term) :
    (n.receiveAppend r).2.standing = n.standing := by
  obtain ⟨m, hy, hs⟩ := h.yieldTo
  rcases receiveAppend_cases r n with ⟨hno, -⟩ | ⟨m', hy', hr⟩
  · rw [hno] at hy
    cases hy
  · rw [hy] at hy'
    obtain rfl := Option.some.inj hy'
    rw [hr]
    exact hs

/-- A request without entries, with nothing before it and nothing committed. -/
def heartbeat (leader : NodeId) (t : Term) : AppendRequest := ⟨leader, t, 0, 0, [], 0⟩

omit [Reopen σ] [LawfulStore σ] in
/-- A member that balks acknowledges a heartbeat of the later term. -/
lemma Balks.acknowledges (h : n.Balks t) (leader : NodeId) :
    (n.receiveAppend (heartbeat leader t)).1.success = true := by
  obtain ⟨m, hy, hs⟩ := h.yieldTo
  have hy' : n.yieldTo (heartbeat leader t).term = some m := hy
  have hterm : m.term ≤ t := by
    rw [Node.term, hs]
    exact Nat.le_of_lt h.1
  have hok : n.refusal? (heartbeat leader t) = none := by
    rw [refusal?, hy']
    dsimp only
    rw [show (heartbeat leader t).batch = ⟨t, 0, 0, [], 0⟩ from rfl, Log.follow_empty hterm]
  rcases receiveAppend_cases (heartbeat leader t) n with ⟨hno, -⟩ | ⟨m', -, hr⟩
  · rw [hno] at hy'
    cases hy'
  · rw [hr, hok]
    rfl

/-- **An acknowledged request means that its term is adopted**, in memory and on storage, if and
only if storage takes that term. A member that goes on leading is then left as it was. Whoever
cannot store a later term acknowledges requests of that term without adopting it. -/
theorem acknowledged_adopted (h : n.Reached) (r : AppendRequest) :
    ((n.receiveAppend r).1.success = true →
        ((n.receiveAppend r).2.Adopted r.term ↔ ¬ n.Balks r.term)) ∧
      (¬ n.Balks r.term → (n.receiveAppend r).2.role = .leader → (n.receiveAppend r).2 = n) ∧
      ∀ t, n.Balks t → ∃ r : AppendRequest, r.term = t ∧ (n.receiveAppend r).1.success = true ∧
        (n.receiveAppend r).2.standing = n.standing := by
  refine ⟨fun hs => ⟨fun ha hb => ?_, fun hb => ?_⟩, fun hb hl => ?_, fun t hb => ?_⟩
  · have hterm : (n.receiveAppend r).2.term = n.term := congrArg Standing.term hb.receiveAppend
    exact Nat.ne_of_lt hb.1 (hterm.symm.trans ha.term)
  · have hheld := receiveAppend_held r h.held
    rcases receiveAppend_cases r n with ⟨-, hr⟩ | ⟨m, hy, hr⟩ <;> rw [hr] at hs hheld ⊢
    · cases hs
    · obtain ⟨hterm, hrole⟩ := yieldTo_stored hy (follow_of_not_balks hb)
      exact ⟨hrole, hterm, (congrArg Ballot.term hheld).trans hterm⟩
  · rcases receiveAppend_cases r n with ⟨-, hr⟩ | ⟨m, hy, hr⟩ <;> rw [hr] at hl ⊢
    obtain ⟨-, hrole⟩ := yieldTo_stored hy (follow_of_not_balks hb)
    cases hrole.symm.trans hl
  · exact ⟨heartbeat 0 t, rfl, hb.acknowledges 0, Balks.receiveAppend (r := heartbeat 0 t) hb⟩

/-- The only member of its cluster, just started. -/
def fresh : Node (Flaky Memory) (Journal Kv) :=
  { config := ⟨1, [1], {}⟩, store := ⟨{}, 0, 0, 0⟩, standing := {}, log := { machine := ⟨⟨[]⟩, []⟩ } }

/-- It leads, and the next write of its ballot is going to fail. -/
def troubled : Node (Flaky Memory) (Journal Kv) :=
  let n := fresh.startElection.2.closeElection.2
  { n with store := { n.store with ballotFaults := 1 } }

/-- A request of the next term with an entry. -/
def intrusion : AppendRequest := ⟨2, 2, 0, 0, [⟨2, 1, []⟩], 0⟩

/-- A leader that balks has its log written by the leader of a later term, and leads on. -/
theorem acknowledged_adopted_troubled : troubled.Reached ∧
    (troubled.receiveAppend intrusion).1 = ⟨1, true⟩ ∧
    ¬ (troubled.receiveAppend intrusion).2.Adopted 2 ∧
    troubled.leaderTerm = some 1 ∧ (troubled.receiveAppend intrusion).2.leaderTerm = some 1 ∧
    troubled.log.entries = [] ∧
    (troubled.receiveAppend intrusion).2.log.entries = [⟨2, 1, []⟩] := by
  have hstart : restore ⟨1, [1], {}⟩ ⟨⟨[]⟩, []⟩ fresh.store = (.ok fresh, fresh.store) := rfl
  have hreached : troubled.Reached :=
    (((Reached.starts hstart).does (.stands _)).does (.closes _)).does (.weathers rfl)
  have hbalks : troubled.Balks 2 := ⟨by decide, _, _, rfl⟩
  obtain ⟨hiff, -, -⟩ := acknowledged_adopted hreached intrusion
  exact ⟨hreached, rfl, fun ha => (hiff rfl).mp ha hbalks, rfl, rfl, rfl, rfl⟩

end Node

end Quorum
