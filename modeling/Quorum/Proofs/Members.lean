import Quorum.Node.Client
import Quorum.Node.Election
import Quorum.Node.Receive
import Quorum.Node.Replicate
import Quorum.Proofs.Ballots
import Quorum.Proofs.Logs

/-!
What each operation of a member does to its standing, its log and its storage.

Most operations leave the log alone (`Node.Rests`), and all but a candidacy and its end raise no
role (`Node.Goes`). What is left to say of an operation is said by a lemma of its own, so that
nothing further on looks into one again.
-/

namespace Quorum

open LawfulStore

/-- A log in order is restored whole. -/
lemma Log.inSequence_eq {es : List Entry} (h : Numbered es) : inSequence 1 es = (es, true) := by
  have key : ∀ (es : List Entry) (k : ℕ), (∀ i e, es[i]? = some e → e.index = k + i) →
      inSequence k es = (es, true) := by
    intro es
    induction es with
    | nil => intro k _; rfl
    | cons e es ih =>
      intro k hk
      have he : e.index = k := hk 0 e rfl
      have hrest := ih (k + 1) fun i f hf => by
        rw [hk (i + 1) f hf, Nat.add_right_comm, Nat.add_assoc]
      rw [inSequence, if_pos he, hrest]
  exact key es 1 fun i e he => by rw [h i e he, Nat.add_comm]

/-- What is restored is in order, whatever was stored. -/
lemma Log.numbered_inSequence (es : List Entry) : Numbered (inSequence 1 es).1 := by
  have key : ∀ (es : List Entry) (k i : ℕ) (e : Entry), (inSequence k es).1[i]? = some e →
      e.index = k + i := by
    intro es
    induction es with
    | nil => exact fun k i e h => by cases h
    | cons f es ih =>
      intro k i e h
      unfold inSequence at h
      split at h
      · rename_i hf
        cases i with
        | zero =>
          rw [← Option.some.inj h]
          exact hf
        | succ i =>
          rw [ih (k + 1) i e h]
          exact Nat.succ_add_eq_add_succ k i
      · cases h
  exact fun i e h => (key es 1 i e h).trans (Nat.add_comm 1 i)

lemma Log.restore_ok {σ μ : Type} [LogStore σ] {machine : μ} {store store' : σ} {l : Log μ}
    (h : Log.restore machine store = (.ok l, store')) :
    ∃ es, Numbered es ∧ l = { entries := es, machine } := by
  unfold Log.restore at h
  split at h
  · cases h
  · rename_i records st _
    have hnum := Log.numbered_inSequence records
    split at h
    · rename_i es hs
      rw [hs] at hnum
      cases h
      exact ⟨es, hnum, rfl⟩
    · rename_i es hs
      rw [hs] at hnum
      split at h
      · cases h
      · cases h
        exact ⟨es, hnum, rfl⟩

/-- A request in sequence ends as many positions behind its start as it has entries. -/
lemma AppendRequest.lastIndex_eq {r : AppendRequest} (hr : NumberedFrom r.prevIndex r.entries) :
    r.lastIndex = r.prevIndex + r.entries.length := by
  unfold lastIndex
  rcases List.eq_nil_or_concat' r.entries with hnil | ⟨es, e, hsnoc⟩
  · rw [hnil]
    rfl
  · have hlast : e.index = r.prevIndex + es.length + 1 := by
      refine hr es.length e ?_
      rw [hsnoc, List.getElem?_concat_length]
    rw [hsnoc, List.getLast?_concat, List.length_append]
    exact hlast

/-- A request reaches to the end of the log that it is a slice of. -/
lemma AppendRequest.lastIndex_of_slice {fs : List Entry} {r : AppendRequest} (hf : Numbered fs)
    (h : r.batch.Slice fs) : r.lastIndex = fs.length := by
  have hle : r.prevIndex ≤ fs.length := h.prev_le
  have hent : r.entries = fs.drop r.prevIndex := h.entries
  have hnum : NumberedFrom r.prevIndex r.entries := by
    rw [hent]
    exact hf.drop _
  rw [lastIndex_eq hnum, hent, List.length_drop, Nat.add_sub_cancel' hle]

/-- The candidate's log, by what the request tells of it, is no worse than these entries. -/
def VoteRequest.Covers (r : VoteRequest) (es : List Entry) : Prop :=
  termOf es es.length < r.lastTerm ∨ r.lastTerm = termOf es es.length ∧ es.length ≤ r.lastIndex

namespace Node

variable {σ μ : Type}

lemma leaderTerm_eq_some {n : Node σ μ} {t : Term} :
    n.leaderTerm = some t ↔ n.role = .leader ∧ n.term = t := by
  show (if n.standing.role = .leader then some n.standing.term else none) = some t ↔ _
  by_cases h : n.standing.role = .leader
  · rw [if_pos h]
    exact ⟨fun ht => ⟨h, Option.some.inj ht⟩, fun ht => congrArg some ht.2⟩
  · rw [if_neg h]
    exact ⟨fun ht => (by cases ht), fun ht => absurd ht.1 h⟩

lemma isCurrent_iff {n : Node σ μ} {r : VoteRequest} :
    n.isCurrent r = true ↔ r.Covers n.log.entries := by
  unfold isCurrent
  rw [Bool.or_eq_true, Bool.and_eq_true, decide_eq_true_eq, decide_eq_true_eq, decide_eq_true_eq]
  rfl

/-- What a member asks of the others when it stands for election. -/
def candidacy (n : Node σ μ) : VoteRequest := ⟨n.term.next, n.id, n.log.lastIndex, n.log.lastTerm⟩

/-- A member that has stored its candidacy. -/
def stood (store : σ) (n : Node σ μ) : Node σ μ :=
  { n with
    standing := ⟨⟨n.term.next, some n.id⟩, .candidate⟩
    store
    tally := some { request := n.candidacy } }

/-- A candidate's request covers its own log. -/
lemma candidacy_covers (n : Node σ μ) : n.candidacy.Covers n.log.entries := Or.inr ⟨rfl, le_rfl⟩

/-- A leader that has stored an entry for a client, before it commits. -/
def wrote (t : Term) (payload : Bytes) (store : σ) (n : Node σ μ) : Node σ μ :=
  callRounds { n with
    log := { n.log with
      entries := n.log.entries ++ [⟨t, n.log.size, payload⟩]
      waits := (n.log.waits.register n.log.size).2 }
    store
    progress := n.progress.advance n.id n.log.size }

lemma receiveVote_tally [BallotStore σ] (r : VoteRequest) (n : Node σ μ) :
    (n.receiveVote r).2.tally = n.tally := by
  unfold receiveVote
  simp only
  split_ifs <;> first | rfl | (split <;> rfl)

/-- An election is won with a majority, in the term stood for. -/
lemma closeElection_won {n : Node σ μ} {t : Tally} (ht : n.tally = some t)
    (hv : n.config.majority ≤ t.votes) (hr : n.role = .candidate)
    (hterm : n.term = t.request.term) :
    n.closeElection = (true, n.takeOffice { n.standing with role := .leader }) := by
  have hc : n.standing.role = .candidate ∧ n.standing.term = t.request.term := ⟨hr, hterm⟩
  simp only [closeElection, ht, if_pos hv, Standing.lead, if_pos hc]

/-- And not otherwise. -/
lemma closeElection_lost {n : Node σ μ} {t : Tally} (ht : n.tally = some t)
    (h : ¬ (n.config.majority ≤ t.votes ∧ n.role = .candidate ∧ n.term = t.request.term)) :
    n.closeElection = (false, n.loseElection t.request.term) := by
  unfold closeElection
  rw [ht]
  dsimp only
  split
  · rename_i hv
    have hc : ¬ (n.standing.role = .candidate ∧ n.standing.term = t.request.term) :=
      fun hc => h ⟨hv, hc⟩
    rw [Standing.lead, if_neg hc]
  · rfl

/-- What an answer from no later term comes to for a leader of its round's term. -/
lemma finishRound_eq [BallotStore σ] [Machine μ] {r : Round} {a : AppendReply} {n : Node σ μ}
    (ht : a.term ≤ n.term) (hl : n.leaderTerm = some r.request.term) :
    n.finishRound r (.ok a) =
      if a.success then tryCommit { n with
        progress := n.progress.advance r.peer r.request.lastIndex
        contacts := n.contacts.hear r.peer }
      else { n with progress := n.progress.backOff r.peer } := by
  have hne : ¬ n.leaderTerm ≠ some r.request.term := fun h => h hl
  rw [finishRound]
  rw [if_neg (Nat.not_lt_of_le ht), if_neg hne]

/-- A position that a leader may commit to: it holds an entry of its own term, and a majority is
known to agree up to there. -/
structure Ripe (n : Node σ μ) (i : ℕ) : Prop where
  pos : 0 < i
  le : i ≤ n.log.entries.length
  term : n.leaderTerm = some (termOf n.log.entries i)
  count : n.config.majority ≤ n.progress.count n.config.members i

lemma tryCommit_tally [Machine μ] (n : Node σ μ) : n.tryCommit.tally = n.tally := by
  unfold tryCommit
  split
  · rfl
  · split <;> rfl

@[simp] lemma tryCommit_standing [Machine μ] (n : Node σ μ) :
    n.tryCommit.standing = n.standing := by
  unfold tryCommit
  split
  · rfl
  · split <;> rfl

@[simp] lemma tryCommit_progress [Machine μ] (n : Node σ μ) :
    n.tryCommit.progress = n.progress := by
  unfold tryCommit
  split
  · rfl
  · split <;> rfl

@[simp] lemma tryCommit_entries [Machine μ] (n : Node σ (Journal μ)) :
    n.tryCommit.log.entries = n.log.entries := by
  unfold tryCommit
  split
  · rfl
  · split
    · rfl
    · exact Log.commitTo_entries _

@[simp] lemma tryCommit_store [Machine μ] (n : Node σ μ) : n.tryCommit.store = n.store := by
  unfold tryCommit
  split
  · rfl
  · split <;> rfl

@[simp] lemma tryCommit_config [Machine μ] (n : Node σ μ) : n.tryCommit.config = n.config := by
  unfold tryCommit
  split
  · rfl
  · split <;> rfl

@[simp] lemma tryCommit_attached [Machine μ] (n : Node σ μ) :
    n.tryCommit.attached = n.attached := by
  unfold tryCommit
  split
  · rfl
  · split <;> rfl

/-- What is ripe depends on the standing, the entries and what is known of the others. -/
lemma Ripe.of_eq {n n' : Node σ μ} {i : ℕ} (h : n.Ripe i) (hc : n'.config = n.config)
    (hs : n'.standing = n.standing) (he : n'.log.entries = n.log.entries)
    (hp : n'.progress = n.progress) : n'.Ripe i where
  pos := h.pos
  le := by
    rw [he]
    exact h.le
  term := by
    rw [leaderTerm, hs, he]
    exact h.term
  count := by
    rw [hc, hp]
    exact h.count

/-- Committing does not change what is ripe. -/
lemma Ripe.tryCommit [Machine μ] {n : Node σ (Journal μ)} {i : ℕ} (h : n.Ripe i) :
    n.tryCommit.Ripe i :=
  h.of_eq (tryCommit_config n) (tryCommit_standing n) (tryCommit_entries n) (tryCommit_progress n)

lemma mem_agreed_iff {n : Node σ μ} (hn : Numbered n.log.entries) {t : Term} {i : ℕ}
    (ht : n.leaderTerm = some t) : i ∈ n.agreed t ↔ n.log.commit < i ∧ n.Ripe i := by
  unfold agreed
  rw [List.mem_map]
  refine ⟨?_, ?_⟩
  · rintro ⟨e, he, rfl⟩
    obtain ⟨hmem, hcond⟩ := List.mem_filter.mp he
    rw [Bool.and_eq_true, decide_eq_true_eq, decide_eq_true_eq] at hcond
    obtain ⟨x, hx⟩ := List.mem_iff_getElem?.mp hmem
    rw [List.getElem?_drop] at hx
    have hidx := hn _ e hx
    obtain ⟨hlt, -⟩ := List.getElem?_eq_some_iff.mp hx
    refine ⟨?_, ?_, ?_, ?_, hcond.2⟩
    · rw [hidx]
      exact Nat.lt_succ_of_le (Nat.le_add_right _ x)
    · rw [hidx]
      exact Nat.succ_pos _
    · rw [hidx]
      exact hlt
    · rw [hidx, termOf_succ hx, ht, hcond.1]
  · rintro ⟨hlt, h⟩
    obtain ⟨x, rfl⟩ := Nat.exists_eq_add_of_lt hlt
    have hget := List.getElem?_eq_getElem (Nat.lt_of_succ_le h.le)
    refine ⟨_, List.mem_filter.mpr ⟨?_, ?_⟩, hn _ _ hget⟩
    · refine List.mem_iff_getElem?.mpr ⟨x, ?_⟩
      rw [List.getElem?_drop, hget]
    · have hterm := ht.symm.trans h.term
      rw [termOf_succ hget] at hterm
      rw [Bool.and_eq_true, decide_eq_true_eq, decide_eq_true_eq, hn _ _ hget]
      exact ⟨(Option.some.inj hterm).symm, h.count⟩

/-- A leader commits up to the last ripe position, if there is one behind its commit index. -/
lemma tryCommit_cases [Machine μ] {n : Node σ μ} (hn : Numbered n.log.entries) :
    (n.tryCommit = n ∧ ∀ j, n.Ripe j → j ≤ n.log.commit) ∨
      ∃ i, n.log.commit < i ∧ n.Ripe i ∧ (∀ j, n.Ripe j → j ≤ i) ∧
        n.tryCommit = { n with log := n.log.commitTo i } := by
  unfold tryCommit
  split
  · rename_i hnone
    exact Or.inl ⟨rfl, fun j hj => by cases hnone.symm.trans hj.term⟩
  · rename_i t ht
    split
    · rename_i hmax
      refine Or.inl ⟨rfl, fun j hj => Nat.le_of_not_lt fun hlt => ?_⟩
      have hmem := (mem_agreed_iff hn ht).mpr ⟨hlt, hj⟩
      rw [List.max?_eq_none_iff.mp hmax] at hmem
      cases hmem
    · rename_i i hmax
      obtain ⟨hlt, hi⟩ := (mem_agreed_iff hn ht).mp (List.max?_mem hmax)
      refine Or.inr ⟨i, hlt, hi, fun j hj => Nat.le_of_not_lt fun hij => ?_, rfl⟩
      have hmem := (mem_agreed_iff hn ht).mpr ⟨hlt.trans hij, hj⟩
      exact Nat.not_lt_of_le ((List.max?_le_iff hmax).mp le_rfl j hmem) hij

lemma wrote_sound {n : Node σ (Journal μ)} (h : n.log.Sound) (t : Term) (payload : Bytes)
    (store : σ) : (n.wrote t payload store).log.Sound := by
  refine ⟨h.numbered.snoc rfl, ?_, h.applied, ?_⟩
  · show n.log.commit ≤ (n.log.entries ++ [_]).length
    rw [List.length_append]
    exact Nat.le_add_right_of_le h.commit_le
  · show n.log.machine.given = (n.log.entries ++ [_]).take n.log.commit
    rw [List.take_append_of_le_length h.commit_le]
    exact h.given

/-- A command of a client is added to the log of a leader, or nothing changes but for what storage
has gone through. -/
lemma submit_cases [LogStore σ] [Machine μ] (payload : Bytes) (n : Node σ μ) :
    (∃ e store', n.submit payload = (.error e, { n with store := store' }) ∧
      (store' = n.store ∨ ∃ f x, LogStore.append f n.store = (.error x, store'))) ∨
    ∃ t i store', n.leaderTerm = some t ∧
      LogStore.append ⟨t, n.log.size, payload⟩ n.store = (.ok i, store') ∧
      n.submit payload =
        (.ok ⟨t, n.log.size, n.log.waits.all.length⟩, (n.wrote t payload store').tryCommit) := by
  unfold submit write
  cases ht : n.leaderTerm with
  | none => exact Or.inl ⟨_, n.store, rfl, Or.inl rfl⟩
  | some t =>
    dsimp only
    rcases Log.push_cases ⟨t, n.log.size, payload⟩ n.log n.store with
      ⟨i, store', ha, hp⟩ | ⟨x, store', ha, hp⟩
    · simp only [hp]
      exact Or.inr ⟨t, i, store', rfl, ha, congrArg (Prod.mk _) (if_pos ht)⟩
    · simp only [hp]
      exact Or.inl ⟨_, store', rfl, Or.inr ⟨_, x, ha⟩⟩

lemma submit_tally [LogStore σ] [Machine μ] (payload : Bytes) (n : Node σ μ) :
    (n.submit payload).2.tally = n.tally := by
  rcases n.submit_cases payload with ⟨e, store', hs, -⟩ | ⟨t, i, store', -, -, hs⟩
  · rw [hs]
  · rw [hs]
    exact tryCommit_tally _

/-- Why the log of a member refuses a request, if the member makes way for its sender. -/
def refusal? [LogStore σ] [BallotStore σ] [Machine μ] (r : AppendRequest) (n : Node σ μ) :
    Option Refusal :=
  match n.yieldTo r.term with
  | none => none
  | some m =>
    match (m.log.follow m.term r.batch m.store).1 with
    | .ok () => none
    | .error e => some e

lemma refusal?_eq_some [LogStore σ] [BallotStore σ] [Machine μ] {r : AppendRequest}
    {n : Node σ μ} {e : Refusal} : n.refusal? r = some e ↔
      ∃ m, n.yieldTo r.term = some m ∧
        (m.log.follow m.term r.batch m.store).1 = .error e := by
  unfold refusal?
  rcases n.yieldTo r.term with _ | m
  · simp
  · rcases hf : (m.log.follow m.term r.batch m.store).1 with e' | ⟨⟩
    · simp [hf]
    · simp [hf]

/-- A member that has made way takes a request into its log. -/
def followed [LogStore σ] [Machine μ] (r : AppendRequest) (n : Node σ μ) : Node σ μ :=
  resetTimer { n with
    contacts := n.contacts.hearLeader r.leader
    log := (n.log.follow n.term r.batch n.store).2.1
    store := (n.log.follow n.term r.batch n.store).2.2 }

/-- A member that makes way takes the batch into its log and tells whether its log refused; apart
from that it only notes who sent it. -/
lemma receiveAppend_cases [LogStore σ] [BallotStore σ] [Machine μ] (r : AppendRequest)
    (n : Node σ μ) :
    (n.yieldTo r.term = none ∧ n.receiveAppend r = (⟨n.term, false⟩, n)) ∨
    ∃ m, n.yieldTo r.term = some m ∧
      n.receiveAppend r = (⟨m.term, (n.refusal? r).isNone⟩, m.followed r) := by
  rcases h : n.yieldTo r.term with _ | m
  · exact Or.inl ⟨rfl, by rw [receiveAppend, h]⟩
  · refine Or.inr ⟨m, rfl, ?_⟩
    rw [receiveAppend, refusal?, h]
    dsimp only [followed, resetTimer, term]
    rcases m.log.follow m.standing.term r.batch m.store with ⟨e | ⟨⟩, l, store'⟩
    · rfl
    · rfl

/-- A round is begun by a leader that has its log, and to another member. -/
lemma startRound_some {n : Node σ μ} {peer : NodeId} {r : Round} (h : n.startRound peer = some r) :
    peer ≠ n.id ∧ n.attached = true ∧ n.leaderTerm = some r.request.term ∧
      r = ⟨peer, n.appendRequest r.request.term (n.sendFrom peer)⟩ := by
  unfold startRound at h
  split at h
  · cases h
  · rename_i hne
    split at h
    · cases h
    · rename_i t ht
      split at h
      · rename_i ha
        obtain rfl := Option.some.inj h
        exact ⟨hne, ha, ht, rfl⟩
      · cases h

/-- A round sends what the leader's log holds behind a position, with its commit index. -/
lemma startRound_slice {n : Node σ μ} (hc : n.log.commit ≤ n.log.entries.length) {peer : NodeId}
    {r : Round} (h : n.startRound peer = some r) :
    n.leaderTerm = some r.request.term ∧ r.request.batch.Slice n.log.entries ∧
      r.request.commit = n.log.commit := by
  obtain ⟨-, -, ht, hr⟩ := startRound_some h
  obtain ⟨next, hnext⟩ : ∃ p, n.sendFrom peer = p + 1 := by
    refine Nat.exists_eq_succ_of_ne_zero (Nat.ne_of_gt ?_)
    exact lt_min (lt_max_of_lt_right Nat.one_pos) (Nat.succ_pos _)
  have hle : next ≤ n.log.entries.length := by
    have hle : next + 1 ≤ n.log.entries.length + 1 := hnext ▸ min_le_right _ _
    exact Nat.le_of_succ_le_succ hle
  rw [hnext] at hr
  refine ⟨ht, ?_, ?_⟩
  · rw [hr]
    exact ⟨hle, rfl, rfl, hc⟩
  · rw [hr]
    rfl

variable [LogStore σ] [BallotStore σ] [Reopen σ] [LawfulStore σ]
variable {n n' n'' : Node σ (Journal μ)}

/-- A member holds what it has stored, and its log is sound. -/
structure Fit (n : Node σ (Journal μ)) : Prop where
  stored : contents n.store = ⟨n.log.entries, n.standing.ballot⟩
  sound : n.log.Sound

/-- The log is left alone, but for those who wait, with all that is known of others' logs, no role
is raised and no election begins. -/
structure Rests (n n' : Node σ (Journal μ)) : Prop where
  config : n'.config = n.config
  turns : Standing.Turns n.standing n.store n'.standing n'.store
  entries : n'.log.entries = n.log.entries
  commit : n'.log.commit = n.log.commit
  applied : n'.log.applied = n.log.applied
  machine : n'.log.machine = n.log.machine
  progress : n'.progress = n.progress
  asked : ∀ t', n'.tally = some t' → ∃ t, n.tally = some t ∧ t.request = t'.request

/-- What every operation but a candidacy and its end does, whatever it does to the log. -/
structure Goes (n n' : Node σ (Journal μ)) : Prop where
  config : n'.config = n.config
  before : n.standing.ballot.Before n'.standing.ballot
  role : n'.role ≠ .follower → n'.role = n.role ∧ n'.term = n.term
  fit : n.Fit → n'.Fit

namespace Rests

lemma refl (n : Node σ (Journal μ)) : Rests n n :=
  ⟨rfl, .refl _ _, rfl, rfl, rfl, rfl, rfl, fun t h => ⟨t, h, rfl⟩⟩

lemma trans (h : Rests n n') (h' : Rests n' n'') : Rests n n'' where
  config := h'.config.trans h.config
  turns := h.turns.trans h'.turns
  entries := h'.entries.trans h.entries
  commit := h'.commit.trans h.commit
  applied := h'.applied.trans h.applied
  machine := h'.machine.trans h.machine
  progress := h'.progress.trans h.progress
  asked t' ht' := by
    obtain ⟨t, ht, hreq⟩ := h'.asked t' ht'
    obtain ⟨u, hu, hreq'⟩ := h.asked t ht
    exact ⟨u, hu, hreq'.trans hreq⟩

lemma fit (h : Rests n n') (hn : n.Fit) : n'.Fit where
  stored := by
    have hb := h.turns.held (by rw [hn.stored])
    have hr := h.turns.records
    rw [hn.stored] at hr
    rw [h.entries, ← hb]
    exact congrArg (fun es => (⟨es, _⟩ : Memory)) hr
  sound := hn.sound.of_eq h.entries h.commit h.applied h.machine

lemma goes (h : Rests n n') : Goes n n' := ⟨h.config, h.turns.before, h.turns.role, h.fit⟩

/-- Only the standing and what goes with it were changed. -/
lemma of_turns (hc : n'.config = n.config) (hl : n'.log = n.log) (hp : n'.progress = n.progress)
    (ha : n'.tally = n.tally) (ht : Standing.Turns n.standing n.store n'.standing n'.store) :
    Rests n n' :=
  ⟨hc, ht, by rw [hl], by rw [hl], by rw [hl], by rw [hl], hp, fun t h => ⟨t, ha ▸ h, rfl⟩⟩

/-- Storage has gone through something, and holds the same. -/
lemma of_store {store' : σ} (h : contents store' = contents n.store) :
    n.Rests { n with store := store' } := by
  refine .of_turns rfl rfl rfl rfl ?_
  exact ⟨.refl _, fun _ => ⟨rfl, rfl⟩, congrArg Memory.records h, fun hb => h ▸ hb⟩

end Rests

/-! ### Stepping down and giving up -/

lemma stepDown_rests (t : Term) (n : Node σ (Journal μ)) : n.Rests (n.stepDown t) := by
  have ht := Standing.follow_turns t n.standing n.store
  unfold stepDown
  split
  rename_i heq
  rw [heq] at ht
  refine ⟨rfl, ht, ?_, ?_, ?_, ?_, rfl, fun t h => ⟨t, h, rfl⟩⟩ <;>
    by_cases ha : n.attached <;> simp [ha, Log.failWaits]

lemma giveUp_rests (w : Written) (n : Node σ (Journal μ)) : n.Rests (n.giveUp w) :=
  ⟨rfl, .refl _ _, rfl, rfl, rfl, rfl, rfl, fun t h => ⟨t, h, rfl⟩⟩

/-! ### Votes -/

lemma receiveVote_rests (r : VoteRequest) (n : Node σ (Journal μ)) :
    n.Rests (n.receiveVote r).2 := by
  have hstep : n.Rests (if n.term < r.term then n.stepDown r.term else n) := by
    split
    · exact stepDown_rests _ _
    · exact .refl _
  unfold receiveVote
  simp only
  generalize (if n.term < r.term then n.stepDown r.term else n) = m at hstep ⊢
  have hg := Standing.grant_turns r.term r.candidate m.standing m.store
  refine hstep.trans ?_
  split
  · split <;> rename_i heq <;> rw [heq] at hg <;> exact .of_turns rfl rfl rfl rfl hg
  · exact .refl _

/-- A vote is given in the term it was asked for, it is the member's only vote in that term, and
the candidate's log is no worse than the member's. -/
lemma receiveVote_granted {r : VoteRequest} {n : Node σ (Journal μ)}
    (h : (n.receiveVote r).1.granted = true) :
    (n.receiveVote r).2.standing.ballot = ⟨r.term, some r.candidate⟩ ∧
      (n.receiveVote r).1.term = r.term ∧ r.Covers n.log.entries := by
  have hlog : (if n.term < r.term then n.stepDown r.term else n).log.entries = n.log.entries := by
    split
    · exact (stepDown_rests _ _).entries
    · rfl
  unfold receiveVote at h ⊢
  simp only at h ⊢
  generalize (if n.term < r.term then n.stepDown r.term else n) = m at h hlog ⊢
  split at h
  · rename_i hc
    rw [if_pos hc]
    split at h <;> rename_i heq
    · cases h
    · cases h
    · have hb := Standing.ballot_of_grant heq
      exact ⟨hb, congrArg Ballot.term hb, hlog ▸ isCurrent_iff.mp hc⟩
  · cases h

/-! ### Elections -/

/-- Standing for election takes the next term, with a vote for oneself, and opens a count, or it
leaves the member as it was. -/
lemma startElection_cases (n : Node σ (Journal μ)) :
    (n.startElection.1 = none ∧ n.Rests n.startElection.2 ∧
      n.startElection.2.tally = n.tally) ∨
    n.tally = none ∧ ∃ store', contents store' =
        { contents n.store with ballot := ⟨n.term.next, some n.id⟩ } ∧
      n.startElection = (some n.candidacy, n.stood store') := by
  unfold startElection
  split
  · exact Or.inl ⟨rfl, .refl _, rfl⟩
  · rename_i hnone
    rcases Standing.stand_cases n.id n.standing n.store with ⟨store', hs, hc⟩ | ⟨e, store', hs, hc⟩
    · simp only [hs]
      exact Or.inr ⟨hnone, store', hc, rfl⟩
    · simp only [hs]
      refine Or.inl ⟨trivial, .of_turns rfl rfl rfl rfl ?_, rfl⟩
      exact ⟨.refl _, fun _ => ⟨rfl, rfl⟩, congrArg Memory.records hc, fun h => hc ▸ h⟩

/-- Counting an answer adds a vote for a grant in the term stood for, and never touches what was
asked. -/
lemma countVote_cases (reply : Except NetworkError VoteReply) (n : Node σ (Journal μ)) :
    n.Rests (n.countVote reply) ∧
      ∀ t, n.tally = some t → ∃ t', (n.countVote reply).tally = some t' ∧
        t'.request = t.request ∧ (t'.votes = t.votes ∨ t'.votes = t.votes + 1 ∧
          ∃ r, reply = .ok r ∧ r.granted = true ∧ r.term = t.request.term) := by
  unfold countVote
  split
  · rename_i hnone
    exact ⟨.refl _, fun t ht => by rw [hnone] at ht; cases ht⟩
  · rename_i t ht
    have hone : ∀ {P : Tally → Prop}, P t → ∀ t', n.tally = some t' → P t' := by
      intro P hP t' ht'
      rw [ht] at ht'
      exact Option.some.inj ht' ▸ hP
    have hkeep : ∀ t' : Tally, t.request = t'.request → n.Rests { n with tally := some t' } := by
      intro t' hreq
      refine ⟨rfl, .refl _ _, rfl, rfl, rfl, rfl, rfl, fun u hu => ⟨t, ht, ?_⟩⟩
      rw [hreq, Option.some.inj hu]
    split
    · exact ⟨.refl _, fun t' ht' => ⟨t', ht', rfl, Or.inl rfl⟩⟩
    · dsimp only
      split
      · exact ⟨hkeep _ rfl, hone ⟨_, rfl, rfl, Or.inl rfl⟩⟩
      · rename_i r
        split
        · rename_i hg
          rw [Bool.and_eq_true, decide_eq_true_eq] at hg
          exact ⟨hkeep _ rfl, hone ⟨_, rfl, rfl, Or.inr ⟨rfl, r, rfl, hg.1, hg.2⟩⟩⟩
        · split
          · refine ⟨?_, hone ⟨_, rfl, rfl, Or.inl rfl⟩⟩
            exact (hkeep { t with replies := t.replies + 1, overtaken := true } rfl).trans
              (stepDown_rests _ _)
          · exact ⟨hkeep _ rfl, hone ⟨_, rfl, rfl, Or.inl rfl⟩⟩

/-- Ending an election takes office with a majority, in the term stood for, or raises no role. -/
lemma closeElection_cases (n : Node σ (Journal μ)) :
    n.closeElection.2.tally = none ∧
    ((∃ t, n.tally = some t ∧ n.config.majority ≤ t.votes ∧ n.role = .candidate ∧
        n.term = t.request.term ∧
        n.closeElection.2 = n.takeOffice { n.standing with role := .leader }) ∨
      n.Rests n.closeElection.2) := by
  have hlose : ∀ t, n.Rests (n.loseElection t) := by
    intro t
    have hw : Standing.Turns n.standing n.store (n.standing.withdraw t).2 n.store := by
      unfold Standing.withdraw
      split
      · exact ⟨.refl _, fun h => absurd rfl h, rfl, fun h => h⟩
      · exact .refl _ _
    exact ⟨rfl, hw, rfl, rfl, rfl, rfl, rfl, fun t h => by cases h⟩
  rcases ht : n.tally with _ | t
  · rw [closeElection, ht]
    exact ⟨ht, Or.inr (.refl n)⟩
  · by_cases hw : n.config.majority ≤ t.votes ∧ n.role = .candidate ∧ n.term = t.request.term
    · rw [closeElection_won ht hw.1 hw.2.1 hw.2.2]
      exact ⟨rfl, Or.inl ⟨t, rfl, hw.1, hw.2.1, hw.2.2, rfl⟩⟩
    · rw [closeElection_lost ht hw]
      exact ⟨rfl, Or.inr (hlose _)⟩

/-! ### Writing -/

/-- A command that is not added to the log leaves the member as it was. -/
lemma rests_of_unwritten {store' : σ}
    (h : store' = n.store ∨ ∃ f x, LogStore.append f n.store = (.error x, store')) :
    n.Rests { n with store := store' } := by
  rcases h with rfl | ⟨f, x, ha⟩
  · exact .refl n
  · exact .of_store (append_error ha)

lemma wrote_fit {t : Term} {payload : Bytes} {i : Index} {store' : σ} (hn : n.Fit)
    (h : LogStore.append ⟨t, n.log.size, payload⟩ n.store = (.ok i, store')) :
    (n.wrote t payload store').Fit where
  stored := by
    show contents store' = _
    rw [Log.contents_append h, hn.stored]
    rfl
  sound := wrote_sound hn.sound t payload store'

lemma yieldTo_some {t : Term} {n m : Node σ (Journal μ)} (h : n.yieldTo t = some m) :
    n.Rests m ∧ m.tally = n.tally ∧ n.term ≤ t := by
  unfold yieldTo at h
  split_ifs at h with h1 h2
  · obtain rfl := Option.some.inj h
    exact ⟨stepDown_rests _ _, rfl, Nat.le_of_lt h2⟩
  · have hle := Nat.le_of_not_lt h1
    split at h
    · cases h
    · obtain rfl := Option.some.inj h
      exact ⟨.refl _, rfl, hle⟩
    · obtain rfl := Option.some.inj h
      exact ⟨.of_turns rfl rfl rfl rfl (Standing.follow_turns _ _ _), rfl, hle⟩

/-- Whoever makes way, and has the new term stored if it is one, follows in the term that it makes
way for. -/
lemma yieldTo_stored {t : Term} {n m : Node σ (Journal μ)} (h : n.yieldTo t = some m)
    (hok : n.term < t → (n.standing.follow t n.store).1 = .ok ()) :
    m.term = t ∧ m.role = .follower := by
  have hle := (yieldTo_some h).2.2
  have hfol : (n.standing.follow t n.store).2.1.term = t ∧
      (n.standing.follow t n.store).2.1.role = .follower := by
    by_cases hlt : n.standing.term < t
    · rw [Standing.follow_standing (hok hlt), if_pos hlt]
      exact ⟨rfl, rfl⟩
    · rw [Standing.follow, if_neg hlt]
      exact ⟨Nat.le_antisymm hle (Nat.le_of_not_lt hlt), rfl⟩
  unfold yieldTo at h
  split_ifs at h with h1 h2
  · obtain rfl := Option.some.inj h
    exact hfol
  · split at h
    · cases h
    · rename_i hr
      obtain rfl := Option.some.inj h
      exact ⟨Nat.le_antisymm hle (Nat.le_of_not_lt h2), hr⟩
    · obtain rfl := Option.some.inj h
      exact hfol

/-! ### Starting -/

/-- A member starts with what is stored, as a follower that has committed nothing yet. -/
lemma restore_cases (config : Config) (machine : Journal μ) (store : σ)
    (h : Numbered (contents store).records) :
    (∃ store', contents store' = contents store ∧ restore config machine store = (.ok
      { config, store := store', standing := { ballot := (contents store).ballot }
        log := { entries := (contents store).records, machine } }, store')) ∨
    ∃ e store', restore config machine store = (.error e, store') ∧
      contents store' = contents store := by
  unfold restore Log.restore
  rcases Standing.restore_cases store with ⟨st, hs, hc⟩ | ⟨e, st, hs, hc⟩
  · rw [hs]
    dsimp only
    rcases hr : LogStore.readAll st with ⟨_ | es, store'⟩
    · exact Or.inr ⟨_, store', rfl, (readAll_error hr).trans hc⟩
    · obtain ⟨rfl, hc'⟩ := readAll_ok hr
      rw [hc]
      dsimp only
      rw [Log.inSequence_eq h]
      exact Or.inl ⟨store', hc'.trans hc, rfl⟩
  · rw [hs]
    exact Or.inr ⟨e, st, rfl, hc⟩

section Committing

variable [Machine μ]

/-- A leader's commit only moves its commit index, to a position that is ripe. -/
lemma tryCommit_goes (h : n.Fit) :
    Goes n n.tryCommit ∧
      (n.tryCommit.log.commit = n.log.commit ∨
        ∃ i, n.Ripe i ∧ n.tryCommit.log.commit = max n.log.commit i) := by
  rcases tryCommit_cases h.sound.numbered with ⟨hc, -⟩ | ⟨i, -, hi, -, hc⟩
  · rw [hc]
    exact ⟨(Rests.refl n).goes, Or.inl rfl⟩
  · rw [hc]
    refine ⟨⟨rfl, .refl _, fun _ => ⟨rfl, rfl⟩, fun _ => ⟨?_, ?_⟩⟩, Or.inr ⟨i, hi, by simp⟩⟩
    · simpa using h.stored
    · exact h.sound.commitTo hi.le

/-! ### Clients -/

lemma submit_goes (payload : Bytes) (n : Node σ (Journal μ)) (hn : n.Fit) :
    n.Goes (n.submit payload).2 := by
  rcases n.submit_cases payload with ⟨e, store', hs, hr⟩ | ⟨t, i, store', -, ha, hs⟩
  · rw [hs]
    exact (rests_of_unwritten hr).goes
  · rw [hs]
    have hg := (tryCommit_goes (wrote_fit hn ha)).1
    exact ⟨hg.config, hg.before, hg.role, fun _ => hg.fit (wrote_fit hn ha)⟩

/-! ### Rounds -/

/-- An answer to a round ends a leadership, counts for a leader of the term it was sent in, or does
nothing. -/
lemma finishRound_cases (r : Round) (reply : Except NetworkError AppendReply)
    (n : Node σ (Journal μ)) :
    (n.Rests (n.finishRound r reply) ∧ (n.finishRound r reply).tally = n.tally) ∨
    ∃ a, reply = .ok a ∧ n.leaderTerm = some r.request.term ∧
      (a.success = true ∧ n.finishRound r reply = tryCommit { n with
          progress := n.progress.advance r.peer r.request.lastIndex
          contacts := n.contacts.hear r.peer } ∨
        n.finishRound r reply = { n with progress := n.progress.backOff r.peer }) := by
  unfold finishRound
  split
  · exact Or.inl ⟨.refl _, rfl⟩
  · rename_i a
    split_ifs with h1 h2 h3
    · exact Or.inl ⟨stepDown_rests _ _, rfl⟩
    · exact Or.inl ⟨.refl _, rfl⟩
    · exact Or.inr ⟨a, rfl, Classical.not_not.mp h2, Or.inl ⟨h3, rfl⟩⟩
    · exact Or.inr ⟨a, rfl, Classical.not_not.mp h2, Or.inr rfl⟩

/-! ### Requests of a leader -/

lemma finishRound_tally (r : Round) (reply : Except NetworkError AppendReply)
    (n : Node σ (Journal μ)) : (n.finishRound r reply).tally = n.tally := by
  rcases finishRound_cases r reply n with ⟨-, h⟩ | ⟨a, -, -, ⟨-, h⟩ | h⟩
  · exact h
  · rw [h, tryCommit_tally]
  · rw [h]

lemma finishRound_goes (r : Round) (reply : Except NetworkError AppendReply)
    (n : Node σ (Journal μ)) (hn : n.Fit) : n.Goes (n.finishRound r reply) := by
  rcases finishRound_cases r reply n with ⟨h, -⟩ | ⟨a, -, -, ⟨-, h⟩ | h⟩
  · exact h.goes
  · rw [h]
    have hfit : Fit { n with
      progress := n.progress.advance r.peer r.request.lastIndex
      contacts := n.contacts.hear r.peer } := ⟨hn.stored, hn.sound⟩
    have hg := (tryCommit_goes hfit).1
    exact ⟨hg.config, hg.before, hg.role, fun _ => hg.fit hfit⟩
  · rw [h]
    exact ⟨rfl, .refl _, fun _ => ⟨rfl, rfl⟩, fun hn => ⟨hn.stored, hn.sound⟩⟩

lemma receiveAppend_goes (r : AppendRequest) (n : Node σ (Journal μ)) :
    n.Goes (n.receiveAppend r).2 ∧ (n.receiveAppend r).2.tally = n.tally := by
  rcases receiveAppend_cases r n with ⟨-, h⟩ | ⟨m, hy, h⟩
  · rw [h]
    exact ⟨(Rests.refl n).goes, rfl⟩
  · obtain ⟨hm, ht, -⟩ := yieldTo_some hy
    rw [h]
    refine ⟨⟨hm.config, hm.turns.before, hm.turns.role, fun hn => ?_⟩, ht⟩
    have hfit := hm.fit hn
    refine ⟨?_, (Log.follow_sound hfit.sound m.term r.batch m.store).1⟩
    show contents (m.log.follow m.term r.batch m.store).2.2 = _
    have hs : (contents m.store).records = m.log.entries := by rw [hfit.stored]
    rw [Log.follow_stored hfit.sound.numbered hfit.sound.commit_le hs, hfit.stored]
    rfl

lemma receive_tally (m : Message) (n : Node σ (Journal μ)) : (n.receive m).2.tally = n.tally := by
  cases m with
  | voteRequest r => exact receiveVote_tally r n
  | appendRequest r => exact (receiveAppend_goes r n).2
  | voteReply | appendReply => rfl

end Committing

end Node

end Quorum
