import Quorum.Proofs.Answers
import Quorum.Proofs.Cursors

/-!
How a campaign is decided.

A member that stands for election counts the answers of its peers as they come, and goes on with
everything else meanwhile (`Node.Polled`). The answers alone decide the count: it is carried once
enough peers have voted, or refuted by the first answer from a later term, whichever is first
(`VoteAnswer.Carried`, `VoteAnswer.Refuted`), or it stays open until everyone has answered or the
candidate waits no longer. The tally agrees with this at every moment (`Tally.Reflects`). Nothing
that a member does meanwhile raises its role. So whoever ends the campaign either is still a
candidate of that term and takes office with a majority, or follows (`Node.campaign_decided`). The
term is the next one, and if there is none the first again (`Node.campaign_overrun`).
-/

namespace Quorum

open LawfulStore

/-! ### Verdicts -/

/-- The answer of a peer that was asked for its vote, and the candidate's term when it comes. -/
structure VoteAnswer where
  peer : NodeId
  reply : Except NetworkError VoteReply
  current : Term

namespace VoteAnswer

variable {c : Config} {t : Term} {a : VoteAnswer} {as bs : List VoteAnswer}

/-- The peer votes for the candidate in exactly this term. -/
def grants (t : Term) (a : VoteAnswer) : Bool :=
  match a.reply with
  | .ok r => r.granted && r.term = t
  | .error _ => false

/-- The answer is no such vote, and it is from a later term than the candidate's. -/
def overtakes (t : Term) (a : VoteAnswer) : Bool :=
  !a.grants t && match a.reply with
  | .ok r => a.current < r.term
  | .error _ => false

/-- The peers that have voted for the candidate. -/
def voters (t : Term) (as : List VoteAnswer) : Finset NodeId :=
  ((as.filter (grants t)).map (·.peer)).toFinset

/-- The candidate had a majority, with its own vote, before it was overtaken. -/
def Carried (c : Config) (t : Term) (as : List VoteAnswer) : Prop :=
  ∃ bs, bs <+: as ∧ c.majority ≤ (voters t bs).card + 1 ∧ ∀ b ∈ bs, b.overtakes t = false

/-- The candidate was overtaken before it had a majority. -/
def Refuted (c : Config) (t : Term) (as : List VoteAnswer) : Prop :=
  ∃ bs a, bs ++ [a] <+: as ∧ a.overtakes t = true ∧ (voters t bs).card + 1 < c.majority ∧
    ∀ b ∈ bs, b.overtakes t = false

lemma not_overtakes_of_grants (h : a.grants t = true) : a.overtakes t = false := by
  rw [overtakes, h]
  rfl

lemma voters_mono (h : bs <+: as) : voters t bs ⊆ voters t as := by
  intro p hp
  unfold voters at hp ⊢
  rw [List.mem_toFinset, List.mem_map] at hp ⊢
  obtain ⟨b, hb, rfl⟩ := hp
  rw [List.mem_filter] at hb
  exact ⟨b, List.mem_filter.mpr ⟨h.subset hb.1, hb.2⟩, rfl⟩

/-- A vote counts once. -/
lemma card_voters_snoc (hnew : ∀ b ∈ as, b.peer ≠ a.peer) :
    (voters t (as ++ [a])).card =
      if a.grants t then (voters t as).card + 1 else (voters t as).card := by
  have hmem : a.peer ∉ voters t as := by
    intro h
    unfold voters at h
    rw [List.mem_toFinset, List.mem_map] at h
    obtain ⟨b, hb, heq⟩ := h
    exact hnew b (List.mem_filter.mp hb).1 heq
  unfold voters at hmem ⊢
  rw [List.filter_append, List.map_append, List.toFinset_append]
  cases hg : a.grants t with
  | true =>
    rw [List.filter_cons_of_pos hg, if_pos rfl]
    simp only [List.filter_nil, List.map_cons, List.map_nil, List.toFinset_cons,
      List.toFinset_nil, insert_empty_eq]
    rw [Finset.union_comm, ← Finset.insert_eq, Finset.card_insert_of_notMem hmem]
  | false =>
    rw [List.filter_cons_of_neg (by simp [hg])]
    simp

lemma Carried.mono (h : Carried c t bs) (hp : bs <+: as) : Carried c t as := by
  obtain ⟨cs, hcs, hmaj, hno⟩ := h
  exact ⟨cs, hcs.trans hp, hmaj, hno⟩

lemma Refuted.mono (h : Refuted c t bs) (hp : bs <+: as) : Refuted c t as := by
  obtain ⟨cs, b, hcs, hb, hmaj, hno⟩ := h
  exact ⟨cs, b, hcs.trans hp, hb, hmaj, hno⟩

/-- Every answer is from a peer, and none from the same as another. -/
structure FromPeers (c : Config) (as : List VoteAnswer) : Prop where
  distinct : (as.map (·.peer)).Nodup
  mem : ∀ a ∈ as, a.peer ∈ c.peers

namespace FromPeers

lemma snoc (h : FromPeers c as) (ha : a.peer ∈ c.peers) (hnew : ∀ b ∈ as, b.peer ≠ a.peer) :
    FromPeers c (as ++ [a]) where
  distinct := by
    rw [List.map_append]
    refine List.Nodup.append h.distinct (List.nodup_singleton _) ?_
    rw [List.map_singleton, List.disjoint_singleton, List.mem_map]
    rintro ⟨b, hb, heq⟩
    exact hnew b hb heq
  mem b hb := by
    rcases List.mem_append.mp hb with hb | hb
    · exact h.mem b hb
    · rw [List.mem_singleton.mp hb]
      exact ha

lemma subset (h : FromPeers c as) : as.map (·.peer) ⊆ c.peers := by
  intro p hp
  obtain ⟨a, ha, rfl⟩ := List.mem_map.mp hp
  exact h.mem a ha

lemma length_le (h : FromPeers c as) : as.length ≤ c.peers.length := by
  have hsub := (List.subperm_of_subset h.distinct h.subset).length_le
  rwa [List.length_map] at hsub

/-- There are as many answers as peers if and only if every peer has answered. -/
lemma length_le_iff (h : FromPeers c as) (hc : c.peers.Nodup) :
    c.peers.length ≤ as.length ↔ ∀ p ∈ c.peers, ∃ a ∈ as, a.peer = p := by
  refine ⟨fun hlen p hp => ?_, fun hall => ?_⟩
  · rw [← as.length_map (·.peer)] at hlen
    have hperm := (List.subperm_of_subset h.distinct h.subset).perm_of_length_le hlen
    exact List.mem_map.mp (hperm.mem_iff.mpr hp)
  · have hsub : c.peers ⊆ as.map (·.peer) := fun p hp => List.mem_map.mpr (hall p hp)
    have hle := (List.subperm_of_subset hc hsub).length_le
    rwa [List.length_map] at hle

end FromPeers

/-- What was decided first stands. -/
lemma Carried.not_refuted (h : Carried c t as) : ¬ Refuted c t as := by
  obtain ⟨bs, hbs, hmaj, hno⟩ := h
  rintro ⟨cs, a, hcs, ha, hfew, -⟩
  have hnot : ∀ {ds}, ds <+: bs → a ∉ ds := by
    intro ds hds hmem
    cases ha.symm.trans (hno a (hds.subset hmem))
  rcases List.prefix_or_prefix_of_prefix hbs hcs with hle | hle
  · rcases List.prefix_concat_iff.mp hle with rfl | hle
    · exact hnot List.prefix_rfl (by simp)
    · have hcard := Finset.card_le_card (voters_mono (t := t) hle)
      omega
  · exact hnot hle (by simp)

end VoteAnswer

/-! ### The tally -/

namespace Tally

open VoteAnswer

variable {c : Config} {t : Term} {a : VoteAnswer} {as : List VoteAnswer} {k : Tally}

/-- How a tally comes about: every answer was counted, or it was decided by the first of them. -/
inductive Reflects (c : Config) (t : Term) (as : List VoteAnswer) (k : Tally) : Prop
  | counts : k.overtaken = false → k.votes = (voters t as).card + 1 → k.replies = as.length →
      (∀ a ∈ as, a.overtakes t = false) → Reflects c t as k
  | carried : Carried c t as → c.majority ≤ k.votes → k.overtaken = false → Reflects c t as k
  | refuted : Refuted c t as → k.votes < c.majority → k.overtaken = true → Reflects c t as k

lemma isOver_iff : k.isOver c = true ↔
    k.overtaken = true ∨ c.majority ≤ k.votes ∨ c.peers.length ≤ k.replies := by
  simp [isOver, or_assoc]

lemma not_overtaken (h : k.isOver c = false) : k.overtaken = false := by
  rw [isOver, Bool.or_eq_false_iff, Bool.or_eq_false_iff] at h
  exact h.1.1

/-- The tally after one more answer. -/
def add (t : Term) (a : VoteAnswer) (k : Tally) : Tally :=
  { k with
    votes := if a.grants t then k.votes + 1 else k.votes
    replies := k.replies + 1
    overtaken := k.overtaken || a.overtakes t }

namespace Reflects

/-- There is a majority in the tally if and only if the answers carry. -/
lemma majority_le_iff (h : Reflects c t as k) : c.majority ≤ k.votes ↔ Carried c t as := by
  cases h with
  | counts _ hvotes _ hno =>
    rw [hvotes]
    refine ⟨fun hmaj => ⟨as, List.prefix_rfl, hmaj, hno⟩, fun ⟨bs, hbs, hmaj, _⟩ => ?_⟩
    exact hmaj.trans (Nat.succ_le_succ (Finset.card_le_card (voters_mono hbs)))
  | carried hcar hmaj _ => exact iff_of_true hmaj hcar
  | refuted href hfew _ =>
    exact iff_of_false (Nat.not_le_of_lt hfew) fun hcar => hcar.not_refuted href

/-- The candidate was overtaken if and only if the answers refute it. -/
lemma overtaken_iff (h : Reflects c t as k) : k.overtaken = true ↔ Refuted c t as := by
  cases h with
  | counts hnot _ _ hno =>
    refine iff_of_false (hnot ▸ Bool.false_ne_true) ?_
    rintro ⟨bs, a, hbs, ha, -, -⟩
    cases ha.symm.trans (hno a (hbs.subset (by simp)))
  | carried hcar _ hnot => exact iff_of_false (hnot ▸ Bool.false_ne_true) hcar.not_refuted
  | refuted href _ ho => exact iff_of_true ho href

/-- An answer that is counted. -/
lemma add (h : Reflects c t as k) (hopen : k.isOver c = false)
    (hnew : ∀ b ∈ as, b.peer ≠ a.peer) : Reflects c t (as ++ [a]) (k.add t a) := by
  have hover : ¬ (k.overtaken = true ∨ c.majority ≤ k.votes ∨ c.peers.length ≤ k.replies) := by
    rw [← isOver_iff, hopen]
    exact Bool.false_ne_true
  cases h with
  | counts hnot hvotes hrep hno =>
    cases ha : a.overtakes t with
    | true =>
      have hg : a.grants t = false := by
        by_contra hg
        cases ha.symm.trans (not_overtakes_of_grants (Bool.not_eq_false _ ▸ hg))
      have hfew : k.votes < c.majority := Nat.lt_of_not_le fun hmaj => hover (Or.inr (Or.inl hmaj))
      refine .refuted ⟨as, a, List.prefix_rfl, ha, hvotes ▸ hfew, hno⟩ ?_ ?_
      · rw [Tally.add, hg]
        exact hfew
      · rw [Tally.add, ha]
        exact Bool.or_true _
    | false =>
      refine .counts ?_ ?_ ?_ fun b hb => ?_
      · rw [Tally.add, hnot, ha]
        rfl
      · rw [Tally.add, card_voters_snoc hnew, hvotes]
        split <;> rfl
      · rw [Tally.add, hrep, List.length_append]
        rfl
      · rcases List.mem_append.mp hb with hb | hb
        · exact hno b hb
        · rw [List.mem_singleton.mp hb]
          exact ha
  | carried _ hmaj _ => exact absurd (Or.inr (Or.inl hmaj)) hover
  | refuted _ _ ho => exact absurd (Or.inl ho) hover

/-- An answer that comes when the count is over. -/
lemma ignore (h : Reflects c t as k) (hover : k.isOver c = true)
    (hroom : as.length < c.peers.length) : Reflects c t (as ++ [a]) k := by
  have hpre := List.prefix_append as [a]
  cases h with
  | counts hnot hvotes hrep hno =>
    rcases isOver_iff.mp hover with ho | hmaj | hall
    · cases ho.symm.trans hnot
    · exact .carried ⟨as, hpre, hvotes ▸ hmaj, hno⟩ hmaj hnot
    · omega
  | carried hcar hmaj hnot => exact .carried (hcar.mono hpre) hmaj hnot
  | refuted href hfew ho => exact .refuted (href.mono hpre) hfew ho

/-- The count is over if the answers decide it, or if there are no more to come. -/
lemma isOver_iff_decided (h : Reflects c t as k) (hc : c.peers.Nodup) (hf : FromPeers c as) :
    k.isOver c = true ↔
      Carried c t as ∨ Refuted c t as ∨ ∀ p ∈ c.peers, ∃ a ∈ as, a.peer = p := by
  rw [isOver_iff, h.overtaken_iff, h.majority_le_iff, ← hf.length_le_iff hc]
  cases h with
  | counts _ _ hrep _ =>
    rw [hrep]
    exact or_left_comm
  | carried hcar _ _ => simp [hcar]
  | refuted href _ _ => simp [href]

end Reflects

end Tally

/-! ### While the votes come in -/

namespace Node

open VoteAnswer

variable {σ μ : Type} {n n' n₁ m : Node σ (Journal μ)} {k : Tally}
variable {c : Config} {r : VoteRequest} {as : List VoteAnswer} {a : VoteAnswer}

/-- What holds as long as the votes for a term come in. -/
structure Campaigning (c : Config) (r : VoteRequest) (as : List VoteAnswer)
    (n : Node σ (Journal μ)) : Prop where
  config : n.config = c
  tally : ∃ k, n.tally = some k ∧ k.request = r ∧ k.Reflects c r.term as
  answers : FromPeers c as
  term_le : r.term ≤ n.term
  role : n.role ≠ .follower → n.role = .candidate ∧ n.term = r.term

/-- A candidacy begins with no answers. -/
lemma stood_campaigning (store' : σ) (n : Node σ (Journal μ)) :
    (n.stood store').Campaigning n.config n.candidacy [] where
  config := rfl
  tally := ⟨_, rfl, rfl, .counts rfl rfl rfl fun a ha => (by cases ha)⟩
  answers := ⟨List.nodup_nil, fun a ha => (by cases ha)⟩
  term_le := le_rfl
  role _ := ⟨rfl, rfl⟩

lemma Yields.campaigning (hy : n.Yields n')
    (h : n.Campaigning c r as) {as' : List VoteAnswer}
    (ht : ∃ k, n'.tally = some k ∧ k.request = r ∧ k.Reflects c r.term as')
    (ha : FromPeers c as') : n'.Campaigning c r as' where
  config := hy.config.trans h.config
  tally := ht
  answers := ha
  term_le := h.term_le.trans hy.term_le
  role hr := by
    obtain ⟨h1, h2⟩ := hy.role hr
    obtain ⟨h3, h4⟩ := h.role (h1 ▸ hr)
    exact ⟨h1.trans h3, h2.trans h4⟩

lemma closeElection_iff (hk : m.tally = some k) : m.closeElection.1 = true ↔
    m.config.majority ≤ k.votes ∧ m.role = .candidate ∧ m.term = k.request.term := by
  by_cases h : m.config.majority ≤ k.votes ∧ m.role = .candidate ∧ m.term = k.request.term
  · rw [closeElection_won hk h.1 h.2.1 h.2.2]
    exact iff_of_true rfl h
  · rw [closeElection_lost hk h]
    exact iff_of_false Bool.false_ne_true h

lemma closeElection_ends (hk : n.tally = some k) :
    n.closeElection.2.tally = none ∧ n.closeElection.2.resets = n.resets + 1 := by
  by_cases h : n.config.majority ≤ k.votes ∧ n.role = .candidate ∧ n.term = k.request.term
  · rw [closeElection_won hk h.1 h.2.1 h.2.2]
    exact ⟨rfl, rfl⟩
  · rw [closeElection_lost hk h]
    exact ⟨rfl, rfl⟩

/-- Whoever gives up a candidacy follows, and in no earlier term. -/
lemma Campaigning.lost (h : n.Campaigning c r as) :
    (n.loseElection r.term).role = .follower ∧ r.term ≤ (n.loseElection r.term).term := by
  by_cases hr : n.role = .follower
  · have hkeep : (n.standing.withdraw r.term).2 = n.standing := by
      rw [Standing.withdraw, if_neg]
      exact fun hc => by cases hr.symm.trans hc.1
    have hsame : (n.loseElection r.term).standing = n.standing := hkeep
    exact ⟨(congrArg Standing.role hsame).trans hr,
      h.term_le.trans (congrArg Standing.term hsame).ge⟩
  · have hcand : n.standing.role = .candidate ∧ n.standing.term = r.term := h.role hr
    have hgive : (n.standing.withdraw r.term).2 = { n.standing with role := .follower } := by
      rw [Standing.withdraw, if_pos hcand]
    have hsame : (n.loseElection r.term).standing = { n.standing with role := .follower } := hgive
    exact ⟨congrArg Standing.role hsame, h.term_le.trans (congrArg Standing.term hsame).ge⟩

lemma loseElection_waits (t : Term) (n : Node σ (Journal μ)) :
    (n.loseElection t).log.waits.size = 0 := by
  show n.log.waits.failAll.2.filed.length = 0
  rw [Waits.failAll_filed]
  rfl

/-- What a new leader knows of the members' logs. -/
lemma takeOffice_progress (s : Standing) (n : Node σ (Journal μ)) :
    Table.find? n.id (n.takeOffice s).progress = some ⟨n.log.size, n.log.size - 1⟩ ∧
      ∀ p ∈ n.config.peers, Table.find? p (n.takeOffice s).progress = some ⟨n.log.size, 0⟩ := by
  refine ⟨?_, fun p hp => ?_⟩
  · exact (ProgressTable.find?_fresh n.config n.log.size n.id).trans (if_pos rfl)
  · have hne : ¬ n.config.self = p := fun h => (Config.mem_peers hp).2 h.symm
    refine (ProgressTable.find?_fresh n.config n.log.size p).trans ?_
    rw [if_neg hne, if_pos hp]

section Counting

variable [BallotStore σ]

/-- A candidacy that storage takes. -/
lemma startElection_stood (ht : n.tally = none) {store' : σ}
    (hw : BallotStore.writeBallot ⟨n.term.next, some n.id⟩ n.store = (.ok (), store')) :
    n.startElection = (some n.candidacy, n.stood store') := by
  have hstand : n.standing.stand n.id n.store =
      (.ok n.term.next, ⟨⟨n.term.next, some n.id⟩, .candidate⟩, store') := by
    have hw' : BallotStore.writeBallot ⟨n.standing.term.next, some n.id⟩ n.store =
      (.ok (), store') := hw
    rw [Standing.stand, Standing.adopt, hw']
    rfl
  rw [startElection, ht, hstand]
  rfl

/-- One candidacy at a time. -/
lemma startElection_of_tally (ht : n.tally = some k) :
    n.startElection = (none, n) := by
  unfold startElection
  rw [ht]

lemma countVote_of_over (ht : n.tally = some k) (hover : k.isOver n.config = true)
    (reply : Except NetworkError VoteReply) : n.countVote reply = n := by
  unfold countVote
  rw [ht]
  exact if_pos hover

/-- An answer that is counted. Whoever is overtaken makes way. -/
lemma countVote_of_open (ht : n.tally = some k) (hopen : k.isOver n.config = false)
    (ha : a.current = n.term) :
    let counted := { n with tally := some (k.add k.request.term a) }
    a.overtakes k.request.term = false ∧ n.countVote a.reply = counted ∨
      a.overtakes k.request.term = true ∧ ∃ t, n.countVote a.reply = counted.stepDown t := by
  have hnot := Tally.not_overtaken hopen
  unfold countVote
  rw [ht]
  dsimp only
  rw [hopen, if_neg Bool.false_ne_true]
  cases hr : a.reply with
  | error e =>
    left
    simp [Tally.add, grants, overtakes, hr]
  | ok r =>
    dsimp only
    split
    · rename_i hg
      left
      simp [Tally.add, grants, overtakes, hr, hg]
    · rename_i hg
      split
      · rename_i hlt
        right
        refine ⟨by simp [grants, overtakes, hr, hg, ha, hlt], r.term, ?_⟩
        simp [Tally.add, grants, overtakes, hr, hg, ha, hlt]
      · rename_i hlt
        left
        simp [Tally.add, grants, overtakes, hr, hg, ha, hlt]

lemma countVote_tally (ht : n.tally = some k) (hopen : k.isOver n.config = false)
    (ha : a.current = n.term) :
    (n.countVote a.reply).tally = some (k.add k.request.term a) := by
  rcases countVote_of_open ht hopen ha with ⟨-, h⟩ | ⟨-, t, h⟩
  · rw [h]
  · rw [h]
    rfl

/-- The count goes on until it is over. -/
lemma countVote_eq_self_iff (hk : m.tally = some k) :
    (∀ reply, m.countVote reply = m) ↔ k.isOver m.config = true := by
  refine ⟨fun hstill => ?_, fun hover reply => countVote_of_over hk hover reply⟩
  by_contra hopen
  have htally := countVote_tally (a := ⟨0, .error .unexpectedReply, m.term⟩) hk
    (Bool.not_eq_true _ ▸ hopen) rfl
  rw [hstill, hk] at htally
  have hrep := congrArg Tally.replies (Option.some.inj htally)
  exact Nat.succ_ne_self _ hrep.symm

end Counting

variable [LogStore σ] [BallotStore σ] [Reopen σ] [LawfulStore σ] [Machine μ]

/-- What a member may do while an election of its own is under way. -/
inductive Meanwhile : Node σ (Journal μ) → Node σ (Journal μ) → Prop
  | weathers {n : Node σ (Journal μ)} {store' : σ} : contents store' = contents n.store →
      Meanwhile n { n with store := store' }
  | ticks (n : Node σ (Journal μ)) (due : List NodeId) (heartbeats : Bool) (contacts : Contacts)
      (waits : Waits) :
      Meanwhile n { n with due, heartbeats, contacts, log := { n.log with waits } }
  | writes (n : Node σ (Journal μ)) (payload : Bytes) : Meanwhile n (n.write payload).2
  | settles (n : Node σ (Journal μ)) (w : Written) : Meanwhile n (n.settle w)
  | stands (n : Node σ (Journal μ)) : Meanwhile n n.startElection.2
  | receives (n : Node σ (Journal μ)) (m : Message) : Meanwhile n (n.receive m).2
  | finishes (n : Node σ (Journal μ)) (r : Round) (reply : Except NetworkError AppendReply) :
      Meanwhile n (n.finishRound r reply)
  | stepsDown (n : Node σ (Journal μ)) (t : Term) : Meanwhile n (n.stepDown t)

/-- An election from its opening: answers are counted as they come, each from another peer, and
anything may be done in between. -/
inductive Polled (n₁ : Node σ (Journal μ)) : List VoteAnswer → Node σ (Journal μ) → Prop
  | opens : Polled n₁ [] n₁
  | hears (as : List VoteAnswer) (a : VoteAnswer) {n : Node σ (Journal μ)} : Polled n₁ as n →
      a.peer ∈ n.config.peers → (∀ b ∈ as, b.peer ≠ a.peer) → a.current = n.term →
      Polled n₁ (as ++ [a]) (n.countVote a.reply)
  | attends {as : List VoteAnswer} {n n' : Node σ (Journal μ)} : Polled n₁ as n → Meanwhile n n' →
      Polled n₁ as n'

lemma Meanwhile.yields (h : Meanwhile n n') (ht : n.tally = some k) : n.Yields n' := by
  cases h with
  | weathers hc => exact .of_rests rfl (.of_store hc)
  | ticks => exact .of_standing rfl rfl rfl fun _ => le_rfl
  | writes payload => exact write_yields payload n
  | settles w => exact settle_yields w n
  | stands =>
    rw [startElection_of_tally ht]
    exact .of_rests rfl (.refl n)
  | receives m => exact receive_yields m n
  | finishes r reply => exact finishRound_yields r reply n
  | stepsDown t => exact .of_rests rfl (stepDown_rests t n)

/-- The count is left alone. -/
lemma Meanwhile.tally_eq (h : Meanwhile n n') (ht : n.tally = some k) : n'.tally = n.tally := by
  cases h with
  | weathers | ticks | stepsDown => rfl
  | writes payload =>
    unfold write
    split
    · rfl
    · dsimp only
      split <;> rfl
  | settles w =>
    unfold settle
    split
    · exact tryCommit_tally _
    · rfl
  | stands => rw [startElection_of_tally ht]
  | receives m => exact receive_tally m n
  | finishes r reply => exact finishRound_tally r reply n

lemma Polled.campaigning (hp : Polled n₁ as m)
    (h : n₁.Campaigning c r []) : m.Campaigning c r as := by
  induction hp with
  | opens => exact h
  | @hears as a n _ hpeer hnew hcur ih =>
    obtain ⟨k, hk, hreq, href⟩ := ih.tally
    rw [ih.config] at hpeer
    have hfrom := ih.answers.snoc hpeer hnew
    have hy : n.Yields (n.countVote a.reply) :=
      .of_rests (countVote_attached _ _) (countVote_cases _ _).1
    refine hy.campaigning ih ?_ hfrom
    rcases hover : k.isOver c with _ | _
    · have htally := countVote_tally hk (ih.config ▸ hover) hcur
      rw [hreq] at htally
      exact ⟨_, htally, hreq, href.add hover hnew⟩
    · have hroom : as.length < c.peers.length := by
        have hlen := hfrom.length_le
        rwa [List.length_append] at hlen
      rw [countVote_of_over hk (ih.config ▸ hover)]
      exact ⟨k, hk, hreq, href.ignore hover hroom⟩
  | attends _ hw ih =>
    obtain ⟨k, hk, hreq, href⟩ := ih.tally
    exact (hw.yields hk).campaigning ih ⟨k, (hw.tally_eq hk).trans hk, hreq, href⟩ ih.answers

/-- **How a campaign is decided.** Whatever a member does while the votes come in: it has asked for
them in the next term, which is a later one unless it was in the last, and by the end of its log; it
begins no other campaign; no further answer counts once a majority has voted for it in exactly that
term, or an answer from a term later than its own has come before that, or everyone has answered. If
it ends the campaign, then or earlier, it wins if and only if it had the majority and is a candidate
of that term still. A winner leads that term with rounds under way and knows nothing of its peers'
logs but all of its own. Whoever does not win follows, in that term or a later one, and no client of
it waits. -/
theorem campaign_decided {store' : σ} (hc : n.config.check = .ok ()) (hidle : n.tally = none)
    (hw : BallotStore.writeBallot ⟨n.term.next, some n.id⟩ n.store = (.ok (), store'))
    (hp : Polled n.startElection.2 as m) :
    let t := n.term.next
    let n' := m.closeElection.2
    n.startElection.1 = some ⟨t, n.id, n.log.lastIndex, n.log.lastTerm⟩ ∧
      (n.term < t ↔ ¬ n.term.IsLast) ∧
      m.startElection = (none, m) ∧
      ((∀ reply, m.countVote reply = m) ↔ Carried n.config t as ∨ Refuted n.config t as ∨
        ∀ p ∈ n.config.peers, ∃ a ∈ as, a.peer = p) ∧
      (m.closeElection.1 = true ↔ Carried n.config t as ∧ m.role = .candidate ∧ m.term = t) ∧
      (m.closeElection.1 = true → n'.leaderTerm = some t ∧ n'.heartbeats = true ∧
        Table.find? n.id n'.progress = some ⟨n'.log.size, n'.log.size - 1⟩ ∧
        ∀ p ∈ n.config.peers, Table.find? p n'.progress = some ⟨n'.log.size, 0⟩) ∧
      (m.closeElection.1 = false → n'.role = .follower ∧ t ≤ n'.term ∧ n'.log.waits.size = 0) ∧
      n'.tally = none ∧ n'.resets = m.resets + 1 := by
  have hstart := startElection_stood hidle hw
  rw [hstart] at hp
  have hm := hp.campaigning (stood_campaigning store' n)
  have hpeers : n.config.peers.Nodup := (Config.of_check hc).1.filter _
  obtain ⟨k, hk, hreq, href⟩ := hm.tally
  intro t n'
  have hwon := closeElection_iff hk
  rw [hreq, hm.config, href.majority_le_iff] at hwon
  refine ⟨by rw [hstart]; rfl, Term.lt_next_iff, startElection_of_tally hk, ?_, hwon,
    fun htrue => ?_, fun hfalse => ?_, ?_⟩
  · rw [countVote_eq_self_iff hk, hm.config]
    exact href.isOver_iff_decided hpeers hm.answers
  · obtain ⟨hmaj, hrole, hterm⟩ := (closeElection_iff hk).mp htrue
    have heq : n' = m.takeOffice { m.standing with role := .leader } :=
      congrArg Prod.snd (closeElection_won hk hmaj hrole hterm)
    obtain ⟨hown, hothers⟩ := takeOffice_progress { m.standing with role := .leader } m
    have hid : m.id = n.id := congrArg Config.self hm.config
    rw [hid] at hown
    rw [hm.config] at hothers
    rw [heq]
    exact ⟨leaderTerm_eq_some.mpr ⟨rfl, hterm.trans (congrArg VoteRequest.term hreq)⟩, rfl, hown,
      hothers⟩
  · have hlost := closeElection_lost hk fun h => by
      rw [(closeElection_iff hk).mpr h] at hfalse
      cases hfalse
    have heq : n' = m.loseElection n.candidacy.term := hreq ▸ congrArg Prod.snd hlost
    rw [heq]
    exact ⟨hm.lost.1, hm.lost.2, loseElection_waits _ _⟩
  · exact closeElection_ends hk

/-- One of five that was just started in memory. -/
def aspirant : Node Memory (Journal Kv) :=
  { config := ⟨1, [1, 2, 3, 4, 5], {}⟩, store := {}, standing := {}
    log := { machine := ⟨⟨[]⟩, []⟩ } }

/-- Member 4 is not to be reached, and members 2 and 3 vote. -/
def returns : List VoteAnswer :=
  [⟨4, .error (.unreachable 4), 1⟩, ⟨2, .ok ⟨1, true⟩, 1⟩, ⟨3, .ok ⟨1, true⟩, 1⟩]

/-- The member when the third answer is counted. It was asked for its own vote meanwhile. -/
def counted : Node Memory (Journal Kv) :=
  (((aspirant.startElection.2.countVote (.error (.unreachable 4))).receive
    (.voteRequest ⟨1, 5, 0, 0⟩)).2.countVote (.ok ⟨1, true⟩)).countVote (.ok ⟨1, true⟩)

/-- With that it has a majority and wins, unless it has made way for a later term before. -/
theorem campaign_decided_counted : aspirant.config.check = .ok () ∧ aspirant.tally = none ∧
    (BallotStore.writeBallot ⟨1, some 1⟩ aspirant.store).1 = .ok () ∧
    Polled aspirant.startElection.2 returns counted ∧
    counted.closeElection.1 = true ∧ counted.closeElection.2.leaderTerm = some 1 ∧
    Polled aspirant.startElection.2 returns (counted.stepDown 2) ∧
    (counted.stepDown 2).closeElection.1 = false ∧
    (counted.stepDown 2).closeElection.2.role = .follower := by
  have hcheck : aspirant.config.check = .ok () := rfl
  have hwrite : BallotStore.writeBallot ⟨aspirant.term.next, some aspirant.id⟩ aspirant.store =
      (.ok (), { ballot := ⟨1, some 1⟩ }) := rfl
  have hpolled : Polled aspirant.startElection.2 returns counted := by
    refine .hears [_, _] ⟨3, .ok ⟨1, true⟩, 1⟩ (.hears [_] ⟨2, .ok ⟨1, true⟩, 1⟩ (.attends
      (.hears [] ⟨4, .error (.unreachable 4), 1⟩ .opens ?_ ?_ rfl) (.receives _ _)) ?_ ?_ rfl)
        ?_ ?_ rfl <;> decide
  have hovertaken := hpolled.attends (.stepsDown counted 2)
  obtain ⟨-, -, -, -, hwins, hwon, -⟩ := campaign_decided hcheck rfl hwrite hpolled
  obtain ⟨-, -, -, -, hwins', -, hlost, -⟩ := campaign_decided hcheck rfl hwrite hovertaken
  have hcarried : Carried aspirant.config 1 returns :=
    ⟨returns, List.prefix_rfl, by decide, by decide⟩
  have htrue := hwins.mpr ⟨hcarried, rfl, rfl⟩
  have hfalse : (counted.stepDown 2).closeElection.1 = false := by
    by_contra h
    cases (hwins'.mp (Bool.not_eq_false _ ▸ h)).2.1
  exact ⟨hcheck, rfl, rfl, hpolled, htrue, (hwon htrue).1, hovertaken, hfalse, (hlost hfalse).1⟩

/-- The member when it has been told of the last term. -/
def exhausted : Node Memory (Journal Kv) := aspirant.stepDown (wordLimit - 1)

/-- It asks for votes in the first term again, and with them it leads there. -/
theorem campaign_overrun : exhausted.config.check = .ok () ∧ exhausted.tally = none ∧
    exhausted.term = wordLimit - 1 ∧ exhausted.startElection.1 = some ⟨0, 1, 0, 0⟩ ∧
    ¬ exhausted.term < exhausted.startElection.2.term ∧
    ((exhausted.startElection.2.countVote (.ok ⟨0, true⟩)).countVote
      (.ok ⟨0, true⟩)).closeElection.2.leaderTerm = some 0 :=
  ⟨rfl, rfl, rfl, rfl, Nat.not_lt_zero _, rfl⟩

end Node

end Quorum
