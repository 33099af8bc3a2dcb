import Quorum.Proofs.Campaigns

/-!
What is left of a leadership when its member follows.

Seen between its operations, each run to its end, a member leads or follows (`Node.Settled`). Nobody
waits for one that follows. Its heartbeats are another matter. They end with every way out of office
but one: whoever stands for election gives up its office for a candidacy, and a candidacy that comes
to nothing leaves the heartbeats as they were (`Node.Counted`). So they run on in a leader that
stood for election again, had no majority and was not overtaken either (`Operation.Lapses`), and in
no other member that follows (`Node.followers_idle`).
-/

namespace Quorum

open LawfulStore VoteAnswer

/-- What a member does without anything else in between. A client that appends submits its command
and gives up in the end; a campaign ends with the answers that came in time. -/
inductive Operation where
  | submit (payload : Bytes)
  | giveUp (w : Written)
  | receive (m : Message)
  | campaign (answers : List (NodeId × Except NetworkError VoteReply))
  | replicate (peer : NodeId) (reply : Except NetworkError AppendReply)
  | stepDown (t : Term)

/-- A campaign is answered by peers, and by none twice. -/
def Operation.IsGenuine (c : Config) : Operation → Prop
  | campaign answers => (answers.map (·.1)).Nodup ∧ ∀ a ∈ answers, a.1 ∈ c.peers
  | _ => True

namespace Node

section Operating

variable {σ μ : Type} [LogStore σ] [BallotStore σ] [Machine μ]

/-- Counts one answer after the other. -/
def countAll (answers : List (NodeId × Except NetworkError VoteReply)) (n : Node σ μ) : Node σ μ :=
  answers.foldl (fun n a => n.countVote a.2) n

def campaign (answers : List (NodeId × Except NetworkError VoteReply)) (n : Node σ μ) : Node σ μ :=
  match n.startElection with
  | (none, n) => n
  | (some _, n) => (n.countAll answers).closeElection.2

def replicate (peer : NodeId) (reply : Except NetworkError AppendReply) (n : Node σ μ) :
    Node σ μ :=
  match n.startRound peer with
  | none => n
  | some r => n.finishRound r reply

def operate (n : Node σ μ) : Operation → Node σ μ
  | .submit payload => (n.submit payload).2
  | .giveUp w => n.giveUp w
  | .receive m => (n.receive m).2
  | .campaign answers => n.campaign answers
  | .replicate peer reply => n.replicate peer reply
  | .stepDown t => n.stepDown t

def operateAll (n : Node σ μ) (ops : List Operation) : Node σ μ := ops.foldl operate n

/-- The answers, each with the term that the candidate is in when it comes. -/
def heard : List (NodeId × Except NetworkError VoteReply) → Node σ μ → List VoteAnswer
  | [], _ => []
  | a :: answers, n => ⟨a.1, a.2, n.term⟩ :: heard answers (n.countVote a.2)

/-- The member follows, and its heartbeats run. -/
def BeatsIdly (n : Node σ μ) : Prop := n.role = .follower ∧ n.heartbeats = true

end Operating

end Node

/-- A member whose heartbeats run stands for election, and neither has a majority nor is
overtaken. -/
def Operation.Lapses {σ μ : Type} [LogStore σ] [BallotStore σ] [Machine μ] (n : Node σ μ) :
    Operation → Prop
  | campaign answers =>
    let as := n.startElection.2.heard answers
    n.heartbeats = true ∧ n.startElection.1 ≠ none ∧ ¬ Carried n.config n.term.next as ∧
      ¬ Refuted n.config n.term.next as
  | _ => False

namespace Node

variable {σ μ : Type} {n n' n₀ n₁ m : Node σ (Journal μ)} {c : Config} {k : Tally}
variable {as : List VoteAnswer} {answers : List (NodeId × Except NetworkError VoteReply)}

/-! ### Heartbeats -/

/-- The heartbeats end, or they are as they were and nobody comes to follow. -/
def Abides (n n' : Node σ (Journal μ)) : Prop :=
  n'.heartbeats = false ∨ n'.heartbeats = n.heartbeats ∧ (n'.role = .follower → n.role = .follower)

namespace Abides

lemma of_standing (hh : n'.heartbeats = n.heartbeats) (hs : n'.standing = n.standing) :
    n.Abides n' :=
  Or.inr ⟨hh, fun hr => (congrArg Standing.role hs).symm.trans hr⟩

lemma beatsIdly (h : n.Abides n') (hn : n'.BeatsIdly) : n.BeatsIdly := by
  obtain ⟨hr, hh⟩ := hn
  rcases h with h | ⟨h1, h2⟩
  · cases h.symm.trans hh
  · exact ⟨h2 hr, h1.symm.trans hh⟩

end Abides

@[simp] lemma tryCommit_heartbeats [Machine μ] (n : Node σ (Journal μ)) :
    n.tryCommit.heartbeats = n.heartbeats := by
  unfold tryCommit
  split
  · rfl
  · split <;> rfl

section Steps

lemma submit_abides [LogStore σ] [Machine μ] (payload : Bytes) (n : Node σ (Journal μ)) :
    n.Abides (n.submit payload).2 := by
  rcases n.submit_cases payload with ⟨e, store', hs, -⟩ | ⟨t, i, store', -, -, hs⟩
  · rw [hs]
    exact .of_standing rfl rfl
  · rw [hs]
    exact .of_standing (tryCommit_heartbeats _) (tryCommit_standing _)

variable [BallotStore σ]

lemma startElection_abides (n : Node σ (Journal μ)) : n.Abides n.startElection.2 := by
  unfold startElection
  split
  · exact .of_standing rfl rfl
  · unfold Standing.stand Standing.adopt
    rcases BallotStore.writeBallot _ n.store with ⟨e | ⟨⟩, store'⟩
    · exact .of_standing rfl rfl
    · exact Or.inr ⟨rfl, fun h => by cases h⟩

lemma receiveVote_abides (r : VoteRequest) (n : Node σ (Journal μ)) :
    n.Abides (n.receiveVote r).2 := by
  obtain ⟨m, ⟨rfl, hlt⟩ | rfl, -, -, hh, hrole⟩ := receiveVote_cases r n
  · exact Or.inr ⟨hh, fun hr => hrole hlt ▸ hr⟩
  · exact Or.inl hh

/-- Only a candidate makes way for a leader of its own term and keeps its heartbeats. -/
lemma yieldTo_abides {t : Term} (hr : n.role ≠ .candidate) (h : n.yieldTo t = some m) :
    n.Abides m := by
  unfold yieldTo at h
  split_ifs at h
  · obtain rfl := Option.some.inj h
    exact Or.inl rfl
  · split at h
    · cases h
    · obtain rfl := Option.some.inj h
      exact .of_standing rfl rfl
    · rename_i hc
      exact absurd hc hr

lemma finishRound_abides [Machine μ] (r : Round) (reply : Except NetworkError AppendReply)
    (n : Node σ (Journal μ)) : n.Abides (n.finishRound r reply) := by
  unfold finishRound
  split
  · exact .of_standing rfl rfl
  · split_ifs
    · exact Or.inl rfl
    · exact .of_standing rfl rfl
    · exact .of_standing (tryCommit_heartbeats _) (tryCommit_standing _)
    · exact .of_standing rfl rfl

lemma receive_abides [LogStore σ] [Machine μ] (hr : n.role ≠ .candidate) (msg : Message) :
    n.Abides (n.receive msg).2 := by
  cases msg with
  | voteRequest r => exact receiveVote_abides r n
  | appendRequest r =>
    show n.Abides (n.receiveAppend r).2
    rcases receiveAppend_cases r n with ⟨-, h⟩ | ⟨m, hy, h⟩
    · rw [h]
      exact .of_standing rfl rfl
    · rw [h]
      have hm : n.Abides m := yieldTo_abides hr hy
      exact hm
  | voteReply | appendReply => exact .of_standing rfl rfl

end Steps

/-! ### Between two operations -/

/-- A member between two operations: no campaign is under way, and what holds of its clients as long
as no candidate meets another leader holds. -/
structure Settled (c : Config) (n : Node σ (Journal μ)) : Prop where
  config : n.config = c
  tally : n.tally = none
  role : n.role ≠ .candidate
  sane : ∃ s : Session σ μ, s.Sane ∧ s.node = n

namespace Settled

lemma idle (h : n.Settled c) (hr : n.role = .follower) : n.log.waits.size = 0 := by
  obtain ⟨s, hs, rfl⟩ := h.sane
  exact List.length_eq_zero_iff.mpr (hs.idle hr)

/-- A member that is no candidate meets nobody. -/
lemma perform [LogStore σ] [BallotStore σ] [Machine μ] (h : n.Settled c) (ev : Event) :
    ∃ s : Session σ μ, s.node = n ∧ (s.perform ev).Sane := by
  obtain ⟨s, hs, rfl⟩ := h.sane
  exact ⟨s, rfl, hs.perform fun hm => h.role hm.1.1⟩

/-- No step that raises no role begins or ends a campaign. -/
lemma step [LogStore σ] [BallotStore σ] [Machine μ] (h : n.Settled c) (ev : Event)
    (hn : ∀ cs, (Session.perform ⟨n, cs⟩ ev).node = n') (hy : n.Yields n')
    (ht : n'.tally = n.tally) : n'.Settled c where
  config := hy.config.trans h.config
  tally := ht.trans h.tally
  role hr := by
    have hne : n'.role ≠ .follower := fun hf => by cases hr.symm.trans hf
    exact h.role ((hy.role hne).1.symm.trans hr)
  sane := by
    obtain ⟨s, rfl, hs⟩ := h.perform ev
    exact ⟨_, hs, hn s.errands⟩

end Settled

/-- A member starts as a follower without heartbeats. -/
lemma restored_settled [LogStore σ] [BallotStore σ] {config : Config} {machine : μ}
    {store store' : σ} (h : restore config ⟨machine, []⟩ store = (.ok n, store')) :
    n.Settled config ∧ n.role = .follower ∧ n.heartbeats = false := by
  have hs : Session.Sane (⟨n, []⟩ : Session σ μ) := Session.restore_sane h
  unfold restore Standing.restore at h
  rcases hb : BallotStore.readBallot store with ⟨e | b, st⟩ <;> rw [hb] at h
  · cases h
  · dsimp only at h
    split at h
    · cases h
    · cases h
      exact ⟨⟨rfl, rfl, by rintro ⟨⟩, _, hs, rfl⟩, rfl, rfl⟩

/-! ### Counting one answer after the other -/

lemma heard_snoc [BallotStore σ] (a : NodeId × Except NetworkError VoteReply)
    (n : Node σ (Journal μ)) :
    n.heard (answers ++ [a]) = n.heard answers ++ [⟨a.1, a.2, (n.countAll answers).term⟩] := by
  induction answers generalizing n with
  | nil => rfl
  | cons b answers ih => exact congrArg (List.cons _) (ih _)

lemma countAll_snoc [BallotStore σ] (a : NodeId × Except NetworkError VoteReply)
    (n : Node σ (Journal μ)) :
    n.countAll (answers ++ [a]) = (n.countAll answers).countVote a.2 :=
  List.foldl_concat _ _ _ _

lemma map_heard [BallotStore σ] (n : Node σ (Journal μ)) :
    (n.heard answers).map (·.peer) = answers.map (·.1) := by
  induction answers generalizing n with
  | nil => rfl
  | cons a answers ih => exact congrArg (List.cons _) (ih _)

/-- As long as nobody overtakes the candidate its heartbeats and its standing stay. They end, if it
is overtaken. -/
lemma countAll_tally [BallotStore σ] (hk : n.tally = some k) (hnot : k.overtaken = false)
    (answers : List (NodeId × Except NetworkError VoteReply)) :
    ∃ k', (n.countAll answers).tally = some k' ∧
      (k'.overtaken = false → (n.countAll answers).heartbeats = n.heartbeats ∧
        (n.countAll answers).standing = n.standing) ∧
      (k'.overtaken = true → (n.countAll answers).heartbeats = false) := by
  induction answers using List.reverseRecOn with
  | nil => exact ⟨k, hk, fun _ => ⟨rfl, rfl⟩, fun h => by cases hnot.symm.trans h⟩
  | append_singleton answers a ih =>
    obtain ⟨k', hk', hkeep, hend⟩ := ih
    rw [countAll_snoc]
    generalize n.countAll answers = m at hk' hkeep hend
    rcases hover : k'.isOver m.config with _ | _
    · have hopen := Tally.not_overtaken hover
      rcases countVote_of_open (a := ⟨a.1, a.2, m.term⟩) hk' hover rfl with ⟨ha, h⟩ | ⟨ha, t, h⟩
      · rw [h]
        refine ⟨_, rfl, fun _ => hkeep hopen, fun ho => ?_⟩
        rw [Tally.add, hopen, ha] at ho
        cases ho
      · rw [h]
        refine ⟨_, rfl, fun ho => ?_, fun _ => rfl⟩
        rw [Tally.add, ha, Bool.or_true] at ho
        cases ho
    · rw [countVote_of_over hk' hover]
      exact ⟨k', hk', hkeep, hend⟩

/-- A candidate when all answers have come: a majority and a later term show in its tally, and
unless it was overtaken its heartbeats and its standing are what they were. -/
structure Counted (c : Config) (as : List VoteAnswer) (k : Tally) (n m : Node σ (Journal μ)) :
    Prop where
  campaigning : m.Campaigning c n.candidacy as
  tally : m.tally = some k
  request : k.request = n.candidacy
  reflects : k.Reflects c n.term.next as
  stands : k.overtaken = false →
    m.heartbeats = n.heartbeats ∧ m.role = .candidate ∧ m.term = n.term.next
  ends : k.overtaken = true → m.heartbeats = false

namespace Counted

lemma carried_iff (h : Counted c as k n m) : Carried c n.term.next as ↔
    m.config.majority ≤ k.votes ∧ m.role = .candidate ∧ m.term = k.request.term := by
  rw [h.campaigning.config, h.reflects.majority_le_iff, h.request]
  refine ⟨fun hc => ⟨hc, (h.stands ?_).2⟩, And.left⟩
  exact Bool.eq_false_iff.mpr fun ho => hc.not_refuted (h.reflects.overtaken_iff.mp ho)

lemma heartbeats_iff (h : Counted c as k n m) :
    m.heartbeats = true ↔ n.heartbeats = true ∧ ¬ Refuted c n.term.next as := by
  rw [← h.reflects.overtaken_iff]
  cases ho : k.overtaken with
  | false =>
    rw [(h.stands ho).1]
    simp
  | true =>
    rw [h.ends ho]
    simp

/-- Whoever is elected leads, and whoever is not follows and keeps its heartbeats. -/
lemma closes (h : Counted c as k n m) :
    let n' := m.closeElection.2
    n'.config = c ∧ n'.tally = none ∧ n'.role ≠ .candidate ∧
      (n'.BeatsIdly ↔
        n.heartbeats = true ∧ ¬ Carried c n.term.next as ∧ ¬ Refuted c n.term.next as) := by
  by_cases hc : Carried c n.term.next as
  · obtain ⟨hvotes, hrole, hterm⟩ := h.carried_iff.mp hc
    rw [closeElection_won h.tally hvotes hrole hterm]
    refine ⟨h.campaigning.config, rfl, (by rintro ⟨⟩), iff_of_false ?_ fun hn => hn.2.1 hc⟩
    rintro ⟨⟨⟩, -⟩
  · have hrole := h.campaigning.lost.1
    have hsame : (m.loseElection n.candidacy.term).heartbeats = m.heartbeats := rfl
    rw [closeElection_lost h.tally (mt h.carried_iff.mpr hc), h.request]
    refine ⟨h.campaigning.config, rfl, fun hr => (by cases hrole.symm.trans hr), ?_⟩
    rw [BeatsIdly, hsame, h.heartbeats_iff]
    exact ⟨fun hb => ⟨hb.2.1, hc, hb.2.2⟩, fun hn => ⟨hrole, hn.1, hn.2.2⟩⟩

end Counted

variable [LogStore σ] [BallotStore σ] [Reopen σ] [LawfulStore σ] [Machine μ]

lemma polled_heard {r : VoteRequest} (h : n.Campaigning c r [])
    (hgen : (Operation.campaign answers).IsGenuine c) :
    Polled n (n.heard answers) (n.countAll answers) := by
  induction answers using List.reverseRecOn with
  | nil => exact .opens
  | append_singleton answers a ih =>
    obtain ⟨hnodup, hmem⟩ := hgen
    rw [List.map_append, List.map_singleton, List.nodup_append] at hnodup
    have hp := ih ⟨hnodup.1, fun b hb => hmem b (List.mem_append_left _ hb)⟩
    rw [heard_snoc, countAll_snoc]
    refine .hears _ ⟨a.1, a.2, _⟩ hp ?_ (fun b hb => ?_) rfl
    · rw [(hp.campaigning h).config]
      exact hmem a (by simp)
    · have hb' := List.mem_map_of_mem (f := VoteAnswer.peer) hb
      rw [map_heard] at hb'
      exact hnodup.2.2 _ hb' _ (List.mem_singleton_self _)

/-! ### One operation after the other -/

omit [BallotStore σ] [Reopen σ] [LawfulStore σ] in
lemma submit_yields (payload : Bytes) (n : Node σ (Journal μ)) : n.Yields (n.submit payload).2 := by
  rcases n.submit_cases payload with ⟨e, store', hs, -⟩ | ⟨t, i, store', -, -, hs⟩
  · rw [hs]
    exact .of_standing rfl rfl rfl fun _ => le_rfl
  · rw [hs]
    refine .of_standing (tryCommit_config _) (tryCommit_attached _) (tryCommit_standing _)
      fun p => ?_
    rw [tryCommit_progress]
    exact matched_le_advance n.id p _ n.progress

namespace Settled

omit [Reopen σ] [LawfulStore σ] in
lemma submit (h : n.Settled c) (payload : Bytes) : (n.submit payload).2.Settled c := by
  refine h.step (.submit payload) (fun cs => ?_) (submit_yields payload n) (submit_tally payload n)
  show (Session.submit payload ⟨n, cs⟩).node = _
  unfold Session.submit
  split <;> rename_i heq <;> rw [heq]

lemma giveUp (h : n.Settled c) (w : Written) : (n.giveUp w).Settled c :=
  h.step (.giveUp w) (fun _ => rfl) (.of_rests rfl (giveUp_rests w n)) rfl

lemma receive (h : n.Settled c) (msg : Message) : (n.receive msg).2.Settled c := by
  have hy := receive_yields msg n
  have ht := receive_tally msg n
  cases msg with
  | voteRequest r => exact h.step (.vote r) (fun _ => rfl) hy ht
  | appendRequest r => exact h.step (.append r) (fun _ => rfl) hy ht
  | voteReply | appendReply => exact h

lemma finishRound (h : n.Settled c) (r : Round) (reply : Except NetworkError AppendReply) :
    (n.finishRound r reply).Settled c :=
  h.step (.finish r reply) (fun _ => rfl) (finishRound_yields r reply n)
    (finishRound_tally r reply n)

lemma stepDown (h : n.Settled c) (t : Term) : (n.stepDown t).Settled c :=
  h.step (.stepDown t) (fun _ => rfl) (.of_rests rfl (stepDown_rests t n)) rfl

end Settled

/-! ### A campaign from its beginning to its end -/

omit [LogStore σ] [Reopen σ] [LawfulStore σ] [Machine μ] in
lemma sane_countAll {s : Session σ μ} (h : s.Sane)
    (answers : List (NodeId × Except NetworkError VoteReply)) :
    Session.Sane { s with node := s.node.countAll answers } := by
  induction answers generalizing s with
  | nil => exact h
  | cons a answers ih => exact ih (h.stays (countVote_stays h.attached a.2))

omit [Machine μ] in
lemma campaign_cases (answers : List (NodeId × Except NetworkError VoteReply))
    (n : Node σ (Journal μ)) :
    n.startElection.1 = none ∧ n.startElection.2.tally = n.tally ∧
        n.Yields n.startElection.2 ∧ n.campaign answers = n.startElection.2 ∨
      ∃ store', n.startElection = (some n.candidacy, n.stood store') ∧
        n.campaign answers = ((n.stood store').countAll answers).closeElection.2 := by
  unfold campaign
  rcases startElection_cases n with ⟨hnone, hr, ht⟩ | ⟨-, store', -, hs⟩
  · refine Or.inl ⟨hnone, ht, .of_rests (startElection_stays n).attached hr, ?_⟩
    split <;> rename_i heq <;> rw [heq] at hnone ⊢
    cases hnone
  · rw [hs]
    exact Or.inr ⟨store', rfl, rfl⟩

namespace Settled

lemma counted (h : n.Settled c) (hgen : (Operation.campaign answers).IsGenuine c) (store' : σ) :
    ∃ k, Counted c ((n.stood store').heard answers) k n ((n.stood store').countAll answers) := by
  have hopen : (n.stood store').Campaigning c n.candidacy [] :=
    h.config ▸ stood_campaigning store' n
  have hm := (polled_heard hopen hgen).campaigning hopen
  obtain ⟨k, hk, hreq, href⟩ := hm.tally
  obtain ⟨k', hk', hkeep, hend⟩ := countAll_tally (n := n.stood store') rfl rfl answers
  obtain rfl := Option.some.inj (hk.symm.trans hk')
  refine ⟨k, hm, hk, hreq, href, fun hnot => ?_, hend⟩
  obtain ⟨hh, hs⟩ := hkeep hnot
  exact ⟨hh, congrArg Standing.role hs, congrArg Standing.term hs⟩

/-- Only a campaign that lapses leaves a follower with its heartbeats running. -/
lemma campaign (h : n.Settled c) (hgen : (Operation.campaign answers).IsGenuine c) :
    (n.campaign answers).Settled c ∧
      ((n.campaign answers).BeatsIdly → n.BeatsIdly ∨ (Operation.campaign answers).Lapses n) ∧
      ((Operation.campaign answers).Lapses n → (n.campaign answers).BeatsIdly) := by
  have hlapses : (Operation.campaign answers).Lapses n ↔ n.heartbeats = true ∧
      n.startElection.1 ≠ none ∧ ¬ Carried c n.term.next (n.startElection.2.heard answers) ∧
      ¬ Refuted c n.term.next (n.startElection.2.heard answers) := by
    rw [← h.config]
    exact Iff.rfl
  rw [hlapses]
  rcases n.campaign_cases answers with ⟨hnone, ht, hy, heq⟩ | ⟨store', hstart, heq⟩
  · rw [heq]
    refine ⟨h.step .stand (fun _ => rfl) hy ht, fun hb => ?_, fun hl => absurd hnone hl.2.1⟩
    exact Or.inl ((startElection_abides n).beatsIdly hb)
  · obtain ⟨k, hk⟩ := h.counted hgen store'
    obtain ⟨hc, ht, hr, hiff⟩ := hk.closes
    obtain ⟨s, rfl, hs⟩ := h.perform .stand
    have hstood : Session.Sane { s with node := s.node.stood store' } := by
      have hnode : s.node.startElection.2 = s.node.stood store' := congrArg Prod.snd hstart
      rw [← hnode]
      exact hs
    have hsane := (sane_countAll hstood answers).stays (closeElection_stays _)
    rw [heq, hstart, hiff]
    have hsome : some s.node.candidacy ≠ none := Option.some_ne_none _
    exact ⟨⟨hc, ht, hr, _, hsane, rfl⟩, fun hb => Or.inr ⟨hb.1, hsome, hb.2⟩,
      fun hl => ⟨hl.1, hl.2.2⟩⟩

/-- What one operation does. -/
lemma operate (h : n.Settled c) {op : Operation} (hop : op.IsGenuine c) :
    (n.operate op).Settled c ∧ ((n.operate op).BeatsIdly → n.BeatsIdly ∨ op.Lapses n) ∧
      (op.Lapses n → (n.operate op).BeatsIdly) := by
  cases op with
  | submit payload =>
    exact ⟨h.submit payload, fun hb => Or.inl ((submit_abides payload n).beatsIdly hb), False.elim⟩
  | giveUp w => exact ⟨h.giveUp w, Or.inl, False.elim⟩
  | receive msg =>
    exact ⟨h.receive msg, fun hb => Or.inl ((receive_abides h.role msg).beatsIdly hb), False.elim⟩
  | campaign answers => exact h.campaign hop
  | replicate peer reply =>
    show (n.replicate peer reply).Settled c ∧ ((n.replicate peer reply).BeatsIdly → _) ∧ _
    unfold replicate
    split
    · exact ⟨h, Or.inl, False.elim⟩
    · rename_i r _
      exact ⟨h.finishRound r reply,
        fun hb => Or.inl ((finishRound_abides r reply n).beatsIdly hb), False.elim⟩
  | stepDown t =>
    have habides : n.Abides (n.stepDown t) := Or.inl rfl
    exact ⟨h.stepDown t, fun hb => Or.inl (habides.beatsIdly hb), False.elim⟩

end Settled

omit [Reopen σ] [LawfulStore σ] in
lemma operateAll_snoc (ops : List Operation) (op : Operation) (n : Node σ (Journal μ)) :
    n.operateAll (ops ++ [op]) = (n.operateAll ops).operate op :=
  List.foldl_concat _ _ _ _

lemma Settled.operateAll {ops : List Operation} (h : n.Settled c)
    (hops : ∀ op ∈ ops, op.IsGenuine c) : (n.operateAll ops).Settled c := by
  induction ops using List.reverseRecOn with
  | nil => exact h
  | append_singleton ops op ih =>
    rw [operateAll_snoc]
    have hinit := ih fun o ho => hops o (List.mem_append_left _ ho)
    exact (hinit.operate (hops op (by simp))).1

/-- **Followers are idle.** Nobody waits for a member that follows. Its heartbeats run only since a
campaign of its own that lapsed, and every campaign that lapses leaves it so. -/
theorem followers_idle {config : Config} {machine : μ} {store store' : σ} {ops : List Operation}
    (h₀ : restore config ⟨machine, []⟩ store = (.ok n₀, store'))
    (hops : ∀ op ∈ ops, op.IsGenuine config) :
    let n := n₀.operateAll ops
    (n.role = .follower → n.log.waits.size = 0) ∧
      (n.BeatsIdly → ∃ before op after, ops = before ++ op :: after ∧
        op.Lapses (n₀.operateAll before) ∧
        ∀ mid, mid <+: after → (n₀.operateAll (before ++ op :: mid)).BeatsIdly) ∧
      ∀ op, op.IsGenuine config → op.Lapses n → (n.operate op).BeatsIdly := by
  intro n
  obtain ⟨hs₀, -, hsilent⟩ := restored_settled h₀
  have hs : n.Settled config := hs₀.operateAll hops
  refine ⟨hs.idle, ?_, fun op hop => (hs.operate hop).2.2⟩
  clear hs
  induction ops using List.reverseRecOn with
  | nil =>
    intro hb
    cases hsilent.symm.trans hb.2
  | append_singleton ops op ih =>
    intro hb
    have hinit : ∀ o ∈ ops, o.IsGenuine config := fun o ho => hops o (List.mem_append_left _ ho)
    have hlast : n = (n₀.operateAll ops).operate op := operateAll_snoc ops op n₀
    rcases ((hs₀.operateAll hinit).operate (hops op (by simp))).2.1 (hlast ▸ hb) with hb' | hl
    -- its heartbeats have been running before
    · obtain ⟨before, o, after, rfl, hl, hall⟩ := ih hinit hb'
      refine ⟨before, o, after ++ [op], by simp, hl, fun mid hmid => ?_⟩
      rcases List.prefix_concat_iff.mp hmid with rfl | hmid
      · rw [← List.cons_append, ← List.append_assoc]
        exact hb
      · exact hall mid hmid
    · refine ⟨ops, op, [], rfl, hl, fun mid hmid => ?_⟩
      rw [List.prefix_nil.mp hmid]
      exact hb

/-- One of three that was just started in memory. -/
def beginner : Node Memory (Journal Kv) :=
  { config := ⟨1, [1, 2, 3], {}⟩, store := {}, standing := {}, log := { machine := ⟨⟨[]⟩, []⟩ } }

/-- It is elected by member 2. -/
def elected : List Operation := [.campaign [(2, .ok ⟨1, true⟩)]]

/-- It stands for election once more, and nobody answers. -/
theorem followers_idle_unanswered :
    restore ⟨1, [1, 2, 3], {}⟩ ⟨⟨[]⟩, []⟩ ({} : Memory) = (.ok beginner, {}) ∧
    (∀ op ∈ elected, op.IsGenuine ⟨1, [1, 2, 3], {}⟩) ∧
    (beginner.operateAll elected).role = .leader ∧
    (Operation.campaign []).Lapses (beginner.operateAll elected) ∧
    ((beginner.operateAll elected).operate (.campaign [])).BeatsIdly := by
  have hstart : restore ⟨1, [1, 2, 3], {}⟩ ⟨⟨[]⟩, []⟩ ({} : Memory) = (.ok beginner, {}) := rfl
  have hgenuine : ∀ op ∈ elected, op.IsGenuine ⟨1, [1, 2, 3], {}⟩ := by
    intro op hop
    rw [List.mem_singleton.mp hop]
    exact ⟨List.nodup_singleton 2, by decide⟩
  have hlapses : (Operation.campaign []).Lapses (beginner.operateAll elected) := by
    refine ⟨rfl, Option.some_ne_none _, ?_, ?_⟩
    · rintro ⟨bs, hbs, hmaj, -⟩
      rw [heard, List.prefix_nil] at hbs
      subst hbs
      exact absurd hmaj (by decide)
    · rintro ⟨bs, a, hbs, -⟩
      rw [heard, List.prefix_nil] at hbs
      cases List.append_ne_nil_of_right_ne_nil bs (List.cons_ne_nil a []) hbs
  obtain ⟨-, -, hidle⟩ := followers_idle hstart hgenuine
  exact ⟨hstart, hgenuine, rfl, hlapses, hidle (.campaign []) ⟨List.nodup_nil, by simp⟩ hlapses⟩

end Node

end Quorum
