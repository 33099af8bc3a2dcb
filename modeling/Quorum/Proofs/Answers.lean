import Quorum.Proofs.Adoption
import Quorum.Proofs.Clients
import Quorum.Proofs.Commitment

/-!
A late answer does no harm, whatever has become of the member that waited for it.

What a step may do to a member's standing and to its table is said once (`Node.Does.cases`): the
member stands for election, or it takes office as a candidate, or no role is raised and nothing that
is known of the others' logs is taken back (`Node.Yields`). So a leader that has ever left its term
is done with it (`Node.Done`) unless it goes back to an earlier one, as it does when it stands for
election in the last. Where it never goes back, whoever leads the term of a request when the answer
comes has led it all along (`Node.leads_throughout`).
-/

namespace Quorum

open LawfulStore Relation

/-- What becomes of the peer's row when a round is answered. -/
def Round.answered (r : Round) (success : Bool) (row : Progress) : Progress :=
  let reached := max row.matched r.request.lastIndex
  if success then ⟨reached + 1, reached⟩ else { row with next := max (row.next - 1) 1 }

namespace Node

variable {σ μ : Type} {n n' n₀ m : Node σ (Journal μ)} {t : Term}

/-! ### What any step may do -/

/-- No role is raised, and nothing that is known of others' logs is taken back. -/
structure Yields (n n' : Node σ (Journal μ)) : Prop where
  config : n'.config = n.config
  attached : n'.attached = n.attached
  term_le : n.term ≤ n'.term
  role : n'.role ≠ .follower → n'.role = n.role ∧ n'.term = n.term
  matched : ∀ p, (n.progress.row p).matched ≤ (n'.progress.row p).matched

/-- The standing is what it was. -/
lemma Yields.of_standing (hc : n'.config = n.config) (ha : n'.attached = n.attached)
    (hs : n'.standing = n.standing)
    (hm : ∀ p, (n.progress.row p).matched ≤ (n'.progress.row p).matched) : n.Yields n' := by
  have hterm : n'.term = n.term := congrArg Standing.term hs
  exact ⟨hc, ha, hterm.ge, fun _ => ⟨congrArg Standing.role hs, hterm⟩, hm⟩

lemma matched_le_advance (q p : NodeId) (i : Index) (t : ProgressTable) :
    (t.row p).matched ≤ ((t.advance q i).row p).matched := by
  rw [ProgressTable.matched_advance]
  split
  · rename_i h
    rw [h]
    exact le_max_left _ _
  · exact le_rfl

/-- The member is past a term, or follows in it. -/
def Done (n : Node σ (Journal μ)) (t : Term) : Prop := t < n.term ∨ n.term = t ∧ n.role = .follower

lemma Done.not_leads (h : n.Done t) : n.leaderTerm ≠ some t := by
  intro hl
  obtain ⟨hr, ht⟩ := leaderTerm_eq_some.mp hl
  rcases h with h | ⟨-, h⟩
  · exact Nat.ne_of_gt h ht
  · cases hr.symm.trans h

/-- Who is done with a term stays so, and a leader leads on or is done. -/
structure Onward (n n' : Node σ (Journal μ)) : Prop where
  done : ∀ t, n.Done t → n'.Done t
  leads : ∀ t, n.leaderTerm = some t → n'.leaderTerm = some t ∨ n'.Done t

namespace Onward

lemma refl (n : Node σ (Journal μ)) : n.Onward n := ⟨fun _ h => h, fun _ h => Or.inl h⟩

lemma trans (h : n.Onward n') (h' : n'.Onward m) : n.Onward m where
  done t hd := h'.done t (h.done t hd)
  leads t hl := (h.leads t hl).elim (h'.leads t) fun hd => Or.inr (h'.done t hd)

lemma of_later (h : n.term < n'.term) : n.Onward n' where
  done _ hd := Or.inl (Nat.lt_of_le_of_lt (hd.elim Nat.le_of_lt fun h => h.1.ge) h)
  leads _ hl := Or.inr (Or.inl (Nat.lt_of_le_of_lt (leaderTerm_eq_some.mp hl).2.ge h))

/-- A candidate leads no term and is not done with its own. -/
lemma of_candidate (hr : n.role = .candidate) (ht : n'.term = n.term) : n.Onward n' where
  done t hd := by
    rcases hd with hlt | ⟨-, hf⟩
    · exact Or.inl (ht ▸ hlt)
    · cases hr.symm.trans hf
  leads t hl := by cases (leaderTerm_eq_some.mp hl).1.symm.trans hr

end Onward

lemma Yields.onward (h : n.Yields n') : n.Onward n' where
  done t hd := by
    by_cases hr : n'.role = .follower
    · rcases hd with hlt | ⟨rfl, -⟩
      · exact Or.inl (Nat.lt_of_lt_of_le hlt h.term_le)
      · exact (Nat.eq_or_lt_of_le h.term_le).symm.imp_right fun heq => ⟨heq.symm, hr⟩
    · obtain ⟨h1, h2⟩ := h.role hr
      rw [Done, h1, h2]
      exact hd
  leads t hl := by
    obtain ⟨hlead, rfl⟩ := leaderTerm_eq_some.mp hl
    by_cases hr : n'.role = .follower
    · exact Or.inr ((Nat.eq_or_lt_of_le h.term_le).symm.imp_right fun heq => ⟨heq.symm, hr⟩)
    · obtain ⟨h1, h2⟩ := h.role hr
      exact Or.inl (leaderTerm_eq_some.mpr ⟨h1.trans hlead, h2⟩)

section Attached

variable [BallotStore σ]

lemma countVote_attached (reply : Except NetworkError VoteReply) (n : Node σ (Journal μ)) :
    (n.countVote reply).attached = n.attached := by
  unfold countVote
  split
  · rfl
  · split
    · rfl
    · dsimp only
      split
      · rfl
      · split_ifs <;> rfl

lemma receiveVote_attached (r : VoteRequest) (n : Node σ (Journal μ)) :
    (n.receiveVote r).2.attached = n.attached := by
  obtain ⟨m, ⟨rfl, -⟩ | rfl, h, -⟩ := receiveVote_cases r n
  · exact h
  · exact h

lemma yieldTo_attached (h : n.yieldTo t = some m) : m.attached = n.attached := by
  unfold yieldTo at h
  split_ifs at h
  · obtain rfl := Option.some.inj h
    rfl
  · split at h
    · cases h
    · obtain rfl := Option.some.inj h
      rfl
    · obtain rfl := Option.some.inj h
      rfl

lemma finishRound_attached [Machine μ] (r : Round) (reply : Except NetworkError AppendReply)
    (n : Node σ (Journal μ)) : (n.finishRound r reply).attached = n.attached := by
  unfold finishRound
  split
  · rfl
  · split_ifs
    · rfl
    · rfl
    · rw [tryCommit_attached]
    · rfl

end Attached

variable [LogStore σ] [BallotStore σ] [Reopen σ] [LawfulStore σ]

namespace Yields

lemma of_goes (ha : n'.attached = n.attached) (hg : n.Goes n')
    (hm : ∀ p, (n.progress.row p).matched ≤ (n'.progress.row p).matched) : n.Yields n' :=
  ⟨hg.config, ha, hg.before.term_le, hg.role, hm⟩

lemma of_rests (ha : n'.attached = n.attached) (hr : n.Rests n') : n.Yields n' :=
  of_goes ha hr.goes fun p => by rw [hr.progress]

end Yields

variable [Machine μ]

omit [BallotStore σ] [Reopen σ] [LawfulStore σ] [Machine μ] in
lemma write_yields (payload : Bytes) (n : Node σ (Journal μ)) :
    n.Yields (n.write payload).2 := by
  unfold write
  split
  · exact .of_standing rfl rfl rfl fun _ => le_rfl
  · dsimp only
    split <;> exact .of_standing rfl rfl rfl fun _ => le_rfl

omit [LogStore σ] [BallotStore σ] [Reopen σ] [LawfulStore σ] in
lemma settle_yields (w : Written) (n : Node σ (Journal μ)) : n.Yields (n.settle w) := by
  unfold settle
  split
  · refine .of_standing (tryCommit_config _) (tryCommit_attached _) (tryCommit_standing _)
      fun p => ?_
    rw [tryCommit_progress]
    exact matched_le_advance n.id p w.index n.progress
  · exact .of_standing rfl rfl rfl fun _ => le_rfl

lemma receiveAppend_yields (r : AppendRequest) (n : Node σ (Journal μ)) :
    n.Yields (n.receiveAppend r).2 := by
  have hg := (receiveAppend_goes r n).1
  rcases receiveAppend_cases r n with ⟨-, h⟩ | ⟨m, hy, h⟩ <;> rw [h] at hg ⊢
  · exact .of_rests rfl (.refl n)
  · have hprog : (m.followed r).progress = n.progress := (yieldTo_some hy).1.progress
    have ha := yieldTo_attached hy
    exact .of_goes ha hg fun p => by rw [hprog]

lemma receive_yields (m : Message) (n : Node σ (Journal μ)) : n.Yields (n.receive m).2 := by
  cases m with
  | voteRequest r => exact .of_rests (receiveVote_attached r n) (receiveVote_rests r n)
  | appendRequest r => exact receiveAppend_yields r n
  | voteReply | appendReply => exact .of_rests rfl (.refl n)

lemma finishRound_yields (r : Round) (reply : Except NetworkError AppendReply)
    (n : Node σ (Journal μ)) : n.Yields (n.finishRound r reply) := by
  have ha := finishRound_attached r reply n
  rcases finishRound_cases r reply n with ⟨h, -⟩ | ⟨a, -, -, ⟨-, h⟩ | h⟩
  · exact .of_rests ha h
  · rw [h] at ha ⊢
    refine .of_standing (tryCommit_config _) ha (tryCommit_standing _) fun p => ?_
    rw [tryCommit_progress]
    exact matched_le_advance r.peer p r.request.lastIndex n.progress
  · rw [h]
    exact .of_standing rfl rfl rfl fun p => (ProgressTable.matched_backOff r.peer p _).ge

/-- Only who stands for election or takes office does otherwise. -/
lemma Does.cases (h : n.Does n') :
    n.Yields n' ∨ (∃ store', n' = n.stood store') ∨
      n.closeElection = (true, n') ∧ n.role = .candidate ∧
        n' = n.takeOffice { n.standing with role := .leader } := by
  cases h with
  | weathers hc => exact Or.inl (.of_rests rfl (.of_store hc))
  | ticks => exact Or.inl (.of_standing rfl rfl rfl fun _ => le_rfl)
  | writes payload => exact Or.inl (write_yields payload n)
  | settles w => exact Or.inl (settle_yields w n)
  | stands =>
    rcases startElection_cases n with ⟨-, hr, -⟩ | ⟨-, store', -, hs⟩
    · exact Or.inl (.of_rests (startElection_stays n).attached hr)
    · exact Or.inr (Or.inl ⟨store', congrArg Prod.snd hs⟩)
  | counts reply =>
    exact Or.inl (.of_rests (countVote_attached reply n) (countVote_cases reply n).1)
  | closes =>
    rcases (closeElection_cases n).2 with ⟨u, hu, hv, hr, ht, hc⟩ | hr
    · rw [hc]
      exact Or.inr (Or.inr ⟨closeElection_won hu hv hr ht, hr, rfl⟩)
    · exact Or.inl (.of_rests (closeElection_stays n).attached hr)
  | receives m => exact Or.inl (receive_yields m n)
  | finishes r reply => exact Or.inl (finishRound_yields r reply n)
  | stepsDown t => exact Or.inl (.of_rests rfl (stepDown_rests t n))

lemma Does.attached (h : n.Does n') : n'.attached = n.attached := by
  rcases h.cases with hy | ⟨store', rfl⟩ | ⟨-, -, rfl⟩
  · exact hy.attached
  · rfl
  · rfl

lemma Does.matched_le (h : n.Does n') (hno : n.closeElection ≠ (true, n')) (p : NodeId) :
    (n.progress.row p).matched ≤ (n'.progress.row p).matched := by
  rcases h.cases with hy | ⟨store', rfl⟩ | ⟨hwon, -⟩
  · exact hy.matched p
  · exact le_rfl
  · exact absurd hwon hno

/-- A step that goes back to no earlier term leads onward. -/
lemma Does.onward (h : n.Does n') (hle : n.term ≤ n'.term) : n.Onward n' := by
  rcases h.cases with hy | ⟨store', rfl⟩ | ⟨-, hr, rfl⟩
  · exact hy.onward
  · exact .of_later (Nat.lt_of_le_of_ne hle (Term.next_ne n.term).symm)
  · exact .of_candidate hr rfl

/-! ### Who leads to the end has led all along -/

/-- Steps of a member, one after the other. -/
abbrev Course : Node σ (Journal μ) → Node σ (Journal μ) → Prop := ReflTransGen Does

/-- Steps that go back to no earlier term. -/
abbrev Ascent : Node σ (Journal μ) → Node σ (Journal μ) → Prop :=
  ReflTransGen fun n n' => n.Does n' ∧ n.term ≤ n'.term

/-- Any steps but those that take office. -/
abbrev Reign : Node σ (Journal μ) → Node σ (Journal μ) → Prop :=
  ReflTransGen fun n n' => n.Does n' ∧ n.closeElection ≠ (true, n')

lemma Course.attached (h : Course n n') : n'.attached = n.attached := by
  induction h with
  | refl => rfl
  | tail _ hlast ih => exact hlast.attached.trans ih

lemma Ascent.onward (h : Ascent n n') : n.Onward n' := by
  induction h with
  | refl => exact .refl n
  | tail _ hlast ih => exact ih.trans (hlast.1.onward hlast.2)

/-- Once left, a leadership is not regained by going on. -/
lemma leads_throughout (h₀ : n₀.leaderTerm = some t) (hm : Ascent n₀ m) (hn : Ascent m n)
    (hl : n.leaderTerm = some t) : m.leaderTerm = some t := by
  rcases hm.onward.leads t h₀ with h | hd
  · exact h
  · exact absurd hl (hn.onward.done t hd).not_leads

/-- What is known of a log is known until office is taken anew. -/
lemma Reign.matched_le (h : Reign n n') (p : NodeId) :
    (n.progress.row p).matched ≤ (n'.progress.row p).matched := by
  induction h with
  | refl => exact le_rfl
  | tail _ hlast ih => exact ih.trans (hlast.1.matched_le hlast.2 p)

/-! ### What an answer does -/

omit [LogStore σ] [Reopen σ] [LawfulStore σ] [Machine μ] in
lemma stepDown_standing (t : Term) (n : Node σ (Journal μ)) :
    (n.stepDown t).standing = (n.standing.follow t n.store).2.1 := rfl

omit [Machine μ] in
/-- Whoever steps down for a later term that storage takes follows in it. -/
lemma stepDown_follows (hlt : n.term < t) (h : ¬ n.Balks t) :
    (n.stepDown t).role = .follower ∧ (n.stepDown t).term = t := by
  have hs := (Standing.follow_standing (follow_of_not_balks h hlt)).trans (if_pos hlt)
  rw [← stepDown_standing] at hs
  exact ⟨congrArg Standing.role hs, congrArg Standing.term hs⟩

omit [LogStore σ] [Reopen σ] [LawfulStore σ] in
/-- What an answer does, by its term and by what is led when it comes. -/
lemma finishRound_settled (r : Round) (a : AppendReply) (n : Node σ (Journal μ)) :
    n.term < a.term ∧ n.finishRound r (.ok a) = n.stepDown a.term ∨
      a.term ≤ n.term ∧ n.leaderTerm ≠ some r.request.term ∧ n.finishRound r (.ok a) = n ∨
      a.term ≤ n.term ∧ n.leaderTerm = some r.request.term := by
  unfold finishRound
  dsimp only
  rcases Nat.lt_or_ge n.term a.term with hlt | hle
  · exact Or.inl ⟨hlt, if_pos hlt⟩
  · rw [if_neg (Nat.not_lt_of_le hle)]
    by_cases hl : n.leaderTerm = some r.request.term
    · exact Or.inr (Or.inr ⟨hle, hl⟩)
    · exact Or.inr (Or.inl ⟨hle, hl, if_pos hl⟩)

/-- An answer counts for a leader of its request's term alone, and then it is from no later one. -/
lemma finishRound_counts (r : Round) (reply : Except NetworkError AppendReply)
    (n : Node σ (Journal μ)) :
    ((n.finishRound r reply).progress = n.progress ∧
        (n.finishRound r reply).log.commit = n.log.commit) ∨
      ∃ a, reply = .ok a ∧ a.term ≤ n.term ∧ n.leaderTerm = some r.request.term := by
  cases reply with
  | error e => exact Or.inl ⟨rfl, rfl⟩
  | ok a =>
    rcases finishRound_settled r a n with ⟨-, h⟩ | ⟨-, -, h⟩ | ⟨hle, hl⟩
    · rw [h]
      exact Or.inl ⟨(stepDown_rests a.term n).progress, (stepDown_rests a.term n).commit⟩
    · rw [h]
      exact Or.inl ⟨rfl, rfl⟩
    · exact Or.inr ⟨a, rfl, hle, hl⟩

omit [LogStore σ] [Reopen σ] [LawfulStore σ] in
/-- An answer that counts is written into its member's row. -/
lemma finishRound_progress {r : Round} {a : AppendReply} (ht : a.term ≤ n.term)
    (hl : n.leaderTerm = some r.request.term) :
    (n.finishRound r (.ok a)).progress =
      Table.insert r.peer (r.answered a.success (n.progress.row r.peer)) n.progress := by
  rw [finishRound_eq ht hl]
  cases a.success with
  | true =>
    rw [if_pos rfl, tryCommit_progress]
    rfl
  | false => rfl

/-- **A late answer does no harm.** A member begins a round, steps of any kind follow, and then the
round is answered or fails. What is known of the others' logs and the commit index change only if
the member then leads the term of the request, and the answer is from no later term; and it has led
that term all the time since, unless it has gone back to an earlier one. Then it is the peer's row
that changes: it is matched up to the request's end if that is further than it was, or as far as it
was if the peer refused. A later term ends the leadership, with its heartbeats and its clients'
waits, and a failure is without effect. Until office is taken anew no row comes to be matched less
far. -/
theorem late_answer_harmless {peer : NodeId} {r : Round} (hr : n₀.startRound peer = some r)
    (hrun : Course n₀ n) (reply : Except NetworkError AppendReply) :
    let n' := n.finishRound r reply
    n₀.leaderTerm = some r.request.term ∧
      (n'.progress ≠ n.progress ∨ n'.log.commit ≠ n.log.commit →
        (∃ a, reply = .ok a ∧ a.term ≤ n.term) ∧ n.leaderTerm = some r.request.term ∧
          ∀ m, Ascent n₀ m → Ascent m n → m.leaderTerm = some r.request.term) ∧
      (∀ a, reply = .ok a → a.term ≤ n.term → n.leaderTerm = some r.request.term →
        n'.progress = Table.insert peer (r.answered a.success (n.progress.row peer)) n.progress ∧
          (a.success = false → n'.log = n.log)) ∧
      (∀ a, reply = .ok a → n.term < a.term →
        n'.heartbeats = false ∧ n'.log.waits.size = 0 ∧
          (¬ n.Balks a.term → n'.role = .follower ∧ n'.term = a.term)) ∧
      (∀ e, reply = .error e → n' = n) ∧
      ∀ m m' : Node σ (Journal μ), Reign m m' →
        ∀ p, (m.progress.row p).matched ≤ (m'.progress.row p).matched := by
  intro n'
  obtain ⟨-, hatt, hsent, hpeer⟩ := startRound_some hr
  have hpeer : r.peer = peer := by rw [hpeer]
  refine ⟨hsent, fun hch => ?_, fun a ha hle hl => ?_, fun a ha hlt => ?_, fun e he => ?_,
    fun m m' h => h.matched_le⟩
  · rcases finishRound_counts r reply n with ⟨hp, hc⟩ | ⟨a, ha, hle, hl⟩
    · exact absurd hch (not_or.mpr ⟨fun h => h hp, fun h => h hc⟩)
    · exact ⟨⟨a, ha, hle⟩, hl, fun m hm hm' => leads_throughout hsent hm hm' hl⟩
  · subst ha hpeer
    refine ⟨finishRound_progress hle hl, fun hno => ?_⟩
    show (n.finishRound r (.ok a)).log = n.log
    rw [finishRound_eq hle hl, hno]
    rfl
  · subst ha
    have hdown : n' = n.stepDown a.term := if_pos hlt
    have ha : n.attached = true := hrun.attached.trans hatt
    rw [hdown]
    refine ⟨rfl, ?_, fun hb => stepDown_follows hlt hb⟩
    rw [stepDown_log ha, Waits.size, Log.failWaits, Waits.failAll_filed]
    rfl
  · subst he
    rfl

/-- The leader of a first term, with an entry that nobody else has yet. -/
def opening : Node Memory (Journal Kv) where
  config := ⟨1, [1, 2, 3], {}⟩
  store := { records := [⟨1, 1, [0]⟩], ballot := ⟨1, some 1⟩ }
  standing := ⟨⟨1, some 1⟩, .leader⟩
  log := { entries := [⟨1, 1, [0]⟩], machine := ⟨⟨[]⟩, []⟩ }
  progress := [(1, ⟨2, 1⟩), (2, ⟨1, 0⟩), (3, ⟨1, 0⟩)]

/-- The entry goes to member 2. -/
def overture : Round := ⟨2, ⟨1, 1, 0, 0, [⟨1, 1, [0]⟩], 0⟩⟩

/-- The leader has added another entry meanwhile. -/
def extended : Node Memory (Journal Kv) := (opening.write [1]).2

/-- Or it was elected again, for the next term. -/
def regained : Node Memory (Journal Kv) :=
  (opening.startElection.2.countVote (.ok ⟨2, true⟩)).closeElection.2

/-- In its own term the answer tells how far the entry has come, and in a later term nothing. -/
theorem late_answer_harmless_regained : opening.startRound 2 = some overture ∧
    Course opening extended ∧ Course opening regained ∧ regained.leaderTerm = some 2 ∧
    (extended.finishRound overture (.ok ⟨1, true⟩)).progress =
      Table.insert 2 ⟨2, 1⟩ extended.progress ∧
    (regained.finishRound overture (.ok ⟨1, true⟩)).progress = regained.progress := by
  have hsent : opening.startRound 2 = some overture := rfl
  have hext : Course opening extended := .single (.writes _ _)
  have hreg : Course opening regained :=
    ((ReflTransGen.single (.stands _)).tail (.counts _ _)).tail (.closes _)
  obtain ⟨-, -, hcounts, -⟩ := late_answer_harmless hsent hext (.ok ⟨1, true⟩)
  obtain ⟨-, hstill, -⟩ := late_answer_harmless hsent hreg (.ok ⟨1, true⟩)
  refine ⟨hsent, hext, hreg, rfl, (hcounts _ rfl (by decide) rfl).1, ?_⟩
  by_contra hne
  cases (hstill (Or.inl hne)).2.1

end Node

end Quorum
