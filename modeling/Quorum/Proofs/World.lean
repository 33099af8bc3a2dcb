import Quorum.Cluster
import Quorum.Proofs.Members
import Quorum.Proofs.Quorums

/-!
A cluster on a network that promises nothing, and everything that can happen to it.

A request is a `Call` from the moment it is sent. It stays for good, so it can reach its peer at
any time, again and again, or never; each time the peer answers, and the caller takes up at most
one of the answers, or hears of an error. What a member does between two requests is one step, and
a `History` is any sequence of steps from a cluster whose members were never started.
-/

namespace Quorum

open LawfulStore

/-! ### Calls -/

/-- A request that was sent, with every answer that its peer gave. -/
structure Call (ρ α : Type) where
  caller : NodeId
  peer : NodeId
  request : ρ
  replies : List α := []
  /-- The caller still waits for an answer. -/
  waiting : Bool := true

namespace Call

variable {ρ α : Type}

/-- The peer answers, if it runs. -/
def reply (a : Option α) (c : Call ρ α) : Call ρ α := { c with replies := c.replies ++ a.toList }

def hangUp (c : Call ρ α) : Call ρ α := { c with waiting := false }

/-- The caller no longer waits. -/
def drop (id : NodeId) (c : Call ρ α) : Call ρ α := if c.caller = id then c.hangUp else c

/-- What the caller gets: one of the answers, or an error. -/
def answer (pick : Except NetworkError ℕ) (c : Call ρ α) : Except NetworkError α :=
  match pick with
  | .error e => .error e
  | .ok j =>
    match c.replies[j]? with
    | some a => .ok a
    | none => .error (.timeout c.peer)

lemma mem_of_answer {c : Call ρ α} {pick : Except NetworkError ℕ} {a : α}
    (h : c.answer pick = .ok a) : a ∈ c.replies := by
  unfold answer at h
  split at h
  · cases h
  · split at h
    · rename_i hget
      rw [← Except.ok.inj h]
      exact List.mem_of_getElem? hget
    · cases h

/-- What becomes of a call: it may be answered, and its caller may stop waiting. -/
structure After (c c' : Call ρ α) : Prop where
  caller : c'.caller = c.caller
  peer : c'.peer = c.peer
  request : c'.request = c.request
  waiting : c'.waiting = true → c.waiting = true

variable {c : Call ρ α}

lemma After.refl (c : Call ρ α) : c.After c := ⟨rfl, rfl, rfl, id⟩

lemma reply_after (a : Option α) (c : Call ρ α) : c.After (c.reply a) := ⟨rfl, rfl, rfl, id⟩

lemma hangUp_after (c : Call ρ α) : c.After c.hangUp := ⟨rfl, rfl, rfl, fun h => by cases h⟩

lemma drop_after (id : NodeId) (c : Call ρ α) : c.After (c.drop id) := by
  unfold drop
  split
  · exact hangUp_after c
  · exact .refl c

@[simp] lemma drop_replies (id : NodeId) (c : Call ρ α) : (c.drop id).replies = c.replies := by
  unfold drop
  split <;> rfl

lemma ne_of_drop_waiting {id : NodeId} (h : (c.drop id).waiting = true) : c.caller ≠ id := by
  unfold drop at h
  split at h
  · cases h
  · assumption

end Call

/-! ### Steps -/

structure World (σ μ : Type) where
  cluster : Cluster σ (Journal μ)
  polls : List (Call VoteRequest VoteReply) := []
  rounds : List (Call AppendRequest AppendReply) := []

/-- One step. Calls are told by their numbers. -/
inductive Action (μ : Type) where
  /-- A member is started from its storage, with a machine of its own. -/
  | boot (id : NodeId) (machine : μ)
  | crash (id : NodeId)
  | stand (id : NodeId)
  /-- A request for a vote reaches the peer. -/
  | poll (i : ℕ)
  /-- The candidate takes up an answer. -/
  | count (i : ℕ) (pick : Except NetworkError ℕ)
  /-- The election ends. -/
  | close (id : NodeId)
  | send (id peer : NodeId)
  /-- A leader's request reaches the peer. -/
  | deliver (i : ℕ)
  /-- The leader takes up an answer. -/
  | finish (i : ℕ) (pick : Except NetworkError ℕ)
  | submit (id : NodeId) (payload : Bytes)
  | giveUp (id : NodeId) (w : Written)
  | stepDown (id : NodeId) (t : Term)
  /-- A message that no member needs to have sent. -/
  | hand (id : NodeId) (m : Message)

/-- No leader's request is made up. -/
def Action.IsGenuine {μ : Type} : Action μ → Prop
  | hand _ (.appendRequest _) => False
  | _ => True

namespace World

variable {σ μ : Type} [LogStore σ] [BallotStore σ] [Reopen σ] [Machine μ]

/-- The member no longer waits for anything. -/
def hangUp (id : NodeId) (w : World σ μ) : World σ μ :=
  { w with polls := w.polls.map (Call.drop id), rounds := w.rounds.map (Call.drop id) }

def change (id : NodeId) (f : Node σ (Journal μ) → Node σ (Journal μ)) (w : World σ μ) :
    World σ μ :=
  { w with cluster := w.cluster.modify id f }

/-- The requests of a member that stands for election. -/
def asked (id : NodeId) (w : World σ μ) : List (Call VoteRequest VoteReply) :=
  match w.cluster.node? id with
  | none => []
  | some n =>
    match n.startElection.1 with
    | none => []
    | some r => n.config.peers.map fun peer => { caller := id, peer, request := r }

/-- The request of a member that begins a round. -/
def sent (id peer : NodeId) (w : World σ μ) : List (Call AppendRequest AppendReply) :=
  match w.cluster.node? id with
  | none => []
  | some n =>
    match n.startRound peer with
    | none => []
    | some r => [{ caller := id, peer := r.peer, request := r.request }]

def perform : Action μ → World σ μ → World σ μ
  | .boot id machine, w => { w.hangUp id with cluster := (w.cluster.boot ⟨machine, []⟩ id).2 }
  | .crash id, w => { w.hangUp id with cluster := w.cluster.crash id }
  | .stand id, w =>
    { w.change id (fun n => n.startElection.2) with polls := w.polls ++ w.asked id }
  | .poll i, w =>
    match w.polls[i]? with
    | none => w
    | some c =>
      let reply := (w.cluster.node? c.peer).map fun n => (n.receiveVote c.request).1
      { w.change c.peer (fun n => (n.receiveVote c.request).2) with
        polls := w.polls.modify i (Call.reply reply) }
  | .count i pick, w =>
    match w.polls[i]? with
    | none => w
    | some c =>
      if c.waiting then
        { w.change c.caller (Node.countVote (c.answer pick)) with
          polls := w.polls.modify i Call.hangUp }
      else w
  | .close id, w =>
    { w.change id (fun n => n.closeElection.2) with polls := w.polls.map (Call.drop id) }
  | .send id peer, w => { w with rounds := w.rounds ++ w.sent id peer }
  | .deliver i, w =>
    match w.rounds[i]? with
    | none => w
    | some c =>
      let reply := (w.cluster.node? c.peer).map fun n => (n.receiveAppend c.request).1
      { w.change c.peer (fun n => (n.receiveAppend c.request).2) with
        rounds := w.rounds.modify i (Call.reply reply) }
  | .finish i pick, w =>
    match w.rounds[i]? with
    | none => w
    | some c =>
      if c.waiting then
        { w.change c.caller (Node.finishRound ⟨c.peer, c.request⟩ (c.answer pick)) with
          rounds := w.rounds.modify i Call.hangUp }
      else w
  | .submit id payload, w => w.change id fun n => (n.submit payload).2
  | .giveUp id wr, w => w.change id (Node.giveUp wr)
  | .stepDown id t, w => w.change id (Node.stepDown t)
  | .hand id m, w => w.change id fun n => (n.receive m).2

end World

/-! ### One member at a time -/

namespace Cluster

variable {σ μ : Type} {c : Cluster σ μ}

lemma node?_eq_some {a : NodeId} {n : Node σ μ} :
    c.node? a = some n ↔ Table.find? a c.hosts = some (.up n) := by
  unfold node?
  rcases Table.find? a c.hosts with _ | _ | _ <;> simp [Host.node?]

lemma find?_modify (a b : NodeId) (f : Node σ μ → Node σ μ) (c : Cluster σ μ) :
    Table.find? b (c.modify a f).hosts = Table.find? b c.hosts ∨
      a = b ∧ ∃ n, Table.find? b c.hosts = some (.up n) ∧
        Table.find? b (c.modify a f).hosts = some (.up (f n)) := by
  unfold modify
  split
  · rename_i n hn
    show Table.find? b (Table.insert a _ c.hosts) = _ ∨ _
    by_cases hab : a = b
    · subst hab
      refine Or.inr ⟨rfl, n, node?_eq_some.mp hn, ?_⟩
      show Table.find? a (Table.insert a _ c.hosts) = _
      rw [Table.find?_insert, if_pos rfl]
    · rw [Table.find?_insert, if_neg hab]
      exact Or.inl rfl
  · exact Or.inl rfl

lemma node?_modify (a b : NodeId) (f : Node σ μ → Node σ μ) (c : Cluster σ μ) :
    (c.modify a f).node? b = if a = b then (c.node? b).map f else c.node? b := by
  unfold modify
  by_cases hab : a = b
  · subst hab
    rw [if_pos rfl]
    rcases hn : c.node? a with _ | n
    · exact hn
    · exact node?_eq_some.mpr ((Table.find?_insert _ _ _ _).trans (if_pos rfl))
  · rw [if_neg hab]
    rcases c.node? a with _ | n
    · rfl
    · unfold node?
      exact congrArg (· >>= Host.node?) ((Table.find?_insert _ _ _ _).trans (if_neg hab))

lemma find?_boot [LogStore σ] [BallotStore σ] [Reopen σ] (m : μ) (a b : NodeId)
    (c : Cluster σ μ) :
    Table.find? b (c.boot m a).2.hosts =
      if a = b then (Table.find? b c.hosts).map fun h => (h.boot m).2
      else Table.find? b c.hosts := by
  unfold boot
  split
  · rename_i hnone
    split
    · rename_i hab
      rw [← hab, hnone]
      rfl
    · rfl
  · rename_i h hh
    have hins : ∀ h' : Host σ μ, Table.find? b (Table.insert a h' c.hosts) =
        if a = b then some h' else Table.find? b c.hosts := fun h' =>
      Table.find?_insert a b h' c.hosts
    have hmap : (if a = b then (Table.find? b c.hosts).map fun h => (h.boot m).2
        else Table.find? b c.hosts) = if a = b then some (h.boot m).2
        else Table.find? b c.hosts := by
      split
      · rename_i hab
        rw [← hab, hh]
        rfl
      · rfl
    rw [hmap]
    rcases h.boot m with ⟨_ | _, h'⟩ <;> exact hins h'

lemma find?_crash (a b : NodeId) (c : Cluster σ μ) :
    Table.find? b (c.crash a).hosts =
      if a = b then (Table.find? b c.hosts).map Host.crash else Table.find? b c.hosts := by
  unfold crash
  by_cases hab : a = b
  · subst hab
    rw [if_pos rfl]
    split
    · rename_i h hh
      rw [hh]
      exact (Table.find?_insert _ _ _ _).trans (if_pos rfl)
    · rename_i hnone
      rw [hnone]
      rfl
  · rw [if_neg hab]
    split
    · exact (Table.find?_insert _ _ _ _).trans (if_neg hab)
    · rfl

end Cluster

namespace World

variable {σ μ : Type} [LogStore σ] [BallotStore σ] [Reopen σ] [Machine μ]

/-- What a step does to the one member that it is about. -/
inductive Deed (w : World σ μ) :
    Action μ → NodeId → Host σ (Journal μ) → Host σ (Journal μ) → Prop
  | boot (a : NodeId) (m : μ) (h) : Deed w (.boot a m) a h (h.boot ⟨m, []⟩).2
  | crash (a : NodeId) (h) : Deed w (.crash a) a h h.crash
  | stand (a : NodeId) (n) : Deed w (.stand a) a (.up n) (.up n.startElection.2)
  | poll (i : ℕ) (c n) : w.polls[i]? = some c →
      Deed w (.poll i) c.peer (.up n) (.up (n.receiveVote c.request).2)
  | count (i : ℕ) (pick) (c n) : w.polls[i]? = some c → c.waiting = true →
      Deed w (.count i pick) c.caller (.up n) (.up (n.countVote (c.answer pick)))
  | close (a : NodeId) (n) : Deed w (.close a) a (.up n) (.up n.closeElection.2)
  | deliver (i : ℕ) (c n) : w.rounds[i]? = some c →
      Deed w (.deliver i) c.peer (.up n) (.up (n.receiveAppend c.request).2)
  | finish (i : ℕ) (pick) (c n) : w.rounds[i]? = some c → c.waiting = true →
      Deed w (.finish i pick) c.caller (.up n)
        (.up (n.finishRound ⟨c.peer, c.request⟩ (c.answer pick)))
  | submit (a : NodeId) (payload : Bytes) (n) :
      Deed w (.submit a payload) a (.up n) (.up (n.submit payload).2)
  | giveUp (a : NodeId) (wr : Written) (n) : Deed w (.giveUp a wr) a (.up n) (.up (n.giveUp wr))
  | stepDown (a : NodeId) (t : Term) (n) :
      Deed w (.stepDown a t) a (.up n) (.up (n.stepDown t))
  | hand (a : NodeId) (m : Message) (n) : Deed w (.hand a m) a (.up n) (.up (n.receive m).2)

lemma perform_cases (act : Action μ) (w : World σ μ) (a : NodeId) :
    Table.find? a (w.perform act).cluster.hosts = Table.find? a w.cluster.hosts ∨
      ∃ h h', Table.find? a w.cluster.hosts = some h ∧
        Table.find? a (w.perform act).cluster.hosts = some h' ∧ Deed w act a h h' := by
  have hmod : ∀ (id : NodeId) (f : Node σ (Journal μ) → Node σ (Journal μ)),
      (w.perform act).cluster = w.cluster.modify id f →
      (∀ n, Deed w act id (.up n) (.up (f n))) →
      Table.find? a (w.perform act).cluster.hosts = Table.find? a w.cluster.hosts ∨
        ∃ h h', Table.find? a w.cluster.hosts = some h ∧
          Table.find? a (w.perform act).cluster.hosts = some h' ∧ Deed w act a h h' := by
    intro id f hf hd
    rw [hf]
    rcases w.cluster.find?_modify id a f with h | ⟨rfl, n, hn, hn'⟩
    · exact Or.inl h
    · exact Or.inr ⟨_, _, hn, hn', hd n⟩
  cases act with
  | boot id m =>
    have hb : Table.find? a (w.perform (.boot id m)).cluster.hosts = _ :=
      w.cluster.find?_boot (⟨m, []⟩ : Journal μ) id a
    rw [hb]
    split
    · rename_i hid
      subst hid
      rcases Table.find? id w.cluster.hosts with _ | h
      · exact Or.inl rfl
      · exact Or.inr ⟨h, _, rfl, rfl, .boot _ _ _⟩
    · exact Or.inl rfl
  | crash id =>
    have hc : Table.find? a (w.perform (.crash id)).cluster.hosts = _ :=
      w.cluster.find?_crash id a
    rw [hc]
    split
    · rename_i hid
      subst hid
      rcases Table.find? id w.cluster.hosts with _ | h
      · exact Or.inl rfl
      · exact Or.inr ⟨h, _, rfl, rfl, .crash _ _⟩
    · exact Or.inl rfl
  | stand id => exact hmod id _ rfl fun n => .stand _ _
  | poll i =>
    rcases hc : w.polls[i]? with _ | c
    · exact Or.inl (by simp only [perform, hc])
    · exact hmod c.peer _ (by simp only [perform, hc]; rfl) fun n => .poll _ _ _ hc
  | count i pick =>
    rcases hc : w.polls[i]? with _ | c
    · exact Or.inl (by simp only [perform, hc])
    · by_cases hw : c.waiting = true
      · exact hmod c.caller _ (by simp only [perform, hc, if_pos hw]; rfl)
          fun n => .count _ _ _ _ hc hw
      · exact Or.inl (by simp only [perform, hc, if_neg hw])
  | close id => exact hmod id _ rfl fun n => .close _ _
  | send id peer => exact Or.inl rfl
  | deliver i =>
    rcases hc : w.rounds[i]? with _ | c
    · exact Or.inl (by simp only [perform, hc])
    · exact hmod c.peer _ (by simp only [perform, hc]; rfl) fun n => .deliver _ _ _ hc
  | finish i pick =>
    rcases hc : w.rounds[i]? with _ | c
    · exact Or.inl (by simp only [perform, hc])
    · by_cases hw : c.waiting = true
      · exact hmod c.caller _ (by simp only [perform, hc, if_pos hw]; rfl)
          fun n => .finish _ _ _ _ hc hw
      · exact Or.inl (by simp only [perform, hc, if_neg hw])
  | submit id payload => exact hmod id _ rfl fun n => .submit _ _ _
  | giveUp id wr => exact hmod id _ rfl fun n => .giveUp _ _ _
  | stepDown id t => exact hmod id _ rfl fun n => .stepDown _ _ _
  | hand id m => exact hmod id _ rfl fun n => .hand _ _ _

end World

/-! ### Members as they should be -/

namespace Host

variable {σ μ : Type} [LogStore σ] [BallotStore σ] [Reopen σ] [LawfulStore σ]

/-- A host is for the member of that name, its log is stored in order, and while it runs it runs
with a valid configuration and holds what it has stored. -/
structure Fit (ids : List NodeId) (a : NodeId) (h : Host σ (Journal μ)) : Prop where
  self : h.config.self = a
  members : h.config.members = ids
  numbered : Numbered (contents h.store).records
  up : ∀ n, h = .up n → n.Fit ∧ ids.Nodup ∧ a ∈ ids

variable {ids : List NodeId} {a b : NodeId} {act : Action μ} {h h' : Host σ (Journal μ)}

/-- A member as it is when it starts with this storage. -/
def fresh (config : Config) (store : σ) (m : μ) : Node σ (Journal μ) where
  config
  store
  standing := { ballot := (contents store).ballot }
  log := { entries := (contents store).records, machine := ⟨m, []⟩ }

lemma boot_cases (m : μ) (hn : Numbered (contents h.store).records) :
    ∃ store', contents store' = contents h.store ∧
      ((∃ j, (h.boot ⟨m, []⟩).2 = .down h.config store' j) ∨
        h.config.check = .ok () ∧ (h.boot ⟨m, []⟩).2 = .up (fresh h.config store' m)) := by
  unfold boot
  rcases ho : Reopen.reopen h.store with ⟨_ | _, store'⟩
  · exact ⟨store', reopen_eq ho, Or.inl ⟨_, rfl⟩⟩
  · have hc := reopen_eq ho
    dsimp only
    split
    · exact ⟨store', hc, Or.inl ⟨_, rfl⟩⟩
    · rename_i hcheck
      rcases Node.restore_cases h.config (⟨m, []⟩ : Journal μ) store' (by rwa [hc]) with
        ⟨st, hs, hr⟩ | ⟨e, st, hr, hs⟩
      · rw [hr]
        refine ⟨st, hs.trans hc, Or.inr ⟨hcheck, ?_⟩⟩
        show Host.up _ = _
        rw [fresh, hs]
      · rw [hr]
        exact ⟨st, hs.trans hc, Or.inl ⟨_, rfl⟩⟩

/-- What a step makes of the host that it is about, as far as roles and ballots go: it is down, it
starts, or its member goes on, stands for election or takes office. -/
inductive Turn (act : Action μ) (a : NodeId) (h : Host σ (Journal μ)) : Host σ (Journal μ) → Prop
  | falls (store' : σ) (j) : contents store' = contents h.store →
      Turn act a h (.down h.config store' j)
  | starts (store' : σ) (m) : contents store' = contents h.store → h.config.check = .ok () →
      Turn act a h (.up (fresh h.config store' m))
  | goes (n n') : h = .up n → n.Goes n' → Turn act a h (.up n')
  | stands (n) (store' : σ) : act = .stand a → h = .up n →
      n.startElection = (some n.candidacy, n.stood store') →
      contents store' = { contents n.store with ballot := ⟨n.term.next, some n.id⟩ } →
      Turn act a h (.up (n.stood store'))
  | leads (n t) : h = .up n → n.tally = some t → n.config.majority ≤ t.votes →
      n.role = .candidate → n.term = t.request.term →
      Turn act a h (.up (n.takeOffice { n.standing with role := .leader }))

/-- Every step keeps hosts fit. -/
lemma Turn.fit (ht : h.Turn act b h') (hf : h.Fit ids a) : h'.Fit ids a := by
  have hup : ∀ n, h = .up n → n.Fit := fun n hn => (hf.up n hn).1
  have hof : ∀ n n' : Node σ (Journal μ), h = .up n → n'.config = n.config → n'.Fit →
      (Host.up n').Fit ids a := by
    rintro n n' rfl hc hn
    refine ⟨?_, ?_, ?_, ?_⟩
    · exact (congrArg Config.self hc).trans hf.self
    · exact (congrArg Config.members hc).trans hf.members
    · show Numbered (contents n'.store).records
      rw [hn.stored]
      exact hn.sound.numbered
    · rintro _ ⟨⟩
      exact ⟨hn, (hf.up n rfl).2⟩
  have hnum : ∀ store' : σ, contents store' = contents h.store →
      Numbered (contents store').records := by
    intro store' hc
    rw [hc]
    exact hf.numbered
  cases ht with
  | falls store' j hc =>
    exact ⟨hf.self, hf.members, hnum store' hc, fun n hn => by cases hn⟩
  | starts store' m hc hk =>
    refine ⟨hf.self, hf.members, hnum store' hc, ?_⟩
    rintro _ ⟨⟩
    obtain ⟨h1, h2⟩ := Config.of_check hk
    rw [hf.members] at h1 h2
    rw [hf.self] at h2
    exact ⟨⟨rfl, ⟨hnum store' hc, Nat.zero_le _, rfl, rfl⟩⟩, h1, h2⟩
  | goes n n' hn hg => exact hof n n' hn hg.config (hg.fit (hup n hn))
  | stands n store' _ hn _ hc =>
    have hfit := hup n hn
    rw [hfit.stored] at hc
    exact hof n _ hn rfl ⟨hc, hfit.sound⟩
  | leads n t hn =>
    have hfit := hup n hn
    exact hof n _ hn rfl ⟨hfit.stored, hfit.sound⟩

/-- No ballot goes back, unless a candidacy begins in the last term. -/
lemma Turn.before (ht : h.Turn act b h') (hf : h.Fit ids a)
    (hlast : ∀ n, act = .stand b → h = .up n → n.startElection.1 ≠ none → ¬ n.term.IsLast) :
    (contents h.store).ballot.Before (contents h'.store).ballot := by
  cases ht with
  | falls store' j hc =>
    show Ballot.Before (contents h.store).ballot (contents store').ballot
    rw [hc]
    exact .refl _
  | starts store' m hc =>
    show Ballot.Before (contents h.store).ballot (contents store').ballot
    rw [hc]
    exact .refl _
  | goes n n' hn hg =>
    subst hn
    have hfit := (hf.up n rfl).1
    show Ballot.Before (contents n.store).ballot (contents n'.store).ballot
    rw [hfit.stored, (hg.fit hfit).stored]
    exact hg.before
  | stands n store' hact hn hs hc =>
    subst hn
    have hnext := hlast n hact rfl (by rw [hs]; simp)
    show Ballot.Before (contents n.store).ballot (contents store').ballot
    rw [hc, (hf.up n rfl).1.stored]
    exact Or.inl (Term.lt_next_iff.mpr hnext)
  | leads n t hn =>
    subst hn
    exact .refl _

end Host

namespace World

variable {σ μ : Type} [LogStore σ] [BallotStore σ] [Reopen σ] [LawfulStore σ] [Machine μ]
variable {w : World σ μ} {act : Action μ} {ids : List NodeId} {a : NodeId}
variable {h h' : Host σ (Journal μ)}

lemma Deed.turn (hd : Deed w act a h h') (hf : h.Fit ids a) : h.Turn act a h' := by
  cases hd with
  | boot _ m =>
    obtain ⟨store', hc, ⟨j, hb⟩ | ⟨hk, hb⟩⟩ := Host.boot_cases m hf.numbered
    · rw [hb]
      exact .falls store' j hc
    · rw [hb]
      exact .starts store' m hc hk
  | crash => exact .falls _ _ rfl
  | stand _ n =>
    rcases n.startElection_cases with ⟨-, hr, -⟩ | ⟨-, store', hc, hs⟩
    · exact .goes n _ rfl hr.goes
    · rw [hs]
      exact .stands n store' rfl rfl hs hc
  | poll i c n => exact .goes n _ rfl (n.receiveVote_rests _).goes
  | count i pick c n => exact .goes n _ rfl (n.countVote_cases _).1.goes
  | close _ n =>
    obtain ⟨-, ⟨t, ht, hm, hr, hterm, hc⟩ | hr⟩ := n.closeElection_cases
    · rw [hc]
      exact .leads n t rfl ht hm hr hterm
    · exact .goes n _ rfl hr.goes
  | deliver i c n => exact .goes n _ rfl (n.receiveAppend_goes _).1
  | finish i pick c n => exact .goes n _ rfl (n.finishRound_goes _ _ (hf.up n rfl).1)
  | submit _ payload n => exact .goes n _ rfl (n.submit_goes payload (hf.up n rfl).1)
  | giveUp _ wr n => exact .goes n _ rfl (n.giveUp_rests wr).goes
  | stepDown _ t n => exact .goes n _ rfl (n.stepDown_rests t).goes
  | hand _ m n =>
    cases m with
    | voteRequest r => exact .goes n _ rfl (n.receiveVote_rests r).goes
    | appendRequest r => exact .goes n _ rfl (n.receiveAppend_goes r).1
    | voteReply | appendReply => exact .goes n _ rfl (Node.Rests.refl n).goes

end World

end Quorum
