import Quorum.Proofs.Members
import Quorum.Proofs.Waits

/-!
What the clients of a member are told, whatever the member goes through.

A wait is filed under a position alone, so a client is told the truth as long as the entry at that
position is its own (`Log.Tracks`). Entries give way only in a member that follows. So all is well
where a member comes to follow with no wait in its file; it comes to follow with waits in its file
if it stands for election when a request of another leader of its term reaches it.
-/

namespace Quorum

/-- What was written for a client. -/
structure Errand where
  written : Written
  payload : Bytes

def Errand.entry (c : Errand) : Entry := ⟨c.written.term, c.written.index, c.payload⟩

/-- A member with the errands of all its clients, by ticket. -/
structure Session (σ μ : Type) where
  node : Node σ (Journal μ)
  errands : List Errand := []

/-- One step of a member. What it sends in between may be answered by anyone, in any way. -/
inductive Event where
  | submit (payload : Bytes)
  | giveUp (w : Written)
  | stand
  | count (reply : Except NetworkError VoteReply)
  | close
  | vote (r : VoteRequest)
  | append (r : AppendRequest)
  | finish (round : Round) (reply : Except NetworkError AppendReply)
  | stepDown (t : Term)

namespace Session

variable {σ μ : Type} [LogStore σ] [BallotStore σ] [Machine μ]

def submit (payload : Bytes) (s : Session σ μ) : Session σ μ :=
  match s.node.submit payload with
  | (.error _, n) => { s with node := n }
  | (.ok w, n) => ⟨n, s.errands ++ [⟨w, payload⟩]⟩

def perform (s : Session σ μ) : Event → Session σ μ
  | .submit payload => s.submit payload
  | .giveUp w => { s with node := s.node.giveUp w }
  | .stand => { s with node := s.node.startElection.2 }
  | .count reply => { s with node := s.node.countVote reply }
  | .close => { s with node := s.node.closeElection.2 }
  | .vote r => { s with node := (s.node.receiveVote r).2 }
  | .append r => { s with node := (s.node.receiveAppend r).2 }
  | .finish round reply => { s with node := s.node.finishRound round reply }
  | .stepDown t => { s with node := s.node.stepDown t }

/-- A client is told that its entry is committed, and the machine was given another one for that
position. -/
def Misleads (s : Session σ μ) : Prop :=
  ∃ c ∈ s.errands, ∃ i, (s.node.conclude c.written).1 = .ok i ∧
    s.node.log.machine.given[i - 1]? ≠ some c.entry

/-- The member stands for election, and clients of a leadership of its own still wait. -/
def Exposed (s : Session σ μ) : Prop :=
  s.node.role = .candidate ∧ s.node.log.waits.filed ≠ []

/-- A member that is exposed meets another leader of its term. -/
def Meets (s : Session σ μ) (ev : Event) : Prop :=
  s.Exposed ∧ ∃ r, ev = .append r ∧ r.term = s.node.term

/-- The sessions that a member comes to from its start on, as long as it meets no other leader while
it is exposed. -/
inductive Calm : Session σ μ → Prop
  | starts {config : Config} {machine : μ} {store store' : σ} {n : Node σ (Journal μ)} :
      Node.restore config ⟨machine, []⟩ store = (.ok n, store') → Calm ⟨n, []⟩
  | steps {s : Session σ μ} {ev : Event} : Calm s → ¬ s.Meets ev → Calm (s.perform ev)

end Session

/-! ### Errands and the log -/

namespace Log

variable {μ σ : Type} {cs : List Errand} {l : Log (Journal μ)}

/-- Every wait filed is for an errand whose entry is in the log and is not applied yet, and whoever
was told of a commit has its own entry applied. -/
structure Tracks (cs : List Errand) (l : Log (Journal μ)) : Prop where
  waits : l.waits.Sound
  length : cs.length = l.waits.all.length
  ticket : ∀ (t : ℕ) c, cs[t]? = some c → c.written.ticket = t
  filed : ∀ i t, Table.find? i l.waits.filed = some t → l.applied < i ∧
    ∃ c, cs[t]? = some c ∧ c.written.index = i ∧ l.entry? i = some c.entry
  told : ∀ (t : ℕ) c, cs[t]? = some c → l.waits.status? t = some .committed →
    0 < c.written.index ∧ c.written.index ≤ l.applied ∧ l.entry? c.written.index = some c.entry

namespace Tracks

/-- Nobody waits any more, and nobody was told anything new. -/
lemma of_filed_eq_nil (h : Tracks cs l) {ws : Waits} (hf : ws.filed = [])
    (hl : ws.all.length = l.waits.all.length)
    (ht : ∀ t, ws.status? t = some .committed → l.waits.status? t = some .committed) :
    Tracks cs { l with waits := ws } where
  waits := Waits.sound_of_filed_eq_nil hf
  length := h.length.trans hl.symm
  ticket := h.ticket
  filed i t hi := by
    change Table.find? i ws.filed = _ at hi
    rw [hf] at hi
    cases hi
  told t c hc hs := h.told t c hc (ht t hs)

lemma failWaits (h : Tracks cs l) : Tracks cs l.failWaits := by
  refine h.of_filed_eq_nil (Waits.failAll_filed _) (Waits.failAll_length _) fun t ht => ?_
  rcases Waits.of_status?_failAll ht with hs | hs
  · exact hs
  · cases hs

lemma expire (h : Tracks cs l) (u : Ticket) :
    Tracks cs { l with waits := l.waits.expire u } where
  waits := h.waits.expire u
  length := h.length.trans (Waits.expire_length u _).symm
  ticket := h.ticket
  filed i t hi := h.filed i t (Waits.find?_of_expire hi)
  told t c hc hs := by
    rcases Waits.of_status?_expire hs with hs | hs
    · exact h.told t c hc hs
    · cases hs

/-- An entry is added to the end of the log and waited for. -/
lemma register (h : Tracks cs l) (hs : l.Sound) (t : Term) (payload : Bytes) :
    Tracks (cs ++ [⟨⟨t, l.size, l.waits.all.length⟩, payload⟩])
      { l with
        entries := l.entries ++ [⟨t, l.size, payload⟩]
        waits := (l.waits.register l.size).2 } := by
  have hkeep : ∀ {i e}, l.entry? i = some e →
      (Entry.sentinel :: (l.entries ++ [⟨t, l.size, payload⟩]))[i]? = some e := by
    intro i e he
    show (l.slots ++ [_])[i]? = _
    rw [List.getElem?_append_left (List.getElem?_eq_some_iff.mp he).1]
    exact he
  refine ⟨Waits.sound_register h.waits _, ?_, fun u c hc => ?_, fun i u hi => ?_,
    fun u c hc hu => ?_⟩
  · show (cs ++ [_]).length = (l.waits.all ++ [_]).length
    rw [List.length_append, List.length_append, h.length]
    rfl
  · rcases of_getElem?_snoc hc with hc | ⟨rfl, rfl⟩
    · exact h.ticket u c hc
    · exact h.length.symm
  · change Table.find? i (Table.insert l.size _ _) = _ at hi
    rw [Table.find?_insert] at hi
    split at hi
    · rename_i hsize
      obtain rfl := Option.some.inj hi
      refine ⟨?_, ⟨⟨t, l.size, l.waits.all.length⟩, payload⟩, ?_, hsize, ?_⟩
      · show l.applied < i
        rw [← hsize, hs.applied]
        exact Nat.lt_succ_of_le hs.commit_le
      · rw [← h.length]
        exact List.getElem?_concat_length
      · show (Entry.sentinel :: (l.entries ++ [_]))[i]? = _
        rw [← hsize]
        exact List.getElem?_concat_length
    · obtain ⟨hlt, c, hc, hidx, he⟩ := h.filed i u hi
      exact ⟨hlt, c, by rw [List.getElem?_append_left (List.getElem?_eq_some_iff.mp hc).1, hc],
        hidx, hkeep he⟩
  · rcases of_getElem?_snoc hc with hc | ⟨rfl, rfl⟩
    · have hlt : u < l.waits.all.length := by
        rw [← h.length]
        exact (List.getElem?_eq_some_iff.mp hc).1
      have hu' : l.waits.status? u = some .committed := by
        rw [← hu, Waits.status?, Waits.status?]
        exact congrArg _ (List.getElem?_append_left hlt).symm
      obtain ⟨h1, h2, h3⟩ := h.told u c hc hu'
      exact ⟨h1, h2, hkeep h3⟩
    -- a wait begins open
    · have hnew : ((l.waits.register l.size).2.all)[cs.length]? = some { index := l.size } := by
        rw [h.length]
        exact List.getElem?_concat_length
      rw [Waits.status?, hnew] at hu
      cases hu

/-- Entries that nobody waits for may give way, if they are not committed. -/
lemma reshapes {l' : Log (Journal μ)} (h : Tracks cs l) (hs : l.Sound)
    (hf : l.waits.filed = []) (hr : Reshapes l l') : Tracks cs l' := by
  have hw : l'.waits = l.waits := by rw [hr.eq]
  have ha : l'.applied = l.applied := by rw [hr.eq]
  refine ⟨by rw [hw]; exact h.waits, by rw [hw]; exact h.length, h.ticket, fun i t hi => ?_,
    fun t c hc ht => ?_⟩
  · rw [hw, hf] at hi
    cases hi
  · rw [hw] at ht
    obtain ⟨h1, h2, h3⟩ := h.told t c hc ht
    refine ⟨h1, ha ▸ h2, ?_⟩
    rw [hs.applied] at h2
    rw [← h3]
    refine entry?_eq_of_take_eq ?_
    rw [← min_eq_left h2, ← List.take_take, ← List.take_take, hr.committed]

section Applying

variable [Machine μ]

/-- The entry that is applied next is the one that its position's wait is for. -/
lemma applyNext (h : Tracks cs l) (e : Entry) : Tracks cs (l.applyNext e) where
  waits := h.waits.settle .committed _
  length := h.length.trans (Waits.settle_length _ _ _).symm
  ticket := h.ticket
  filed i t hi := by
    change Table.find? i (l.waits.settle .committed _).filed = _ at hi
    rw [Waits.find?_settle] at hi
    split at hi
    · cases hi
    · rename_i hne
      obtain ⟨hlt, hc⟩ := h.filed i t hi
      exact ⟨Nat.lt_of_le_of_ne hlt hne, hc⟩
  told t c hc ht := by
    rcases Waits.of_status?_settle ht with ht | ⟨-, hi⟩
    · obtain ⟨h1, h2, h3⟩ := h.told t c hc ht
      exact ⟨h1, Nat.le_succ_of_le h2, h3⟩
    · obtain ⟨-, c', hc', hidx, he⟩ := h.filed _ t hi
      rw [hc] at hc'
      obtain rfl := Option.some.inj hc'
      rw [hidx]
      exact ⟨Nat.succ_pos _, Nat.le_refl _, he⟩

lemma commitTo (h : Tracks cs l) (i : Index) : Tracks cs (l.commitTo i) := by
  have key : ∀ (es : List Entry) (l : Log (Journal μ)), Tracks cs l →
      Tracks cs (es.foldl Log.applyNext l) := by
    intro es
    induction es with
    | nil => exact fun l hl => hl
    | cons e es ih => exact fun l hl => ih _ (hl.applyNext e)
  unfold Log.commitTo
  split
  · exact key _ _ ⟨h.waits, h.length, h.ticket, h.filed, h.told⟩
  · exact h

end Applying

end Tracks

/-- With no wait in the file, none is told of a commit. -/
lemma commitTo_waits [Machine μ] (h : l.waits.filed = []) (i : Index) :
    (l.commitTo i).waits = l.waits := by
  have key : ∀ (es : List Entry) (l : Log (Journal μ)), l.waits.filed = [] →
      (es.foldl applyNext l).waits = l.waits := by
    intro es
    induction es with
    | nil => exact fun l _ => rfl
    | cons e es ih =>
      intro l hl
      have hone : (l.applyNext e).waits = l.waits := by
        show l.waits.settle .committed _ = _
        unfold Waits.settle
        rw [hl]
        rfl
      rw [List.foldl_cons, ih _ (hone ▸ hl), hone]
  unfold commitTo
  split
  · exact key _ _ h
  · rfl

/-- A log that nobody waits for takes in whatever it is sent. -/
lemma Tracks.follow [LogStore σ] [Machine μ] (h : Tracks cs l) (hs : l.Sound)
    (hf : l.waits.filed = []) (current : Term) (b : Batch) (store : σ) :
    Tracks cs (l.follow current b store).2.1 ∧ (l.follow current b store).2.1.waits = l.waits := by
  have hall := acceptAll_reshapes b.entries store hs.numbered hs.commit_le
  have hw : (l.acceptAll b.entries store).2.1.waits = l.waits := by rw [hall.eq]
  have ht := h.reshapes hs hf hall
  unfold Log.follow
  split
  · exact ⟨h, rfl⟩
  · split <;> rename_i heq <;> rw [heq] at hw ht
    · exact ⟨ht, hw⟩
    · exact ⟨ht.commitTo _, (commitTo_waits (hw.symm ▸ hf) _).trans hw⟩

section Replacing

variable [LogStore σ] {p : ℕ} {old e : Entry} {i : Index} {store st store' : σ}

lemma accept_replaced (hold : l.entries[p]? = some old) (hc : l.commit ≤ p)
    (he : e.index = p + 1) (hne : old.term ≠ e.term)
    (ht : LogStore.truncate p store = (.ok (), st))
    (ha : LogStore.append e st = (.ok i, store')) :
    l.accept e store = (.ok (), { l with entries := l.entries.take p ++ [e] }, store') := by
  have hlt : p < l.entries.length := (List.getElem?_eq_some_iff.mp hold).1
  have hpos : ¬ p + 1 ≤ l.commit := Nat.not_le_of_lt (Nat.lt_succ_of_le hc)
  have hsize : ¬ e.index ≠ ({ l with entries := l.entries.take p } : Log (Journal μ)).size := by
    rw [he, size, List.length_take, min_eq_left (Nat.le_of_lt hlt)]
    exact fun h => h rfl
  rw [accept, he, entry?_succ, hold]
  dsimp only
  rw [if_neg hne, if_neg hpos, Nat.add_sub_cancel, dropAfter, ht]
  dsimp only
  rw [place, if_neg hsize, push, ha]

/-- An entry that is not committed gives way to one of another term, and that one is committed. -/
lemma follow_replaced [Machine μ] (hold : l.entries[p]? = some old) (hc : l.commit ≤ p)
    (he : e.index = p + 1) (hne : old.term ≠ e.term)
    (ht : LogStore.truncate p store = (.ok (), st))
    (ha : LogStore.append e st = (.ok i, store')) (current : Term) :
    (l.follow current ⟨current, p, l.termAt p, [e], p + 1⟩ store).2.1 =
      commitTo (p + 1) { l with entries := l.entries.take p ++ [e] } := by
  have hlt : p < l.entries.length := (List.getElem?_eq_some_iff.mp hold).1
  have hend : ¬ l.lastIndex < p := Nat.not_lt_of_le (Nat.le_of_lt hlt)
  have hfits : l.fits current ⟨current, p, l.termAt p, [e], p + 1⟩ = .ok () := by
    unfold fits
    dsimp only
    rw [if_neg (Nat.lt_irrefl _), if_neg hend, if_neg fun h => h rfl]
  rw [follow, hfits]
  dsimp only
  rw [acceptAll, accept_replaced hold hc he hne ht ha]
  dsimp only
  rw [acceptAll]
  dsimp only
  rw [lastIndex, List.length_append, List.length_take, min_eq_left (Nat.le_of_lt hlt),
    List.length_singleton, min_self]

/-- The machine is given the entry that was put in the place of another one. -/
lemma given_replaced [Machine μ] (hs : l.Sound) (hc : l.commit ≤ p) (hp : p < l.entries.length)
    (he : e.index = p + 1) :
    (commitTo (p + 1) { l with entries := l.entries.take p ++ [e] }).machine.given[p]? =
      some e := by
  have hlen : (l.entries.take p).length = p := by
    rw [List.length_take, min_eq_left (Nat.le_of_lt hp)]
  have hr : Reshapes l { l with entries := l.entries.take p ++ [e] } := by
    refine ⟨rfl, (hs.numbered.take p).snoc (he.trans (congrArg Nat.succ hlen.symm)), ?_,
      take_snoc_of_le e hc (Nat.le_of_lt hp)⟩
    rw [List.length_append, hlen]
    exact Nat.le_add_right_of_le hc
  have hlast : p + 1 ≤ (l.entries.take p ++ [e]).length := by
    rw [List.length_append, hlen]
    exact le_rfl
  rw [((hr.sound hs).commitTo hlast).given, commitTo_entries, commitTo_commit,
    max_eq_right (Nat.le_succ_of_le hc), List.getElem?_take_of_lt (Nat.lt_succ_self p)]
  show (l.entries.take p ++ [e])[p]? = _
  rw [List.getElem?_append_right (Nat.le_of_eq hlen), hlen, Nat.sub_self]
  rfl

end Replacing

end Log

/-! ### What each step does to those who wait -/

namespace Node

variable {σ μ : Type} {n n' n'' : Node σ (Journal μ)}

lemma conclude_eq_ok {w : Written} {i : Index} : (n.conclude w).1 = .ok i ↔
    n.log.waits.status? w.ticket = some .committed ∧ i = w.index := by
  unfold conclude outcome?
  rcases n.log.waits.status? w.ticket with _ | st
  · simp
  · cases st <;> simp [eq_comm]

/-- The log is left alone and nobody comes to follow, or nobody waits any more. -/
structure Stays (n n' : Node σ (Journal μ)) : Prop where
  attached : n'.attached = n.attached
  log : n'.log = n.log ∧ (n'.role = .follower → n.role = .follower) ∨ n'.log = n.log.failWaits

namespace Stays

lemma refl (n : Node σ (Journal μ)) : Stays n n := ⟨rfl, Or.inl ⟨rfl, fun h => h⟩⟩

lemma of_role (ha : n'.attached = n.attached) (hl : n'.log = n.log) (hr : n'.role = n.role) :
    Stays n n' := ⟨ha, Or.inl ⟨hl, fun h => hr ▸ h⟩⟩

end Stays

lemma closeElection_stays (n : Node σ (Journal μ)) : n.Stays n.closeElection.2 := by
  rcases ht : n.tally with _ | t
  · rw [closeElection, ht]
    exact .refl n
  · by_cases hw : n.config.majority ≤ t.votes ∧ n.role = .candidate ∧ n.term = t.request.term
    · rw [closeElection_won ht hw.1 hw.2.1 hw.2.2]
      exact ⟨rfl, Or.inl ⟨rfl, fun h => by cases h⟩⟩
    · rw [closeElection_lost ht hw]
      exact ⟨rfl, Or.inr rfl⟩

section Steps

variable [BallotStore σ]

lemma stepDown_log (ha : n.attached = true) (t : Term) :
    (n.stepDown t).log = n.log.failWaits := by
  unfold stepDown
  rw [ha]
  rfl

lemma stepDown_stays (ha : n.attached = true) (t : Term) : n.Stays (n.stepDown t) :=
  ⟨rfl, Or.inr (stepDown_log ha t)⟩

lemma startElection_stays (n : Node σ (Journal μ)) : n.Stays n.startElection.2 := by
  unfold startElection
  split
  · exact .refl n
  · unfold Standing.stand Standing.adopt
    rcases BallotStore.writeBallot _ n.store with ⟨e | ⟨⟩, store'⟩
    · exact .of_role rfl rfl rfl
    · exact ⟨rfl, Or.inl ⟨rfl, fun h => by cases h⟩⟩

lemma countVote_stays (ha : n.attached = true) (reply : Except NetworkError VoteReply) :
    n.Stays (n.countVote reply) := by
  unfold countVote
  split
  · exact .refl n
  · split
    · exact .refl n
    · dsimp only
      split
      · exact .of_role rfl rfl rfl
      · split
        · exact .of_role rfl rfl rfl
        · split
          · rename_i t _ _ _ r _ _
            have hl := stepDown_log (n := { n with tally := some { t with
              replies := t.replies + 1
              overtaken := true } }) ha r.term
            exact ⟨rfl, Or.inr hl⟩
          · exact .of_role rfl rfl rfl

/-- Within its term a member votes without changing its role. -/
lemma grant_role (t : Term) (c : NodeId) (s : Standing) (store : σ) (h : ¬ s.term < t) :
    (s.grant t c store).2.1.role = s.role := by
  unfold Standing.grant Standing.cast Standing.adopt
  rw [if_neg h]
  split
  · rfl
  · split
    · rfl
    · rcases BallotStore.writeBallot _ store with ⟨e | ⟨⟩, store'⟩ <;> rfl

/-- A member makes way for a request of a later term first. Its vote then leaves all but its
standing alone, and its role too unless that term is new to it still. -/
lemma receiveVote_cases (r : VoteRequest) (n : Node σ (Journal μ)) :
    ∃ m, (m = n ∧ ¬ n.term < r.term ∨ m = n.stepDown r.term) ∧
      (n.receiveVote r).2.attached = m.attached ∧ (n.receiveVote r).2.log = m.log ∧
      (n.receiveVote r).2.heartbeats = m.heartbeats ∧
      (¬ m.term < r.term → (n.receiveVote r).2.role = m.role) := by
  unfold receiveVote
  simp only
  refine ⟨if n.term < r.term then n.stepDown r.term else n, ?_, ?_⟩
  · by_cases hlt : n.term < r.term
    · exact Or.inr (if_pos hlt)
    · exact Or.inl ⟨if_neg hlt, hlt⟩
  · generalize (if n.term < r.term then n.stepDown r.term else n) = m
    have hg := grant_role r.term r.candidate m.standing m.store
    split
    · split <;> rename_i heq <;> rw [heq] at hg <;> exact ⟨rfl, rfl, rfl, hg⟩
    · exact ⟨rfl, rfl, rfl, fun _ => rfl⟩

lemma receiveVote_stays (ha : n.attached = true) (r : VoteRequest) :
    n.Stays (n.receiveVote r).2 := by
  obtain ⟨m, ⟨rfl, hlt⟩ | rfl, hatt, hlog, -, hrole⟩ := receiveVote_cases r n
  · exact ⟨hatt, Or.inl ⟨hlog, fun hr => hrole hlt ▸ hr⟩⟩
  · exact ⟨hatt, Or.inr (hlog.trans (stepDown_log ha _))⟩

/-- Whoever makes way leaves its log alone or lets nobody wait any more. Nobody waits then, unless
it stood for election in the term that it makes way for. -/
lemma yieldTo_log {t : Term} {m : Node σ (Journal μ)} (ha : n.attached = true)
    (hi : n.role = .follower → n.log.waits.filed = []) (h : n.yieldTo t = some m)
    (hc : n.role = .candidate → t = n.term → n.log.waits.filed = []) :
    m.attached = n.attached ∧ (m.log = n.log ∨ m.log = n.log.failWaits) ∧
      m.log.waits.filed = [] := by
  unfold yieldTo at h
  split_ifs at h with h1 h2
  · obtain rfl := Option.some.inj h
    refine ⟨rfl, Or.inr (stepDown_log ha _), ?_⟩
    rw [stepDown_log ha]
    exact Waits.failAll_filed _
  · split at h
    · cases h
    · rename_i hr
      obtain rfl := Option.some.inj h
      exact ⟨rfl, Or.inl rfl, hi hr⟩
    · rename_i hr
      obtain rfl := Option.some.inj h
      exact ⟨rfl, Or.inl rfl, hc hr (Nat.le_antisymm (Nat.le_of_not_lt h2) (Nat.le_of_not_lt h1))⟩

lemma yieldTo_candidate (h : n.role = .candidate) :
    n.yieldTo n.term = some { n with standing := { n.standing with role := .follower } } := by
  have hf : n.standing.follow n.term n.store =
      (.ok (), { n.standing with role := .follower }, n.store) := if_neg (Nat.lt_irrefl _)
  unfold yieldTo
  rw [if_neg (Nat.lt_irrefl _), if_neg (Nat.lt_irrefl _), h, hf]

/-- A request of the member's own term that puts an entry behind a position and has it committed. -/
def overwrite (n : Node σ (Journal μ)) (p : Index) (e : Entry) : AppendRequest :=
  ⟨0, n.term, p, n.log.termAt p, [e], p + 1⟩

lemma receiveAppend_overwrite [LogStore σ] [Machine μ] {p : ℕ} {old e : Entry} {i : Index}
    {st store' : σ}
    (hr : n.role = .candidate) (hold : n.log.entries[p]? = some old) (hc : n.log.commit ≤ p)
    (he : e.index = p + 1) (hne : old.term ≠ e.term)
    (ht : LogStore.truncate p n.store = (.ok (), st))
    (ha : LogStore.append e st = (.ok i, store')) :
    (n.receiveAppend (n.overwrite p e)).2.log =
      Log.commitTo (p + 1) { n.log with entries := n.log.entries.take p ++ [e] } := by
  rcases n.receiveAppend_cases (n.overwrite p e) with ⟨hy, -⟩ | ⟨m, hy, hm⟩
  · rw [overwrite, yieldTo_candidate hr] at hy
    cases hy
  · rw [hm]
    rw [overwrite, yieldTo_candidate hr] at hy
    obtain rfl := Option.some.inj hy
    exact Log.follow_replaced hold hc he hne ht ha _

end Steps

end Node

namespace Session

variable {σ μ : Type} {s : Session σ μ} {n : Node σ (Journal μ)}

/-- What holds as long as no exposed member meets another leader: nobody waits for a follower. -/
structure Sane (s : Session σ μ) : Prop where
  attached : s.node.attached = true
  sound : s.node.log.Sound
  tracks : s.node.log.Tracks s.errands
  idle : s.node.role = .follower → s.node.log.waits.filed = []

/-- Whoever is told of success has its own entry applied. -/
lemma Sane.not_misleads (h : s.Sane) : ¬ s.Misleads := by
  rintro ⟨c, hc, i, hi, hgiven⟩
  obtain ⟨hst, rfl⟩ := Node.conclude_eq_ok.mp hi
  obtain ⟨t, ht⟩ := List.mem_iff_getElem?.mp hc
  rw [h.tracks.ticket t c ht] at hst
  obtain ⟨h1, h2, h3⟩ := h.tracks.told t c ht hst
  obtain ⟨p, hp⟩ := Nat.exists_eq_succ_of_ne_zero (Nat.ne_of_gt h1)
  rw [hp, h.sound.applied] at h2
  rw [hp] at h3
  rw [hp, h.sound.given, Nat.succ_sub_one, List.getElem?_take_of_lt h2] at hgiven
  exact hgiven h3

/-- The errands are the same, whatever became of the member. -/
lemma Sane.of_node {s : Session σ μ} (ha : n.attached = true) (hs : n.log.Sound)
    (ht : n.log.Tracks s.errands) (hi : n.role = .follower → n.log.waits.filed = []) :
    Sane { s with node := n } := ⟨ha, hs, ht, hi⟩

lemma Sane.stays (h : s.Sane) (hs : s.node.Stays n) : Sane { s with node := n } := by
  obtain ⟨ha, ⟨hl, hr⟩ | hl⟩ := hs
  · refine .of_node (ha.trans h.attached) ?_ ?_ fun hrole => ?_
    · rw [hl]
      exact h.sound
    · rw [hl]
      exact h.tracks
    · rw [hl]
      exact h.idle (hr hrole)
  · refine .of_node (ha.trans h.attached) ?_ ?_ fun _ => ?_
    · rw [hl]
      exact h.sound.of_eq rfl rfl rfl rfl
    · rw [hl]
      exact h.tracks.failWaits
    · rw [hl]
      exact Waits.failAll_filed _

/-- A member starts without errands, with a log that it has not begun to apply. -/
lemma restore_sane [LogStore σ] [BallotStore σ] {config : Config} {machine : μ} {store store' : σ}
    (h : Node.restore config ⟨machine, []⟩ store = (.ok n, store')) : Sane ⟨n, []⟩ := by
  unfold Node.restore at h
  split at h
  · cases h
  · split at h
    · cases h
    · rename_i hl
      obtain ⟨es, hes, rfl⟩ := Log.restore_ok hl
      cases h
      refine ⟨rfl, ⟨hes, Nat.zero_le _, rfl, rfl⟩, ?_, fun _ => rfl⟩
      refine ⟨Waits.sound_of_filed_eq_nil rfl, rfl, ?_, ?_, ?_⟩
      · exact fun t c hc => by cases hc
      · exact fun i t hi => by cases hi
      · exact fun t c hc => by cases hc

variable [Machine μ]

lemma Sane.tryCommit (h : s.Sane) : Sane { s with node := s.node.tryCommit } := by
  rcases Node.tryCommit_cases h.sound.numbered with ⟨hc, -⟩ | ⟨i, -, hi, -, hc⟩
  · rw [hc]
    exact h
  · rw [hc]
    refine ⟨h.attached, h.sound.commitTo hi.le, h.tracks.commitTo i, fun hr => ?_⟩
    show (s.node.log.commitTo i).waits.filed = []
    rw [Log.commitTo_waits (h.idle hr)]
    exact h.idle hr

variable [LogStore σ]

lemma Sane.submit (h : s.Sane) (payload : Bytes) : (s.submit payload).Sane := by
  unfold Session.submit
  rcases s.node.submit_cases payload with ⟨e, store', hs, -⟩ | ⟨t, i, store', hl, -, hs⟩
  · rw [hs]
    exact h.stays (.of_role rfl rfl rfl)
  · rw [hs]
    have hw : Sane ⟨s.node.wrote t payload store',
        s.errands ++ [⟨⟨t, s.node.log.size, s.node.log.waits.all.length⟩, payload⟩]⟩ := by
      refine ⟨h.attached, Node.wrote_sound h.sound t payload store',
        h.tracks.register h.sound t payload, fun hr => ?_⟩
      have hr' := (Node.leaderTerm_eq_some.mp hl).1
      rw [show s.node.role = .follower from hr] at hr'
      cases hr'
    exact hw.tryCommit

lemma Sane.append [BallotStore σ] (h : s.Sane) {r : AppendRequest}
    (hr : s.Exposed → r.term ≠ s.node.term) :
    Sane { s with node := (s.node.receiveAppend r).2 } := by
  rcases s.node.receiveAppend_cases r with ⟨-, hn⟩ | ⟨m, hy, hn⟩
  · rw [hn]
    exact h
  · rw [hn]
    obtain ⟨ha, hl, hf⟩ := Node.yieldTo_log h.attached h.idle hy fun hc ht => by
      by_contra hw
      exact hr ⟨hc, hw⟩ ht
    have hsound : m.log.Sound ∧ m.log.Tracks s.errands := by
      rcases hl with hl | hl
      · rw [hl]
        exact ⟨h.sound, h.tracks⟩
      · rw [hl]
        exact ⟨h.sound.of_eq rfl rfl rfl rfl, h.tracks.failWaits⟩
    obtain ⟨ht, hw⟩ := hsound.2.follow hsound.1 hf m.term r.batch m.store
    refine ⟨ha.trans h.attached, (Log.follow_sound hsound.1 _ _ _).1, ht, fun _ => ?_⟩
    show (m.log.follow m.term r.batch m.store).2.1.waits.filed = []
    rw [hw, hf]

/-- Only an exposed member that meets another leader lets an entry that is waited for give way. -/
lemma Sane.perform [BallotStore σ] (h : s.Sane) {ev : Event} (hev : ¬ s.Meets ev) :
    (s.perform ev).Sane := by
  cases ev with
  | submit payload => exact h.submit payload
  | giveUp w =>
    refine ⟨h.attached, h.sound.of_eq rfl rfl rfl rfl, h.tracks.expire _, fun hr => ?_⟩
    exact Waits.expire_filed_eq_nil (h.idle hr) _
  | stand => exact h.stays (Node.startElection_stays _)
  | count reply => exact h.stays (Node.countVote_stays h.attached reply)
  | close => exact h.stays (Node.closeElection_stays _)
  | vote r => exact h.stays (Node.receiveVote_stays h.attached r)
  | append r => exact h.append fun hx ht => hev ⟨hx, r, rfl, ht⟩
  | finish round reply =>
    show Sane { s with node := s.node.finishRound round reply }
    unfold Node.finishRound
    split
    · exact h
    · split_ifs
      · exact h.stays (Node.stepDown_stays h.attached _)
      · exact h
      · have hs : Sane { s with node := { s.node with
            progress := s.node.progress.advance round.peer round.request.lastIndex
            contacts := s.node.contacts.hear round.peer } } := h.stays (.of_role rfl rfl rfl)
        exact hs.tryCommit
      · exact h.stays (.of_role rfl rfl rfl)
  | stepDown t => exact h.stays (Node.stepDown_stays h.attached t)

lemma Calm.sane [BallotStore σ] (h : s.Calm) : s.Sane := by
  induction h with
  | starts hn => exact restore_sane hn
  | steps _ hev ih => exact ih.perform hev

/-- Storage lets an entry take the place of one in the log. -/
def CanReplace (s : Session σ μ) : Prop :=
  ∀ e : Entry, 0 < e.index → e.index ≤ s.node.log.entries.length → ∃ st i store',
    LogStore.truncate (e.index - 1) s.node.store = (.ok (), st) ∧
      LogStore.append e st = (.ok i, store')

/-- The leader of the term that an exposed member stands for can have an entry put in the place of
one that a client waits for, and committed. -/
lemma Sane.misleads_of_exposed [BallotStore σ] (h : s.Sane) (hx : s.Exposed)
    (hc : s.CanReplace) : ∃ r, s.Meets (.append r) ∧ (s.perform (.append r)).Misleads := by
  obtain ⟨hrole, hne⟩ := hx
  obtain ⟨⟨i, t⟩, rest, hfiled⟩ := List.exists_cons_of_ne_nil hne
  have hf : Table.find? i s.node.log.waits.filed = some t := by
    rw [hfiled, Table.find?, if_pos rfl]
  obtain ⟨happ, c, hct, hidx, hent⟩ := h.tracks.filed i t hf
  obtain ⟨p, rfl⟩ := Nat.exists_eq_succ_of_ne_zero (Nat.ne_of_gt (Nat.zero_lt_of_lt happ))
  have hold : s.node.log.entries[p]? = some c.entry := hent
  have hlt : p < s.node.log.entries.length := (List.getElem?_eq_some_iff.mp hold).1
  have hcommit : s.node.log.commit ≤ p := h.sound.applied ▸ Nat.le_of_lt_succ happ
  obtain ⟨e, he, hterm⟩ : ∃ e : Entry, e.index = p + 1 ∧ c.entry.term ≠ e.term :=
    ⟨⟨c.written.term.next, p + 1, []⟩, rfl, (Term.next_ne _).symm⟩
  obtain ⟨st, j, store', ht, ha⟩ := hc e (he ▸ Nat.succ_pos p) (he ▸ hlt)
  rw [he, Nat.add_sub_cancel] at ht
  have hlog := Node.receiveAppend_overwrite hrole hold hcommit he hterm ht ha
  have hlen : p + 1 ≤ (s.node.log.entries.take p ++ [e]).length := by
    rw [List.length_append, List.length_take, min_eq_left (Nat.le_of_lt hlt)]
    exact le_rfl
  refine ⟨s.node.overwrite p e, ⟨⟨hrole, hne⟩, _, rfl, rfl⟩, c, List.mem_of_getElem? hct, p + 1,
    Node.conclude_eq_ok.mpr ⟨?_, hidx.symm⟩, ?_⟩
  · rw [h.tracks.ticket t c hct]
    show (s.node.receiveAppend _).2.log.waits.status? t = _
    rw [hlog]
    have hopen := h.tracks.waits.status?_eq hf
    exact (Log.commitTo_told (l := { s.node.log with entries := s.node.log.entries.take p ++ [e] })
      hf hopen happ le_rfl (Nat.lt_succ_of_le hcommit) hlen).1
  · show (s.node.receiveAppend _).2.log.machine.given[p]? ≠ _
    rw [hlog, Log.given_replaced h.sound hcommit hlt he]
    exact fun heq => hterm (congrArg Entry.term (Option.some.inj heq)).symm

/-- **Clients are told the truth** until an exposed member meets another leader of its term, and
only then can one be misled; and a member that is exposed can meet a leader that misleads one. -/
theorem Calm.truthful [BallotStore σ] (h : s.Calm) :
    ¬ s.Misleads ∧ (∀ ev, (s.perform ev).Misleads → s.Meets ev) ∧
      (s.CanReplace → s.Exposed → ∃ r, s.Meets (.append r) ∧ (s.perform (.append r)).Misleads) := by
  refine ⟨h.sane.not_misleads, fun ev hm => ?_, fun hc hx => h.sane.misleads_of_exposed hx hc⟩
  by_contra hev
  exact (h.steps hev).sane.not_misleads hm

/-- A member of three that was just started in memory. -/
def started : Session Memory Kv where
  node :=
    { config := ⟨1, [1, 2, 3], {}⟩, store := {}, standing := {}, log := { machine := ⟨⟨[]⟩, []⟩ } }

/-- It was elected, a client waits for an entry of its own, and it stands for election again. -/
def reelected : Session Memory Kv :=
  [.stand, .count (.ok ⟨1, true⟩), .close, .submit [], .stand].foldl perform started

/-- A client of it can be misled. -/
theorem truthful_reelected : reelected.Exposed ∧ ¬ reelected.Misleads ∧
    ∃ r, reelected.Meets (.append r) ∧ (reelected.perform (.append r)).Misleads := by
  have hstart : Node.restore ⟨1, [1, 2, 3], {}⟩ (⟨⟨[]⟩, []⟩ : Journal Kv) ({} : Memory) =
      (.ok started.node, {}) := rfl
  have hstep : ∀ {s : Session Memory Kv} {ev}, s.Calm → (∀ r, ev ≠ .append r) →
      (s.perform ev).Calm := by
    intro s ev hs hev
    exact hs.steps fun ⟨_, r, hr, _⟩ => hev r hr
  have hcalm : reelected.Calm := by
    unfold reelected
    simp only [List.foldl_cons, List.foldl_nil]
    refine hstep (hstep (hstep (hstep (hstep (.starts hstart) ?_) ?_) ?_) ?_) ?_ <;>
      exact fun r h => by cases h
  have hreplace : reelected.CanReplace := by
    intro e h1 h2
    have he : e.index = 1 := Nat.le_antisymm h2 h1
    exact ⟨⟨[], _⟩, _, _, by rw [he]; rfl, if_pos he⟩
  have hexposed : reelected.Exposed := ⟨rfl, by decide⟩
  obtain ⟨h1, -, h2⟩ := Calm.truthful hcalm
  exact ⟨hexposed, h1, h2 hreplace hexposed⟩

end Session

end Quorum
