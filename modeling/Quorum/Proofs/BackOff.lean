import Quorum.Proofs.Cursors
import Quorum.Proofs.Mirrors

/-!
Back-off finds where a peer's log parts from its leader's.

A leader and one peer exchange rounds, and nothing else happens (`Link.rounds`). Either the peer's
log does not fit what comes before the entries of a round, and then no log changes and the next
round starts one position earlier; or it does, and then it has all of the leader's log afterwards.
What this rests on is said once (`Node.Receptive`, `Link.Apt`) and outlasts every round that is
refused. A round from position 1 has nothing before its entries and fits every log, so the rounds
come to an end (`Link.backOff_converges`).
-/

namespace Quorum

open LawfulStore

/-! ### Storage that works -/

section Working

variable {σ : Type} [LogStore σ] [BallotStore σ] [Reopen σ] [LawfulStore σ]
variable {es fs : List Entry} {store : σ}

/-- Storage works from here on: it takes every ballot, it drops what it is told to drop, and it adds
each of these entries where that is the next one. -/
def LawfulStore.Works (es : List Entry) (store : σ) : Prop :=
  ∃ good : Set σ, store ∈ good ∧ ∀ s ∈ good,
    (∀ b, ∃ s' ∈ good, BallotStore.writeBallot b s = (.ok (), s')) ∧
    (∀ k, ∃ s' ∈ good, LogStore.truncate k s = (.ok (), s')) ∧
    ∀ e ∈ es, (LogStore.append e (contents s)).1 = .ok e.index →
      ∃ s' ∈ good, LogStore.append e s = (.ok e.index, s')

namespace LawfulStore.Works

lemma writeBallot (h : Works es store) (b : Ballot) :
    ∃ store', BallotStore.writeBallot b store = (.ok (), store') ∧ Works es store' := by
  obtain ⟨good, hs, hgood⟩ := h
  obtain ⟨store', hs', hw⟩ := (hgood store hs).1 b
  exact ⟨store', hw, good, hs', hgood⟩

lemma truncate (h : Works es store) (k : Index) :
    ∃ store', LogStore.truncate k store = (.ok (), store') ∧ Works es store' := by
  obtain ⟨good, hs, hgood⟩ := h
  obtain ⟨store', hs', hw⟩ := (hgood store hs).2.1 k
  exact ⟨store', hw, good, hs', hgood⟩

lemma append (h : Works es store) {e : Entry} (he : e ∈ es) (hn : Numbered (contents store).records)
    (hi : e.index = (contents store).records.length + 1) :
    ∃ store', LogStore.append e store = (.ok e.index, store') ∧ Works es store' := by
  obtain ⟨good, hs, hgood⟩ := h
  have hnext := congrArg Prod.fst (Memory.append_next hn hi)
  obtain ⟨store', hs', hw⟩ := (hgood store hs).2.2 e he hnext
  exact ⟨store', hw, good, hs', hgood⟩

/-- Storage in memory works. -/
lemma memory (es : List Entry) (m : Memory) : Works es m := by
  refine ⟨Set.univ, trivial, fun m _ =>
    ⟨fun b => ⟨_, trivial, rfl⟩, fun k => ⟨_, trivial, rfl⟩, ?_⟩⟩
  exact fun e _ hok => ⟨_, trivial, Prod.ext hok rfl⟩

/-- A later term is stored and followed in. -/
lemma follow (h : Works es store) (t : Term) (s : Standing) :
    (s.follow t store).1 = .ok () ∧ Works es (s.follow t store).2.2 := by
  unfold Standing.follow
  split
  · obtain ⟨store', hw, hworks⟩ := h.writeBallot ⟨t, none⟩
    rw [Standing.adopt, hw]
    exact ⟨rfl, hworks⟩
  · exact ⟨rfl, h⟩

end LawfulStore.Works

namespace Log

variable {μ : Type} {l : Log μ}

/-- Storage that works goes on to work, and is not the reason why an entry is refused. -/
lemma Taken.works {e : Entry} {out : Except Refusal Unit × Log μ × σ} (h : Taken e l store out)
    (he : e ∈ es) (hn : Numbered l.entries) (hs : (contents store).records = l.entries)
    (hw : Works es store) : (∀ x, out.1 ≠ .error (.storage x)) ∧ Works es out.2.2 := by
  have hadd : ∀ {store₁ : σ} {k : ℕ}, Works es store₁ →
      (contents store₁).records = l.entries.take k → e.index = k + 1 → k ≤ l.entries.length →
      ∃ store', LogStore.append e store₁ = (.ok e.index, store') ∧ Works es store' := by
    intro store₁ k hw₁ hc hi hk
    refine hw₁.append he (hc ▸ hn.take k) ?_
    rw [hc, List.length_take, min_eq_left hk, hi]
  have hcut : ∀ {store₁ : σ}, LogStore.truncate (e.index - 1) store = (.ok (), store₁) →
      Works es store₁ ∧ (contents store₁).records = l.entries.take (e.index - 1) := by
    intro store₁ ht
    obtain ⟨store₂, ht₂, hw₂⟩ := hw.truncate (e.index - 1)
    obtain rfl := (Prod.mk.inj (ht₂.symm.trans ht)).2
    exact ⟨hw₂, by rw [truncate_ok ht, Memory.truncate_records (hs ▸ hn), hs]⟩
  have hwhole : (contents store).records = l.entries.take l.entries.length := by
    rw [List.take_length, hs]
  cases h with
  | kept | conflict | gap => exact ⟨fun x hx => (by cases hx), hw⟩
  | unadded x store' hi ha =>
    obtain ⟨store'', ha', -⟩ := hadd hw hwhole hi le_rfl
    cases (Prod.mk.inj (ha'.symm.trans ha)).1
  | uncut old x store' _ _ _ ht =>
    obtain ⟨store'', ht', -⟩ := hw.truncate (e.index - 1)
    cases (Prod.mk.inj (ht'.symm.trans ht)).1
  | added i store' hi ha =>
    obtain ⟨store'', ha', hw'⟩ := hadd hw hwhole hi le_rfl
    obtain rfl := (Prod.mk.inj (ha'.symm.trans ha)).2
    exact ⟨fun x hx => (by cases hx), hw'⟩
  | cut old x store₁ store' hold _ hpos ht ha =>
    have hlt := lt_of_entry? hold
    obtain ⟨hw₁, hc₁⟩ := hcut ht
    obtain ⟨store'', ha', -⟩ := hadd hw₁ hc₁ (by lia) (by lia)
    cases (Prod.mk.inj (ha'.symm.trans ha)).1
  | replaced old i store₁ store' hold _ hpos ht ha =>
    have hlt := lt_of_entry? hold
    obtain ⟨hw₁, hc₁⟩ := hcut ht
    obtain ⟨store'', ha', hw'⟩ := hadd hw₁ hc₁ (by lia) (by lia)
    obtain rfl := (Prod.mk.inj (ha'.symm.trans ha)).2
    exact ⟨fun x hx => (by cases hx), hw'⟩

lemma acceptAll_works {ds : List Entry} (hd : ∀ e ∈ ds, e ∈ es) (hn : Numbered l.entries)
    (hc : l.commit ≤ l.entries.length) (hs : (contents store).records = l.entries)
    (hw : Works es store) (x : StorageError) :
    (l.acceptAll ds store).1 ≠ .error (.storage x) := by
  induction ds generalizing l store with
  | nil => exact fun h => by cases h
  | cons e ds ih =>
    have ht := accept_taken e l store
    obtain ⟨hno, hw'⟩ := ht.works (hd e List.mem_cons_self) hn hs hw
    have hone := ht.reshapes hn hc
    have hst := congrArg Memory.records (ht.stored hn hs)
    rw [acceptAll]
    split <;> rename_i heq <;> rw [heq] at hno hw' hone hst
    · exact hno x
    · exact ih (fun f hf => hd f (List.mem_cons_of_mem e hf)) hone.numbered
        (hone.commit_eq ▸ hone.commit_le) hst hw'

/-- A log is in order or not by its entries, its indices and what was given. -/
lemma Steady.of_eq {l l' : Log (Journal μ)} (h : l.Steady) (he : l'.entries = l.entries)
    (hc : l'.commit = l.commit) (ha : l'.applied = l.applied) (hm : l'.machine = l.machine) :
    l'.Steady := by
  obtain ⟨h1, h2, h3, h4⟩ := h
  refine ⟨?_, ?_, ?_, ?_⟩
  · rwa [he]
  · rwa [ha, hc]
  · rwa [hc, he]
  · rwa [hm, he, ha]

variable {b : Batch} {current : Term}

/-- A batch with nothing before it fits. -/
lemma fits_of_slice {l : Log μ} (hb : b.Slice fs) (hp : b.prevIndex = 0) (ht : current ≤ b.term) :
    l.fits current b = .ok () := by
  have hterm : l.termAt b.prevIndex = b.prevTerm := by
    rw [hb.prevTerm, hp]
    rfl
  unfold fits
  rw [if_neg (Nat.not_lt_of_le ht), if_neg (by lia), if_neg fun hne => hne hterm]

/-- On storage that works, a log that is in agreement with another and committed to nothing else
refuses a slice of that other only for what comes before it, and then stays what it is. -/
lemma follow_slice_works [Machine μ] {l : Log (Journal μ)} (hl : l.Steady)
    (hs : (contents store).records = l.entries) (hf : Numbered fs) (hag : Agree l.entries fs)
    (hno : ¬ l.Contradicts fs) (hw : Works fs store) (hb : b.Slice fs) (ht : current ≤ b.term) :
    (0 < b.prevIndex ∧ ∃ r, l.follow current b store = (.error r, l, store)) ∨
      (l.follow current b store).1 = .ok () ∧
        fs <+: (l.follow current b store).2.1.entries := by
  rcases hfits : l.fits current b with r | ⟨⟩
  · refine Or.inl ⟨Nat.pos_of_ne_zero fun hp => ?_, r, ?_⟩
    · cases (fits_of_slice hb hp ht).symm.trans hfits
    · rw [follow, hfits]
  · obtain ⟨hxl, htake⟩ := take_eq_of_fits hag hb hfits
    have hsl := acceptAll_slice hf hag _ b.prevIndex store rfl hb.prev_le hxl htake
    have hmem : ∀ e ∈ b.entries, e ∈ fs := fun e he => List.mem_of_mem_drop (hb.entries ▸ he)
    have hgood := acceptAll_works hmem hl.numbered hl.commit_le hs hw
    rw [← hb.entries] at hsl
    refine Or.inr ?_
    rcases hsl.outcome with ⟨hok, hpre⟩ | ⟨r, hr, ⟨x, rfl⟩ | hcon⟩
    · rcases hacc : l.acceptAll b.entries store with ⟨res, l', store'⟩
      rw [hacc] at hok hpre
      obtain rfl : res = .ok () := hok
      simp only [follow, hfits, hacc, commitTo_entries]
      exact ⟨trivial, hpre⟩
    · exact absurd hr (hgood x)
    · exact absurd hcon hno

end Log

end Working

/-! ### A peer in one round -/

namespace Node

variable {σ μ : Type} [LogStore σ] [BallotStore σ] [Reopen σ] [LawfulStore σ]
variable {n n' : Node σ (Journal μ)} {t : Term} {fs : List Entry}

lemma Mirrors.of_rests (h : n.Mirrors) (hr : n.Rests n') : n'.Mirrors where
  steady := h.steady.of_eq hr.entries hr.commit hr.applied hr.machine
  stored := by rw [hr.turns.records, hr.entries, h.stored]

/-- A member that the leader of a term with this log can bring level: it is in no later term and
does not lead the same one, its log is in agreement with the leader's and committed to nothing else,
and its storage works. -/
structure Receptive (n : Node σ (Journal μ)) (t : Term) (fs : List Entry) : Prop where
  term_le : n.term ≤ t
  leaderTerm : n.leaderTerm ≠ some t
  mirrors : n.Mirrors
  agree : Log.Agree n.log.entries fs
  vouched : ¬ n.log.Contradicts fs
  works : Works fs n.store

namespace Receptive

/-- A log that rests stays as receptive as it was. -/
lemma of_rests (h : n.Receptive t fs) (hr : n.Rests n') (ht : n'.term ≤ t)
    (hl : n'.leaderTerm ≠ some t) (hw : Works fs n'.store) : n'.Receptive t fs := by
  refine ⟨ht, hl, h.mirrors.of_rests hr, ?_, ?_, hw⟩
  · rw [hr.entries]
    exact h.agree
  · unfold Log.Contradicts
    rw [hr.entries, hr.commit]
    exact h.vouched

/-- A receptive member makes way, and is in the leader's term then. -/
lemma yieldTo (h : n.Receptive t fs) :
    ∃ m, n.yieldTo t = some m ∧ n.Rests m ∧ m.term = t ∧ m.role = .follower ∧
      Works fs m.store := by
  obtain ⟨hok, hw⟩ := h.works.follow t n.standing
  obtain ⟨m, hm, hworks⟩ : ∃ m, n.yieldTo t = some m ∧ Works fs m.store := by
    unfold Node.yieldTo
    rw [if_neg (Nat.not_lt_of_le h.term_le)]
    split
    · exact ⟨_, rfl, hw⟩
    · rename_i hlt
      have ht : n.term = t := Nat.le_antisymm h.term_le (Nat.le_of_not_lt hlt)
      split
      · rename_i hr
        exact absurd (leaderTerm_eq_some.mpr ⟨hr, ht⟩) h.leaderTerm
      · exact ⟨_, rfl, h.works⟩
      · exact ⟨_, rfl, hw⟩
  obtain ⟨hrests, -, -⟩ := yieldTo_some hm
  obtain ⟨hterm, hrole⟩ := yieldTo_stored hm fun _ => hok
  exact ⟨m, hm, hrests, hterm, hrole, hworks⟩

variable [Machine μ] {r : AppendRequest}

/-- A receptive member refuses a slice of the leader's log and stays as it was, or it accepts and
has all of that log. -/
lemma receiveAppend (h : n.Receptive r.term fs) (hf : Numbered fs) (hr : r.batch.Slice fs) :
    let out := n.receiveAppend r
    (0 < r.prevIndex ∧ out.1 = ⟨r.term, false⟩ ∧ n.Rests out.2 ∧ out.2.Receptive r.term fs) ∨
      out.1 = ⟨r.term, true⟩ ∧ fs <+: out.2.log.entries ∧
        (contents out.2.store).records = out.2.log.entries := by
  intro out
  obtain ⟨m, hy, hrests, hterm, hrole, hworks⟩ := h.yieldTo
  have hm := h.mirrors.of_rests hrests
  have hmr : m.Receptive r.term fs := by
    refine h.of_rests hrests hterm.le (fun hl => ?_) hworks
    cases (leaderTerm_eq_some.mp hl).1.symm.trans hrole
  have hout : out = (⟨m.term, (n.refusal? r).isNone⟩, m.followed r) := by
    rcases receiveAppend_cases r n with ⟨hno, -⟩ | ⟨m', hy', hout⟩
    · cases hno.symm.trans hy
    · obtain rfl := Option.some.inj (hy.symm.trans hy')
      exact hout
  rcases Log.follow_slice_works hm.steady hm.stored hf hmr.agree hmr.vouched hworks hr hterm.le with
    ⟨hpos, x, hfol⟩ | ⟨hok, hpre⟩
  · have hno : n.refusal? r = some x := refusal?_eq_some.mpr ⟨m, hy, by rw [hfol]⟩
    have hsame : m.Rests (m.followed r) := by
      unfold followed
      rw [hfol]
      exact ⟨rfl, .refl _ _, rfl, rfl, rfl, rfl, rfl, fun t h => ⟨t, h, rfl⟩⟩
    have hkeep : (m.followed r).Receptive r.term fs := by
      refine hmr.of_rests hsame hterm.le hmr.leaderTerm ?_
      show Works fs (m.log.follow m.term r.batch m.store).2.2
      rw [hfol]
      exact hworks
    rw [hout, hno, hterm]
    exact Or.inl ⟨hpos, rfl, hrests.trans hsame, hkeep⟩
  · have hyes : n.refusal? r = none := by
      rw [refusal?, hy]
      dsimp only
      rw [hok]
    have hstored :=
      Log.follow_stored hm.steady.numbered hm.steady.commit_le hm.stored m.term r.batch
    rw [hout, hyes, hterm]
    exact Or.inr ⟨rfl, hpre, congrArg Memory.records hstored⟩

end Receptive

/-! ### A leader in one round -/

section Leading

variable {peer : NodeId} {row : Progress}

omit [LogStore σ] [BallotStore σ] [Reopen σ] [LawfulStore σ] in
/-- A round starts where the peer's row says, if that is within the log. -/
lemma startRound_eq (hl : n.leaderTerm = some t) (ha : n.attached = true) (hp : peer ≠ n.id)
    (hrow : Table.find? peer n.progress = some row) (hw : row.Within n.log.entries.length) :
    n.startRound peer = some ⟨peer, n.appendRequest t row.next⟩ := by
  have hfrom : n.sendFrom peer = row.next := by
    unfold sendFrom
    rw [hrow]
    dsimp only
    rw [max_eq_left hw.next_pos]
    exact min_eq_left hw.next_le
  rw [startRound, if_neg hp, hl]
  dsimp only
  rw [if_pos ha, hfrom]

end Leading

end Node

/-! ### Rounds -/

/-- A leader and a peer with nobody else to hear from. -/
structure Link (σ μ : Type) where
  leader : Node σ (Journal μ)
  peer : Node σ (Journal μ)

namespace Link

variable {σ μ : Type} [LogStore σ] [BallotStore σ] [Reopen σ] [LawfulStore σ] [Machine μ]
variable {k : Link σ μ} {t : Term} {row : Progress}

/-- What the leader knows of the peer. -/
def row? (k : Link σ μ) : Option Progress := Table.find? k.peer.id k.leader.progress

/-- One round, from the request to what its answer tells the leader, and that answer. -/
def round (k : Link σ μ) : Option AppendReply × Link σ μ :=
  match k.leader.startRound k.peer.id with
  | none => (none, k)
  | some r =>
    match k.peer.receiveAppend r.request with
    | (reply, peer) => (some reply, ⟨k.leader.finishRound r (.ok reply), peer⟩)

/-- What so many rounds make of the two. -/
def rounds (i : ℕ) (k : Link σ μ) : Link σ μ := (fun k => k.round.2)^[i] k

/-- The leader leads the term and can send to the peer, and the peer is receptive. -/
structure Apt (k : Link σ μ) (t : Term) : Prop where
  leads : k.leader.leaderTerm = some t
  attached : k.leader.attached = true
  steady : k.leader.log.Steady
  other : k.peer.id ≠ k.leader.id
  receptive : k.peer.Receptive t k.leader.log.entries

/-- The peer has all of the leader's log, which is this one, and the leader knows. -/
structure Level (k : Link σ μ) (t : Term) (fs : List Entry) : Prop where
  leads : k.leader.leaderTerm = some t
  entries : k.leader.log.entries = fs
  row : k.row? = some ⟨fs.length + 1, fs.length⟩
  log : k.peer.log.entries.take fs.length = fs
  stored : (contents k.peer.store).records = k.peer.log.entries

/-- What a refused round leaves: the row starts one position earlier, and the logs are the same. -/
structure Retreats (k k' : Link σ μ) (t : Term) (row : Progress) : Prop where
  apt : k'.Apt t
  row : k'.row? = some { row with next := row.next - 1 }
  log : k'.leader.log = k.leader.log
  rests : k.peer.Rests k'.peer

/-- The leader sends what is behind the row's position. -/
lemma round_eq (h : k.Apt t) (hrow : k.row? = some row)
    (hw : row.Within k.leader.log.entries.length) :
    ∃ q : AppendRequest, q.term = t ∧ q.prevIndex = row.next - 1 ∧
      q.batch.Slice k.leader.log.entries ∧
      k.round = (some (k.peer.receiveAppend q).1,
        ⟨k.leader.finishRound ⟨k.peer.id, q⟩ (.ok (k.peer.receiveAppend q).1),
          (k.peer.receiveAppend q).2⟩) := by
  have hstart := Node.startRound_eq h.leads h.attached h.other hrow hw
  obtain ⟨-, hslice, -⟩ := Node.startRound_slice h.steady.commit_le hstart
  refine ⟨k.leader.appendRequest t row.next, rfl, rfl, hslice, ?_⟩
  rw [round, hstart]

/-- One round is refused, and did not start from position 1, or it brings the peer level. -/
lemma round_cases (h : k.Apt t) (hrow : k.row? = some row)
    (hw : row.Within k.leader.log.entries.length) :
    (1 < row.next ∧ k.round.1 = some ⟨t, false⟩ ∧ k.Retreats k.round.2 t row) ∨
      k.round.1 = some ⟨t, true⟩ ∧ k.round.2.Level t k.leader.log.entries := by
  obtain ⟨q, rfl, hprev, hslice, hround⟩ := round_eq h hrow hw
  have hold := ProgressTable.row_eq_of_find? hrow
  have hid : (k.peer.receiveAppend q).2.id = k.peer.id :=
    congrArg Config.self (Node.receiveAppend_goes q k.peer).1.config
  have hterm := (Node.leaderTerm_eq_some.mp h.leads).2.ge
  rw [hround]
  rcases h.receptive.receiveAppend h.steady.numbered hslice with
    ⟨hpos, hno, hrests, hrec⟩ | ⟨hyes, hpre, hstored⟩
  · have hnext : 1 < row.next := by lia
    have hfin := (Node.finishRound_eq (r := ⟨k.peer.id, q⟩) (a := ⟨q.term, false⟩) hterm
      h.leads).trans (if_neg Bool.false_ne_true)
    refine Or.inl ⟨hnext, congrArg some hno, ?_⟩
    rw [hno, hfin]
    refine ⟨⟨h.leads, h.attached, h.steady, ?_, hrec⟩, ?_, rfl, hrests⟩
    · show (k.peer.receiveAppend q).2.id ≠ k.leader.id
      rw [hid]
      exact h.other
    · show Table.find? (k.peer.receiveAppend q).2.id (k.leader.progress.backOff k.peer.id) = _
      rw [hid, ProgressTable.backOff, Table.find?_insert, if_pos rfl, hold,
        max_eq_left (Nat.le_sub_one_of_lt hnext)]
  · have hfin := (Node.finishRound_eq (r := ⟨k.peer.id, q⟩) (a := ⟨q.term, true⟩) hterm
      h.leads).trans (if_pos rfl)
    have hlast : q.lastIndex = k.leader.log.entries.length :=
      AppendRequest.lastIndex_of_slice h.steady.numbered hslice
    refine Or.inr ⟨congrArg some hyes, ?_⟩
    rw [hyes, hfin]
    refine ⟨?_, ?_, ?_, ?_, hstored⟩
    · rw [Node.leaderTerm, Node.tryCommit_standing]
      exact h.leads
    · rw [Node.tryCommit_entries]
    · show Table.find? (k.peer.receiveAppend q).2.id (Node.tryCommit _).progress = _
      rw [Node.tryCommit_progress, hid, ProgressTable.advance, Table.find?_insert, if_pos rfl, hold,
        hlast, max_eq_right hw.matched_le]
    · exact (List.prefix_iff_eq_take.mp hpre).symm

/-- **Back-off finds the match**, wherever it is. As long as rounds are refused, each lowers the
row's next position by one and leaves the peer's log as it was. Fewer are refused than the next
position was at first, and then a round is accepted: the peer has all of the leader's log, and the
leader knows that it has. -/
theorem backOff_converges (h : k.Apt t) (hrow : k.row? = some row)
    (hw : row.Within k.leader.log.entries.length) :
    ∃ j < row.next,
      (∀ i < j, (k.rounds i).round.1 = some ⟨t, false⟩ ∧
        (k.rounds (i + 1)).row? = some { row with next := row.next - (i + 1) } ∧
        k.peer.Rests (k.rounds (i + 1)).peer) ∧
      (k.rounds j).round.1 = some ⟨t, true⟩ ∧
      (k.rounds (j + 1)).Level t k.leader.log.entries := by
  obtain ⟨m, hm⟩ := Nat.exists_eq_add_of_le hw.next_pos
  induction m generalizing k row with
  | zero =>
    rcases round_cases h hrow hw with ⟨hlt, -⟩ | ⟨hyes, hlevel⟩
    · lia
    · exact ⟨0, hw.next_pos, fun i hi => absurd hi (Nat.not_lt_zero i), hyes, hlevel⟩
  | succ m ih =>
    rcases round_cases h hrow hw with ⟨hlt, hno, hback⟩ | ⟨hyes, hlevel⟩
    · have hw' : Progress.Within k.round.2.leader.log.entries.length
          { row with next := row.next - 1 } := by
        have := hw.next_le
        rw [hback.log]
        exact ⟨by dsimp only; lia, by dsimp only; lia, hw.matched_le⟩
      obtain ⟨j, hj, hrefused, hyes, hlevel⟩ := ih hback.apt hback.row hw' (by dsimp only; lia)
      rw [hback.log] at hlevel
      -- a round now and `j` rounds from there are `j + 1` rounds
      refine ⟨j + 1, by dsimp only at hj; lia, fun i hi => ?_, hyes, hlevel⟩
      cases i with
      | zero => exact ⟨hno, hback.row, hback.rests⟩
      | succ i =>
        obtain ⟨hagain, hrow', hrests⟩ := hrefused i (Nat.lt_of_succ_lt_succ hi)
        refine ⟨hagain, ?_, hback.rests.trans hrests⟩
        rw [show row.next - (i + 1 + 1) = row.next - 1 - (i + 1) by lia]
        exact hrow'
    · exact ⟨0, hw.next_pos, fun i hi => absurd hi (Nat.not_lt_zero i), hyes, hlevel⟩

/-- The leader of term 3. The second and third of its entries are of that term. -/
def headed : Node Memory (Journal Kv) where
  config := ⟨1, [1, 2, 3], {}⟩
  store := {}
  standing := ⟨⟨3, some 1⟩, .leader⟩
  log :=
    { entries := [⟨1, 1, [0]⟩, ⟨3, 2, [1]⟩, ⟨3, 3, [2]⟩], commit := 1, applied := 1
      machine := ⟨⟨[]⟩, [⟨1, 1, [0]⟩]⟩ }
  progress := [(2, ⟨4, 0⟩)]

/-- A candidate of term 2, with entries of that term where the leader has others. -/
def astray : Node Memory (Journal Kv) where
  config := ⟨2, [1, 2, 3], {}⟩
  store := { records := [⟨1, 1, [0]⟩, ⟨2, 2, [3]⟩, ⟨2, 3, [4]⟩, ⟨2, 4, [5]⟩] }
  standing := ⟨⟨2, some 2⟩, .candidate⟩
  log :=
    { entries := [⟨1, 1, [0]⟩, ⟨2, 2, [3]⟩, ⟨2, 3, [4]⟩, ⟨2, 4, [5]⟩], commit := 1, applied := 1
      machine := ⟨⟨[]⟩, [⟨1, 1, [0]⟩]⟩ }

/-- The leader's first entry is the last that the two have in common, so two rounds are refused. -/
theorem backOff_converges_astray : (⟨headed, astray⟩ : Link Memory Kv).Apt 3 ∧
    (⟨headed, astray⟩ : Link Memory Kv).row? = some ⟨4, 0⟩ ∧
    (⟨4, 0⟩ : Progress).Within headed.log.entries.length ∧
    ∃ j < 4, j = 2 ∧
      ((⟨headed, astray⟩ : Link Memory Kv).rounds j).round.1 = some ⟨3, true⟩ ∧
      ((⟨headed, astray⟩ : Link Memory Kv).rounds (j + 1)).Level 3 headed.log.entries := by
  have hagree : Log.Agree astray.log.entries headed.log.entries := by
    rintro (_ | _ | _ | i) e f he hf hterm
    · rfl
    · cases he
      cases hf
      cases hterm
    · cases he
      cases hf
      cases hterm
    · simp [headed] at hf
  have hno : ¬ astray.log.Contradicts headed.log.entries := by
    rintro ⟨_ | i, e, f, he, hf, hne, hlt⟩
    · cases he
      cases hf
      exact hne rfl
    · exact absurd hlt (Nat.not_lt_of_le (Nat.succ_le_succ (Nat.zero_le i)))
  have hapt : (⟨headed, astray⟩ : Link Memory Kv).Apt 3 :=
    ⟨rfl, rfl, ⟨by decide, by decide, by decide, rfl⟩, by decide, by decide, by decide,
      ⟨⟨by decide, by decide, by decide, rfl⟩, rfl⟩, hagree, hno, .memory _ _⟩
  have hw : (⟨4, 0⟩ : Progress).Within headed.log.entries.length :=
    ⟨by decide, by decide, by decide⟩
  obtain ⟨j, hj, hrefused, hyes, hlevel⟩ := backOff_converges hapt rfl hw
  have hthird : ((⟨headed, astray⟩ : Link Memory Kv).rounds 2).round.1 = some ⟨3, true⟩ := rfl
  refine ⟨hapt, rfl, hw, j, hj, ?_, hyes, hlevel⟩
  rcases j with _ | _ | _ | j
  · cases hyes
  · cases hyes
  · rfl
  · cases hthird.symm.trans (hrefused 2 (by lia)).1

end Link

end Quorum
