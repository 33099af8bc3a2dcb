import Quorum.Proofs.Discipline

/-!
Memory and storage mirror each other, and nothing that a log counts or looks up goes astray.

In memory a log is a rack of slots with the sentinel in the first. Taking in a batch subtracts one
from indices that a peer has chosen and looks into slots that it names (`Rack.follow?`), and each
time it has made sure that there is a result; so this comes to what `Log.follow` says
(`Log.follow?_rack`). Storage changes before memory does, by the same entry or up to the same place,
and an operation that fails there leaves both as they were. So they hold the same after every
operation (`Node.carryOut_mirrors`), and a log that is opened anew is the one that there was
(`Node.mirrored`).
-/

namespace Quorum

open LawfulStore

/-! ### Slots -/

/-- A difference, unless it is below zero. -/
def sub? (a b : ℕ) : Option ℕ := if b ≤ a then some (a - b) else none

lemma sub?_eq_some {a b : ℕ} (h : b ≤ a) : sub? a b = some (a - b) := if_pos h

/-- A log as it stands in memory, with its storage. -/
structure Rack (σ : Type) where
  slots : List Entry
  commit : Index
  store : σ

namespace Rack

variable {σ : Type} [LogStore σ]

/-- Adds a command for the next slot. -/
def write (t : Term) (payload : Bytes) (r : Rack σ) : Except StorageError Unit × Rack σ :=
  let e : Entry := ⟨t, r.slots.length, payload⟩
  match LogStore.append e r.store with
  | (.error x, store) => (.error x, { r with store })
  | (.ok _, store) => (.ok (), { r with slots := r.slots ++ [e], store })

/-- Adds an entry of a request, which has to be for the next slot. -/
def place? (e : Entry) (r : Rack σ) : Option (Except Refusal Unit × Rack σ) :=
  if e.index ≠ r.slots.length then do
    let last ← sub? r.slots.length 1
    return (.error (.gap e.index last), r)
  else match LogStore.append e r.store with
    | (.error x, store) => some (.error (.storage x), { r with store })
    | (.ok _, store) => some (.ok (), { r with slots := r.slots ++ [e], store })

/-- Drops the slots from that of an entry on. How many they are is told in a message. -/
def clear? (e : Entry) (r : Rack σ) : Option (Except Refusal Unit × Rack σ) := do
  let k ← sub? e.index 1
  match LogStore.truncate k r.store with
  | (.error x, store) => return (.error (.storage x), { r with store })
  | (.ok (), store) =>
    let _ ← sub? r.slots.length e.index
    return (.ok (), { r with slots := r.slots.take e.index, store })

/-- Takes in one entry of a request. -/
def accept? (e : Entry) (r : Rack σ) : Option (Except Refusal Unit × Rack σ) :=
  match r.slots[e.index]? with
  | none => r.place? e
  | some old =>
    if old.term = e.term then some (.ok (), r)
    else if e.index ≤ r.commit then some (.error (.committedConflict e.index r.commit), r)
    else do
      match ← r.clear? e with
      | (.error x, r) => return (.error x, r)
      | (.ok (), r) => r.place? e

/-- Takes in the entries of a request up to the first that is refused. -/
def acceptAll? : List Entry → Rack σ → Option (Except Refusal Unit × Rack σ)
  | [], r => some (.ok (), r)
  | e :: es, r => do
    match ← r.accept? e with
    | (.error x, r) => return (.error x, r)
    | (.ok (), r) => acceptAll? es r

/-- Whether the slots agree with what comes before a batch. -/
def fits? (current : Term) (b : Log.Batch) (r : Rack σ) : Option (Except Refusal Unit) :=
  if b.term < current then some (.error (.staleTerm b.term current))
  else do
    let last ← sub? r.slots.length 1
    if last < b.prevIndex then return .error (.beyondEnd b.prevIndex last)
    else
      let here ← r.slots[b.prevIndex]?
      if here.term ≠ b.prevTerm then
        return .error (.termMismatch b.prevIndex here.term b.prevTerm)
      else return .ok ()

/-- Takes in a batch and follows the leader's commit index. There is no result if a difference is
below zero or a slot is missing. -/
def follow? (current : Term) (b : Log.Batch) (r : Rack σ) :
    Option (Except Refusal Unit × Rack σ) := do
  match ← r.fits? current b with
  | .error x => return (.error x, r)
  | .ok () =>
    match ← r.acceptAll? b.entries with
    | (.error x, r) => return (.error x, r)
    | (.ok (), r) =>
      let last ← sub? r.slots.length 1
      return (.ok (), { r with commit := max r.commit (min b.commit last) })

end Rack

namespace Log

variable {μ σ : Type} {l : Log μ} {store : σ}

def rack (l : Log μ) (store : σ) : Rack σ := ⟨l.slots, l.commit, store⟩

/-- What an operation answers, and what it leaves. -/
def racked {α : Type} (out : α × Log μ × σ) : α × Rack σ := (out.1, out.2.1.rack out.2.2)

/-- The sentinel is not counted. -/
lemma sub?_slots (l : Log μ) (store : σ) :
    sub? (l.rack store).slots.length 1 = some l.lastIndex := rfl

/-- To keep so many slots is to keep one entry less, unless it is none. -/
lemma take_slots (l : Log μ) {i : ℕ} (hi : 0 < i) :
    l.slots.take i = .sentinel :: l.entries.take (i - 1) := by
  obtain ⟨k, rfl⟩ : ∃ k, i = k + 1 := ⟨i - 1, by omega⟩
  simp [slots]

variable [LogStore σ]

lemma place?_rack (e : Entry) (l : Log μ) (store : σ) :
    (l.rack store).place? e = some (racked (l.place e store)) := by
  by_cases hi : e.index ≠ l.size
  · rw [place, if_pos hi, Rack.place?, if_pos (show e.index ≠ (l.rack store).slots.length from hi)]
    rfl
  · rw [place, if_neg hi, Rack.place?,
      if_neg (show ¬ e.index ≠ (l.rack store).slots.length from hi), push]
    simp only [rack]
    rcases LogStore.append e store with ⟨x | i, store'⟩ <;> rfl

/-- An index that is above another is not zero, and one that a slot has is not beyond them. -/
lemma clear?_rack {e old : Entry} (hold : l.entry? e.index = some old) (hc : l.commit < e.index)
    (store : σ) :
    (l.rack store).clear? e = some (match l.dropAfter (e.index - 1) store with
      | (.error x, l, store) => racked (.error (.storage x), l, store)
      | (.ok (), l, store) => racked (.ok (), l, store)) := by
  have hlt := lt_of_entry? hold
  have hpos : 0 < e.index := Nat.lt_of_le_of_lt (Nat.zero_le _) hc
  have hone : sub? e.index 1 = some (e.index - 1) := sub?_eq_some hpos
  have hrest : sub? l.slots.length e.index = some (l.slots.length - e.index) :=
    sub?_eq_some (Nat.le_of_lt hlt)
  rw [Rack.clear?, dropAfter, hone]
  simp only [rack, hrest, Option.bind_eq_bind, Option.bind_some]
  rcases LogStore.truncate (e.index - 1) store with ⟨x | ⟨⟩, store'⟩
  · rfl
  · simp only [racked, rack, take_slots l hpos]
    rfl

lemma accept?_rack (e : Entry) (l : Log μ) (store : σ) :
    (l.rack store).accept? e = some (racked (l.accept e store)) := by
  have hget : (l.rack store).slots[e.index]? = l.entry? e.index := rfl
  rw [Rack.accept?, accept, hget]
  rcases hold : l.entry? e.index with _ | old
  · exact place?_rack e l store
  · by_cases ht : old.term = e.term
    · simp only [if_pos ht]
      rfl
    · by_cases hc : e.index ≤ l.commit
      · simp only [if_neg ht, if_pos hc, show e.index ≤ (l.rack store).commit from hc, if_true]
        rfl
      · have hc' : ¬ e.index ≤ (l.rack store).commit := hc
        simp only [if_neg ht, if_neg hc, if_neg hc', clear?_rack hold (Nat.lt_of_not_le hc),
          Option.bind_eq_bind, Option.bind_some]
        rcases l.dropAfter (e.index - 1) store with ⟨x | ⟨⟩, l', store'⟩
        · rfl
        · exact place?_rack e l' store'

lemma acceptAll?_rack (es : List Entry) (l : Log μ) (store : σ) :
    (l.rack store).acceptAll? es = some (racked (l.acceptAll es store)) := by
  induction es generalizing l store with
  | nil => rfl
  | cons e es ih =>
    rw [Rack.acceptAll?, acceptAll, accept?_rack, Option.bind_eq_bind, Option.bind_some]
    rcases l.accept e store with ⟨x | ⟨⟩, l', store'⟩
    · rfl
    · exact ih l' store'

omit [LogStore σ] in
lemma fits?_rack (current : Term) (b : Batch) (l : Log μ) (store : σ) :
    (l.rack store).fits? current b = some (l.fits current b) := by
  rw [Rack.fits?, fits]
  by_cases ht : b.term < current
  · rw [if_pos ht, if_pos ht]
  rw [if_neg ht, if_neg ht, sub?_slots, Option.bind_eq_bind, Option.bind_some]
  by_cases hp : l.lastIndex < b.prevIndex
  · rw [if_pos hp, if_pos hp]
    rfl
  rw [if_neg hp, if_neg hp]
  have hlt : b.prevIndex < l.slots.length := Nat.lt_succ_of_le (Nat.le_of_not_lt hp)
  have hget : (l.rack store).slots[b.prevIndex]? = some l.slots[b.prevIndex] :=
    List.getElem?_eq_getElem hlt
  have hterm : l.termAt b.prevIndex = l.slots[b.prevIndex].term := by
    rw [termAt, entry?, List.getElem?_eq_getElem hlt]
  rw [hget, Option.bind_eq_bind, Option.bind_some, hterm]
  split <;> rfl

/-- Whatever is asked of the slots of a log has a result, and it is that of the log. -/
lemma follow?_rack [Machine μ] (current : Term) (b : Batch) (l : Log (Journal μ)) (store : σ) :
    (l.rack store).follow? current b = some (racked (l.follow current b store)) := by
  rw [Rack.follow?, follow, fits?_rack, Option.bind_eq_bind, Option.bind_some]
  rcases l.fits current b with x | ⟨⟩
  · rfl
  · simp only [acceptAll?_rack]
    rcases l.acceptAll b.entries store with ⟨x | ⟨⟩, l', store'⟩
    · rfl
    · show some
          (Except.ok (), Rack.mk l'.slots (max l'.commit (min b.commit l'.lastIndex)) store') =
        some (racked (Except.ok (), l'.commitTo (min b.commit l'.lastIndex), store'))
      simp [racked, rack, slots]

end Log

/-! ### Storage that fails at will -/

/-- Storage of which some appends and truncations fail before they have done anything. -/
structure Fitful (σ : Type) where
  store : σ
  /-- Whether the next one fails, the one after it, … -/
  fails : ℕ → Bool

namespace Fitful

variable {σ α : Type}

/-- An operation on the log, unless it is to fail. -/
def onLog (op : σ → Except StorageError α × σ) (f : Fitful σ) :
    Except StorageError α × Fitful σ :=
  let later := fun i => f.fails (i + 1)
  if f.fails 0 then (.error (.io .other), ⟨f.store, later⟩)
  else Prod.map id (fun store => ⟨store, later⟩) (op f.store)

instance [LogStore σ] : LogStore (Fitful σ) where
  append e := onLog (LogStore.append e)
  readAll f := Prod.map id (fun store => { f with store }) (LogStore.readAll f.store)
  truncate k := onLog (LogStore.truncate k)
  last f := LogStore.last f.store

instance [BallotStore σ] : BallotStore (Fitful σ) where
  readBallot f := Prod.map id (fun store => { f with store }) (BallotStore.readBallot f.store)
  writeBallot b f := Prod.map id (fun store => { f with store }) (BallotStore.writeBallot b f.store)

instance [Reopen σ] : Reopen (Fitful σ) where
  reopen f := Prod.map id (fun store => { f with store }) (Reopen.reopen f.store)

lemma onLog_cases {op : σ → Except StorageError α × σ} {f f' : Fitful σ}
    {r : Except StorageError α} (h : f.onLog op = (r, f')) :
    ((∃ x, r = .error x) ∧ f'.store = f.store) ∨ op f.store = (r, f'.store) := by
  unfold onLog at h
  split at h
  · obtain ⟨rfl, rfl⟩ := Prod.mk.inj h
    exact Or.inl ⟨⟨_, rfl⟩, rfl⟩
  · obtain ⟨rfl, rfl⟩ := Prod.mk.inj h
    exact Or.inr rfl

lemma of_map {out : α × σ} {f f' : Fitful σ} {r : α}
    (h : Prod.map id (fun store => { f with store }) out = (r, f')) : out = (r, f'.store) := by
  obtain ⟨rfl, rfl⟩ := Prod.mk.inj h
  rfl

variable [LogStore σ] [BallotStore σ] [Reopen σ] [LawfulStore σ]

instance : LawfulStore (Fitful σ) where
  contents f := contents f.store
  append_ok h := by
    rcases onLog_cases h with ⟨⟨x, hx⟩, -⟩ | h
    · cases hx
    · exact append_ok h
  append_error h := by
    rcases onLog_cases h with ⟨-, hs⟩ | h
    · rw [hs]
    · exact append_error h
  readAll_ok h := readAll_ok (of_map h)
  readAll_error h := readAll_error (of_map h)
  truncate_ok h := by
    rcases onLog_cases h with ⟨⟨x, hx⟩, -⟩ | h
    · cases hx
    · exact truncate_ok h
  truncate_error h := by
    rcases onLog_cases h with ⟨-, hs⟩ | h
    · rw [hs]
    · exact truncate_error h
  readBallot_ok h := readBallot_ok (of_map h)
  readBallot_error h := readBallot_error (of_map h)
  writeBallot_ok h := writeBallot_ok (of_map h)
  writeBallot_error h := writeBallot_error (of_map h)
  reopen_eq h := reopen_eq (of_map h)

end Fitful

/-! ### Runs -/

namespace Log

variable {μ σ : Type} [LogStore σ] [BallotStore σ] [Reopen σ] [LawfulStore σ] {store : σ}

/-- What storage reads is the log, if it holds what the log holds. -/
lemma restore_of_mirrors {es : List Entry} (hn : Numbered es)
    (hs : (contents store).records = es) (machine : μ) :
    restore machine store =
      match LogStore.readAll store with
      | (.error e, store) => (.error e, store)
      | (.ok _, store) => (.ok { entries := es, machine }, store) := by
  rw [restore]
  rcases hread : LogStore.readAll store with ⟨e | records, store'⟩
  · rfl
  · obtain ⟨rfl, -⟩ := readAll_ok hread
    rw [hs]
    simp only [inSequence_eq hn]

end Log

namespace Node

variable {σ μ : Type} [LogStore σ] [BallotStore σ] [Reopen σ] [LawfulStore σ] [Machine μ]
variable {n : Node σ (Journal μ)}

/-- The log of a member as it stands in memory. -/
def rack (n : Node σ μ) : Rack σ := n.log.rack n.store

omit [BallotStore σ] [Reopen σ] [LawfulStore σ] in
lemma write_rack {t : Term} (ht : n.leaderTerm = some t) (payload : Bytes) :
    (n.carryOut (.write payload)).rack = (n.rack.write t payload).2 := by
  show (n.write payload).2.rack = _
  have happ : Rack.write t payload n.rack =
      match LogStore.append ⟨t, n.log.size, payload⟩ n.store with
      | (.error x, store) => (.error x, { n.rack with store })
      | (.ok _, store) =>
        (.ok (), { n.rack with slots := n.log.slots ++ [⟨t, n.log.size, payload⟩], store }) := rfl
  rw [happ]
  simp only [write, ht]
  rcases Log.push_cases ⟨t, n.log.size, payload⟩ n.log n.store with
    ⟨i, store', ha, hp⟩ | ⟨x, store', ha, hp⟩ <;> simp only [ha, hp] <;> rfl

/-- Storage holds the entries of the log, and these are in order. -/
structure Mirrors (n : Node σ (Journal μ)) : Prop where
  steady : n.log.Steady
  stored : (contents n.store).records = n.log.entries

/-- Each operation changes storage and memory alike. -/
lemma carryOut_mirrors (h : n.Mirrors) (task : Task) : (n.carryOut task).Mirrors := by
  refine ⟨((carryOut_shifts h.steady task).steady h.steady).1, ?_⟩
  cases task with
  | write payload =>
    show (contents (n.write payload).2.store).records = (n.write payload).2.log.entries
    unfold write
    split
    · exact h.stored
    · rename_i t _
      dsimp only
      rcases Log.push_cases ⟨t, n.log.size, payload⟩ n.log n.store with
        ⟨i, store', happ, hp⟩ | ⟨x, store', happ, hp⟩ <;> rw [hp]
      · exact (congrArg Memory.records (Log.contents_append happ)).trans (by rw [h.stored])
      · exact (congrArg Memory.records (append_error happ)).trans h.stored
  | settle w =>
    show (contents (n.settle w).store).records = (n.settle w).log.entries
    unfold settle
    split
    · rw [tryCommit_store, tryCommit_entries]
      exact h.stored
    · exact h.stored
  | follow b =>
    have hf := Log.follow_stored h.steady.numbered h.steady.commit_le h.stored n.term b
    exact congrArg Memory.records hf
  | tryCommit => simpa [carryOut] using h.stored
  | apply => simpa [carryOut] using h.stored
  | giveUp | failWaits | turn => exact h.stored

lemma carryOutAll_mirrors (h : n.Mirrors) (tasks : List Task) : (n.carryOutAll tasks).Mirrors := by
  induction tasks generalizing n with
  | nil => exact h
  | cons task tasks ih => exact ih (carryOut_mirrors h task)

/-- **Memory and storage mirror each other** from the time a log is opened on records in order, over
any run of operations, whichever appends and truncations fail. The sentinel is in the first slot,
the entry in each slot is the one for it, and storage holds what is in the slots behind the first.
From there the slots change as the log does when a command is added or a batch is taken in, whatever
is in it: no difference is below zero, and no slot that is looked into is missing. And if storage
can be read, a log that is opened anew is the one that there was. -/
theorem mirrored {machine : μ} {store : σ}
    (hopen : Log.restore ⟨machine, []⟩ store = (.ok n.log, n.store))
    (hnum : Numbered (contents store).records) (tasks : List Task) :
    let n' := n.carryOutAll tasks
    n'.rack.slots[0]? = some .sentinel ∧
      (∀ (i : ℕ) (e : Entry), n'.rack.slots[i]? = some e → e.index = i) ∧
      (contents n'.store).records = n'.rack.slots.tail ∧
      (∀ t payload, n'.leaderTerm = some t →
        (n'.rack.write t payload).2 = (n'.carryOut (.write payload)).rack) ∧
      (∀ b : Log.Batch, n'.rack.follow? n'.term b =
        some ((n'.log.follow n'.term b n'.store).1, (n'.carryOut (.follow b)).rack)) ∧
      ∀ machine' : Journal μ, Log.restore machine' n'.store =
        match LogStore.readAll n'.store with
        | (.error e, store) => (.error e, store)
        | (.ok _, store) => (.ok { entries := n'.log.entries, machine := machine' }, store) := by
  intro n'
  have hstart : n.Mirrors := by
    obtain ⟨es, hes, hl⟩ := Log.restore_ok hopen
    refine ⟨?_, ?_⟩
    · rw [hl]
      exact ⟨hes, le_rfl, Nat.zero_le _, rfl⟩
    · rw [Log.restore_of_mirrors hnum rfl] at hopen
      rcases hread : LogStore.readAll store with ⟨e | records, store'⟩ <;> rw [hread] at hopen
      · cases (Prod.mk.inj hopen).1
      · obtain ⟨-, hc⟩ := readAll_ok hread
        obtain ⟨hlog, hstore⟩ := Prod.mk.inj hopen
        have hstore' : store' = n.store := hstore
        rw [← Except.ok.inj hlog, ← hstore', hc]
  have hm : n'.Mirrors := carryOutAll_mirrors hstart tasks
  refine ⟨rfl, fun i e he => ?_, hm.stored, fun t payload ht => (write_rack ht payload).symm,
    fun b => Log.follow?_rack n'.term b n'.log n'.store,
    Log.restore_of_mirrors hm.steady.numbered hm.stored⟩
  cases i with
  | zero =>
    obtain rfl := Option.some.inj he
    rfl
  | succ i => exact hm.steady.numbered i e he

/-- A member that was opened on two records. The first operation on its storage will fail, and the
third one. -/
def moody : Node (Fitful Memory) (Journal Kv) where
  config := ⟨1, [1, 2], {}⟩
  store := ⟨{ records := [⟨1, 1, [0]⟩, ⟨1, 2, [1]⟩] }, fun i => i == 0 || i == 2⟩
  standing := {}
  log := { entries := [⟨1, 1, [0]⟩, ⟨1, 2, [1]⟩], machine := ⟨⟨[]⟩, []⟩ }

/-- Twice it is sent an entry that replaces the second one: storage fails to drop that one, and then
to add the new one. It is sent one for the sentinel's place. Then it leads and takes a command. -/
def moods : List Task :=
  [.turn ⟨⟨2, none⟩, .follower⟩ [], .follow ⟨2, 1, 1, [⟨2, 2, [9]⟩], 0⟩,
    .follow ⟨2, 1, 1, [⟨2, 2, [9]⟩], 0⟩, .follow ⟨2, 0, 0, [⟨2, 0, [9]⟩], 7⟩,
    .turn ⟨⟨3, some 1⟩, .leader⟩ [], .write [5]]

/-- The second entry has given way to the command, in memory and in storage. -/
theorem mirrored_moody :
    Log.restore (⟨⟨[]⟩, []⟩ : Journal Kv) moody.store = (.ok moody.log, moody.store) ∧
      Numbered (contents moody.store).records ∧
      let n' := moody.carryOutAll moods
      n'.rack.slots = [.sentinel, ⟨1, 1, [0]⟩, ⟨3, 2, [5]⟩] ∧
        (contents n'.store).records = n'.rack.slots.tail ∧
        Log.restore (⟨⟨[]⟩, []⟩ : Journal Kv) n'.store =
          (.ok { entries := n'.log.entries, machine := ⟨⟨[]⟩, []⟩ }, n'.store) := by
  have hopen : Log.restore (⟨⟨[]⟩, []⟩ : Journal Kv) moody.store =
      (.ok moody.log, moody.store) := rfl
  have hnum : Numbered (contents moody.store).records :=
    (Numbered.nil.snoc (e := ⟨1, 1, [0]⟩) rfl).snoc (e := ⟨1, 2, [1]⟩) rfl
  obtain ⟨-, -, hstored, -, -, hagain⟩ := mirrored hopen hnum moods
  exact ⟨hopen, hnum, rfl, hstored, hagain ⟨⟨[]⟩, []⟩⟩

end Node

end Quorum
