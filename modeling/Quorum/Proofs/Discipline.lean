import Mathlib.Logic.Relation
import Quorum.Proofs.Members

/-!
The discipline of one log: what is committed stays, and the machine is given exactly what is
committed, in order, whatever the log is asked to do.

An operation on a log is a chain of four kinds of small changes (`Log.Shift`): waits change, entries
behind the commit index change, the commit index moves forward within the log, and the next
committed entry goes to the machine. A shift keeps a log in order (`Log.Steady`) and takes nothing
back (`Log.Onward`), and so does every run of operations, however storage and the machine fail.
-/

namespace Quorum

open Relation

namespace Log

variable {μ : Type} {l l' l'' : Log (Journal μ)}

/-- What is applied is committed, what is committed is in the log, and the machine was given exactly
what is applied. -/
structure Steady (l : Log (Journal μ)) : Prop where
  numbered : Numbered l.entries
  applied_le : l.applied ≤ l.commit
  commit_le : l.commit ≤ l.entries.length
  given : l.machine.given = l.entries.take l.applied

/-- Nothing that was committed or applied is taken back. -/
structure Onward (l l' : Log (Journal μ)) : Prop where
  commit_le : l.commit ≤ l'.commit
  applied_le : l.applied ≤ l'.applied
  kept : l'.entries.take l.commit = l.entries.take l.commit

namespace Onward

lemma refl (l : Log (Journal μ)) : Onward l l := ⟨le_rfl, le_rfl, rfl⟩

lemma trans (h : Onward l l') (h' : Onward l' l'') : Onward l l'' where
  commit_le := h.commit_le.trans h'.commit_le
  applied_le := h.applied_le.trans h'.applied_le
  kept := by
    have hmin := min_eq_left h.commit_le
    calc l''.entries.take l.commit
        = (l''.entries.take l'.commit).take l.commit := by rw [List.take_take, hmin]
      _ = (l'.entries.take l'.commit).take l.commit := by rw [h'.kept]
      _ = l'.entries.take l.commit := by rw [List.take_take, hmin]
      _ = l.entries.take l.commit := h.kept

end Onward

/-- An entry is added at the end. -/
lemma Steady.reshapes_snoc (h : l.Steady) (t : Term) (payload : Bytes) :
    Reshapes l { l with entries := l.entries ++ [⟨t, l.size, payload⟩] } where
  eq := rfl
  numbered := h.numbered.snoc rfl
  commit_le := by
    have := h.commit_le
    rw [List.length_append]
    lia
  committed := List.take_append_of_le_length h.commit_le

variable [Machine μ]

/-- The small changes that every operation on a log is made of. -/
inductive Shift : Log (Journal μ) → Log (Journal μ) → Prop
  | waits (l : Log (Journal μ)) (ws : Waits) : Shift l { l with waits := ws }
  | reshapes {l l' : Log (Journal μ)} : Reshapes l l' → Shift l l'
  | commits {l : Log (Journal μ)} {i : ℕ} : l.commit ≤ i → i ≤ l.entries.length →
      Shift l { l with commit := i }
  | applies {l : Log (Journal μ)} {e : Entry} : l.applied < l.commit →
      l.entries[l.applied]? = some e → Shift l (l.applyNext e)

/-- A chain of small changes. -/
abbrev Shifts : Log (Journal μ) → Log (Journal μ) → Prop := ReflTransGen Shift

lemma Shift.steady (hs : l.Shift l') (h : l.Steady) : l'.Steady ∧ Onward l l' := by
  cases hs with
  | waits =>
    exact ⟨⟨h.numbered, h.applied_le, h.commit_le, h.given⟩, ⟨le_rfl, le_rfl, rfl⟩⟩
  | reshapes hr =>
    have ha : l'.applied = l.applied := by rw [hr.eq]
    have hm : l'.machine = l.machine := by rw [hr.eq]
    refine ⟨⟨hr.numbered, ?_, ?_, ?_⟩, ⟨hr.commit_eq.ge, ha.ge, hr.committed⟩⟩
    · rw [ha, hr.commit_eq]
      exact h.applied_le
    · rw [hr.commit_eq]
      exact hr.commit_le
    · have happ := congrArg (List.take l.applied) hr.committed
      rw [List.take_take, List.take_take, min_eq_left h.applied_le] at happ
      rw [hm, ha, h.given, happ]
  | commits hc hi =>
    exact ⟨⟨h.numbered, h.applied_le.trans hc, hi, h.given⟩, ⟨hc, le_rfl, rfl⟩⟩
  | @applies e hlt he =>
    refine ⟨⟨h.numbered, hlt, h.commit_le, ?_⟩, ⟨le_rfl, Nat.le_succ _, rfl⟩⟩
    show l.machine.given ++ [e] = l.entries.take (l.applied + 1)
    rw [List.take_add_one, he, h.given]
    rfl

lemma Shifts.steady (hs : l.Shifts l') (h : l.Steady) : l'.Steady ∧ Onward l l' := by
  induction hs with
  | refl => exact ⟨h, .refl l⟩
  | tail _ hlast ih =>
    obtain ⟨hmid, hon⟩ := ih
    obtain ⟨hend, hon'⟩ := hlast.steady hmid
    exact ⟨hend, hon.trans hon'⟩

/-! ### Operations are made of small changes -/

/-- Applying is done one entry at a time. -/
lemma applyCommitted_shifts (l : Log (Journal μ)) : l.Shifts l.applyCommitted := by
  have key : ∀ (es : List Entry) (l : Log (Journal μ)), es <+: l.entries.drop l.applied →
      es.length ≤ l.commit - l.applied → l.Shifts (es.foldl applyNext l) := by
    intro es
    induction es with
    | nil => exact fun l _ _ => .refl
    | cons e es ih =>
      intro l hpre hlen
      have hlt : l.applied < l.commit := by
        rw [List.length_cons] at hlen
        lia
      obtain ⟨rest, hrest⟩ := hpre
      have he : l.entries[l.applied]? = some e := by
        have := congrArg List.head? hrest
        rwa [List.head?_drop, eq_comm] at this
      have hdrop : l.entries.drop (l.applied + 1) = es ++ rest := by
        rw [← List.tail_drop, ← hrest]
        rfl
      have hmore : es.length ≤ l.commit - (l.applied + 1) := by
        rw [List.length_cons] at hlen
        lia
      exact (ih (l.applyNext e) ⟨rest, hdrop.symm⟩ hmore).head (.applies hlt he)
  exact key _ l (List.take_prefix _ _) (List.length_take_le _ _)

lemma commitTo_shifts {i : ℕ} (hi : i ≤ l.entries.length) : l.Shifts (l.commitTo i) := by
  unfold commitTo
  split
  · rename_i hlt
    have hmove : l.Shift { l with commit := i } := .commits (Nat.le_of_lt hlt) hi
    exact (applyCommitted_shifts _).head hmove
  · exact .refl

variable {σ : Type} [LogStore σ]

/-- Whatever a batch holds, it changes entries behind the commit index only, and the commit index
then moves no further than the log reaches. -/
lemma follow_shifts (h : l.Steady) (current : Term) (b : Batch) (store : σ) :
    l.Shifts (l.follow current b store).2.1 := by
  have hall := acceptAll_reshapes b.entries store h.numbered h.commit_le
  unfold follow
  split
  · exact .refl
  · split <;> rename_i heq <;> rw [heq] at hall
    · exact .single (.reshapes hall)
    · exact (commitTo_shifts (Nat.min_le_right _ _)).head (.reshapes hall)

lemma follow_steady (h : l.Steady) (current : Term) (b : Batch) (store : σ) :
    (l.follow current b store).2.1.Steady := ((follow_shifts h current b store).steady h).1

end Log

/-! ### Runs -/

/-- What is asked of a log; or its member comes to stand otherwise, or to think otherwise of the
others' logs, for reasons of its own. An append is a `write`, a `settle` and perhaps a `giveUp`, and
anything may come between. -/
inductive Task
  | write (payload : Bytes)
  | settle (w : Written)
  | giveUp (w : Written)
  | follow (b : Log.Batch)
  | tryCommit
  | apply
  | failWaits
  | turn (standing : Standing) (progress : ProgressTable)

namespace Node

variable {σ μ : Type} [LogStore σ] [Machine μ]

def carryOut (n : Node σ (Journal μ)) : Task → Node σ (Journal μ)
  | .write payload => (n.write payload).2
  | .settle w => n.settle w
  | .giveUp w => n.giveUp w
  | .follow b =>
    match n.log.follow n.term b n.store with
    | (_, log, store) => { n with log, store }
  | .tryCommit => n.tryCommit
  | .apply => { n with log := n.log.applyCommitted }
  | .failWaits => { n with log := n.log.failWaits }
  | .turn standing progress => { n with standing, progress }

def carryOutAll (n : Node σ (Journal μ)) (tasks : List Task) : Node σ (Journal μ) :=
  tasks.foldl carryOut n

variable {n : Node σ (Journal μ)}

omit [LogStore σ] in
lemma tryCommit_shifts (h : n.log.Steady) : n.log.Shifts n.tryCommit.log := by
  rcases tryCommit_cases h.numbered with ⟨hc, -⟩ | ⟨i, -, hi, -, hc⟩
  · rw [hc]
  · rw [hc]
    exact Log.commitTo_shifts hi.le

lemma write_shifts (h : n.log.Steady) (payload : Bytes) :
    n.log.Shifts (n.write payload).2.log := by
  unfold write
  split
  · exact .refl
  · rename_i t _
    dsimp only
    rcases Log.push_cases ⟨t, n.log.size, payload⟩ n.log n.store with
      ⟨i, store', -, hp⟩ | ⟨x, store', -, hp⟩
    · rw [hp]
      exact (ReflTransGen.single (.waits _ _)).head (.reshapes (h.reshapes_snoc t payload))
    · rw [hp]

lemma carryOut_shifts (h : n.log.Steady) (task : Task) : n.log.Shifts (n.carryOut task).log := by
  cases task with
  | write payload => exact write_shifts h payload
  | settle w =>
    show n.log.Shifts (n.settle w).log
    unfold settle
    split
    · exact tryCommit_shifts (n := callRounds { n with
        progress := n.progress.advance n.id w.index }) h
    · exact .single (.waits _ _)
  | giveUp w => exact .single (.waits _ _)
  | follow b => exact Log.follow_shifts h n.term b n.store
  | tryCommit => exact tryCommit_shifts h
  | apply => exact Log.applyCommitted_shifts _
  | failWaits => exact .single (.waits _ _)
  | turn standing progress => exact .refl

/-- A run of operations keeps a log in order and takes nothing back. -/
lemma carryOutAll_steady (tasks : List Task) (h : n.log.Steady) :
    (n.carryOutAll tasks).log.Steady ∧ n.log.Onward (n.carryOutAll tasks).log := by
  induction tasks generalizing n with
  | nil => exact ⟨h, .refl _⟩
  | cons task tasks ih =>
    obtain ⟨hone, hon⟩ := (carryOut_shifts h task).steady h
    obtain ⟨hall, hon'⟩ := ih hone
    exact ⟨hall, hon.trans hon'⟩

/-- **The discipline of a log** from the time it is restored: what is applied is committed and what
is committed is in the log, both only grow, a committed entry stays what it is, and the machine was
given the first entries of the log up to the last one applied, each once and in order. -/
theorem commit_discipline {machine : μ} {store store' : σ}
    (h : Log.restore ⟨machine, []⟩ store = (.ok n.log, store')) (tasks later : List Task) :
    let l := (n.carryOutAll tasks).log
    let l' := (n.carryOutAll (tasks ++ later)).log
    (l.applied ≤ l.commit ∧ l.commit ≤ l.lastIndex) ∧
      (l.commit ≤ l'.commit ∧ l.applied ≤ l'.applied) ∧
      (∀ i ≤ l.commit, l'.entry? i = l.entry? i) ∧
      l.machine.given = l.entries.take l.applied ∧ Numbered l.machine.given := by
  intro l l'
  have hstart : n.log.Steady := by
    obtain ⟨es, hes, hl⟩ := Log.restore_ok h
    rw [hl]
    exact ⟨hes, le_rfl, Nat.zero_le _, rfl⟩
  obtain ⟨hl, -⟩ := carryOutAll_steady tasks hstart
  obtain ⟨-, hon⟩ := carryOutAll_steady later hl
  have hl' : l' = ((n.carryOutAll tasks).carryOutAll later).log := by
    show (n.carryOutAll (tasks ++ later)).log = _
    unfold carryOutAll
    rw [List.foldl_append]
  rw [← hl'] at hon
  refine ⟨⟨hl.applied_le, hl.commit_le⟩, ⟨hon.commit_le, hon.applied_le⟩, fun i hi => ?_, hl.given,
    ?_⟩
  · refine Log.entry?_eq_of_take_eq ?_
    have hkept := congrArg (List.take i) hon.kept
    rwa [List.take_take, List.take_take, min_eq_left hi] at hkept
  · rw [hl.given]
    exact hl.numbered.take _

/-- The only member of its cluster, just started in memory. -/
def alone : Node Memory (Journal Kv) :=
  { config := ⟨1, [1], {}⟩, store := {}, standing := {}, log := { machine := ⟨⟨[]⟩, []⟩ } }

/-- It leads, commits one command and takes another that it may not count for itself. -/
def halfway : List Task :=
  [.turn ⟨⟨1, some 1⟩, .leader⟩ [], .write [0], .settle ⟨1, 1, 0⟩, .write [1]]

/-- It follows, and is sent entries out of order that contradict both of its own. -/
def contradicted : List Task :=
  [.turn ⟨⟨2, none⟩, .follower⟩ [], .follow ⟨2, 0, 0, [⟨2, 2, [2]⟩, ⟨2, 1, [3]⟩], 9⟩]

/-- The committed command stays, and the other one gives way. -/
theorem commit_discipline_contradicted :
    Log.restore ⟨⟨[]⟩, []⟩ ({} : Memory) = (.ok alone.log, {}) ∧
      (alone.carryOutAll halfway).log.commit = 1 ∧
      (alone.carryOutAll (halfway ++ contradicted)).log.entry? 1 = some ⟨1, 1, [0]⟩ ∧
      (alone.carryOutAll (halfway ++ contradicted)).log.entry? 2 = some ⟨2, 2, [2]⟩ := by
  have hstart : Log.restore ⟨⟨[]⟩, []⟩ ({} : Memory) = (.ok alone.log, {}) := rfl
  obtain ⟨-, -, hkept, -⟩ := commit_discipline hstart halfway contradicted
  refine ⟨hstart, rfl, ?_, rfl⟩
  rw [hkept 1 (by decide)]
  rfl

end Node

end Quorum
