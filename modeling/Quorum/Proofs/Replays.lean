import Mathlib.Data.List.Sort
import Mathlib.Data.String.Basic
import Quorum.Proofs.Commands
import Quorum.Proofs.Discipline

/-!
Entries that a store is given again.

A log that is opened again has applied nothing, so its machine is given the committed entries from
the first one, also those it was given before. For the key-value store this makes no difference:
what stands under a key is what the last entry that names the key says (`Kv.get?_replay_iff`), and
stores that agree on every key are the same (`Kv.Sorted.ext`).
-/

namespace Quorum

variable {μ : Type}

/-- A machine that was given some entries in order. -/
def Machine.replay [Machine μ] (es : List Entry) (m : μ) : μ :=
  es.foldl (fun m e => Machine.apply e m) m

open Machine (replay)

lemma Machine.replay_append [Machine μ] (es fs : List Entry) (m : μ) :
    replay (es ++ fs) m = replay fs (replay es m) := List.foldl_append

/-! ### Stores as sets of pairs -/

namespace Kv

variable {kv kv' : Kv} {e : Entry} {es p : List Entry} {j : String} {v : Option String}

/-- The keys are in order, each of them once. -/
def Sorted (kv : Kv) : Prop := kv.pairs.Pairwise fun x y => x.1 < y.1

lemma mem_insertPair {k w : String} {ps : List (String × String)} {x : String × String}
    (hx : x ∈ insertPair k w ps) : x = (k, w) ∨ x ∈ ps := by
  induction ps with
  | nil => exact Or.inl (List.mem_singleton.mp hx)
  | cons q ps ih =>
    unfold insertPair at hx
    split_ifs at hx
    · exact List.mem_cons.mp hx
    · exact (List.mem_cons.mp hx).imp_right (List.mem_cons_of_mem _)
    · rcases List.mem_cons.mp hx with rfl | hx
      · exact Or.inr List.mem_cons_self
      · exact (ih hx).imp_right (List.mem_cons_of_mem _)

lemma Sorted.insert (h : kv.Sorted) (k w : String) : (kv.insert k w).Sorted := by
  obtain ⟨ps⟩ := kv
  unfold Sorted Kv.insert at *
  induction ps with
  | nil => exact List.pairwise_singleton _ _
  | cons q ps ih =>
    obtain ⟨hq, hps⟩ := List.pairwise_cons.mp h
    dsimp only [insertPair] at *
    split_ifs with hlt heq
    · refine List.pairwise_cons.mpr ⟨fun x hx => ?_, h⟩
      rcases List.mem_cons.mp hx with rfl | hx
      · exact hlt
      · exact hlt.trans (hq x hx)
    · exact List.pairwise_cons.mpr ⟨fun x hx => heq ▸ hq x hx, hps⟩
    · refine List.pairwise_cons.mpr ⟨fun x hx => ?_, ih hps⟩
      rcases mem_insertPair hx with rfl | hx
      · exact lt_of_le_of_ne (not_lt.mp hlt) heq
      · exact hq x hx

lemma Sorted.run (h : kv.Sorted) (c : Command) : (run c kv).Sorted := by
  cases c with
  | nothing => exact h
  | set key value => exact h.insert _ _
  | delete key => exact List.Pairwise.filter _ h

lemma Sorted.mem_pairs_iff (h : kv.Sorted) {k w : String} :
    (k, w) ∈ kv.pairs ↔ kv.get? k = some w := by
  obtain ⟨ps⟩ := kv
  unfold Sorted at h
  induction ps with
  | nil => simp [get?]
  | cons q ps ih =>
    obtain ⟨i, u⟩ := q
    obtain ⟨hq, hps⟩ := List.pairwise_cons.mp h
    rw [get?_cons, List.mem_cons, Prod.mk.injEq]
    split_ifs with hi
    · constructor
      · rintro (⟨-, rfl⟩ | hx)
        · rfl
        · exact absurd (hq _ hx) (hi ▸ lt_irrefl _)
      · intro hw
        exact Or.inl ⟨hi.symm, (Option.some.inj hw).symm⟩
    · rw [← ih hps]
      exact ⟨fun hx => hx.resolve_left fun hx => hi hx.1.symm, Or.inr⟩

/-- A store is what stands under its keys. -/
lemma Sorted.ext (h : kv.Sorted) (h' : kv'.Sorted) (hget : ∀ j, kv.get? j = kv'.get? j) :
    kv = kv' := by
  have hpairs : kv.pairs = kv'.pairs := by
    refine List.Pairwise.eq_of_mem_iff h h' fun ⟨k, w⟩ => ?_
    rw [h.mem_pairs_iff, h'.mem_pairs_iff, hget]
  cases kv
  cases kv'
  exact congrArg Kv.mk hpairs

/-! ### What entries say of a key -/

/-- The entry holds a command that puts a value under the key or removes the key. -/
inductive Writes (e : Entry) (j : String) : Option String → Prop
  | set (value : List Char) :
      Says e (.set j.toList value) → Writes e j (some (String.ofList value))
  | delete : Says e (.delete j.toList) → Writes e j none

/-- What the last entry that names a key says of it. -/
def LastWrites (es : List Entry) (j : String) (v : Option String) : Prop :=
  ∃ before e after, es = before ++ e :: after ∧ Writes e j v ∧ ∀ f ∈ after, ∀ w, ¬ Writes f j w

def ruling? (j : String) (e : Entry) : Option (Option String) :=
  (commandOf e).toOption.bind (Command.ruling? j)

lemma writes_iff : Writes e j v ↔ ruling? j e = some v := by
  constructor
  · rintro (⟨value, h⟩ | h) <;>
      simp [ruling?, commandOf_eq_ok_iff.mpr h, Except.toOption, Command.ruling?]
  · unfold ruling?
    intro h
    rcases hc : commandOf e with err | c
    · rw [hc] at h
      cases h
    · rw [hc] at h
      have hheld := commandOf_eq_ok_iff.mp hc
      cases c with
      | nothing => cases h
      | set key value =>
        simp only [Except.toOption, Option.bind_some, Command.ruling?] at h
        split_ifs at h with hj
        cases h
        exact .set value (by rwa [← hj, String.toList_ofList])
      | delete key =>
        simp only [Except.toOption, Option.bind_some, Command.ruling?] at h
        split_ifs at h with hj
        cases h
        exact .delete (by rwa [← hj, String.toList_ofList])

lemma forall_not_writes_iff : (∀ w, ¬ Writes e j w) ↔ ruling? j e = none := by
  rw [Option.eq_none_iff_forall_ne_some]
  exact forall_congr' fun w => not_congr writes_iff

lemma machine_apply_of_error {err : Error} (h : kv.apply e = .error err) :
    Machine.apply e kv = kv := by
  simp only [Machine.apply, h]

lemma apply_ok_iff : (∃ kv', kv.apply e = .ok kv') ↔ ∃ c, Says e c := by
  constructor
  · rintro ⟨kv', h⟩
    unfold apply at h
    rcases hc : commandOf e with err | c
    · rw [hc] at h
      cases h
    · exact ⟨c, commandOf_eq_ok_iff.mp hc⟩
  · rintro ⟨c, h⟩
    exact ⟨_, h.apply kv⟩

/-- One entry changes what it names, and only that. -/
lemma get?_machine_apply (e : Entry) (kv : Kv) :
    (Machine.apply e kv).get? j = (ruling? j e).getD (kv.get? j) := by
  rcases hc : commandOf e with err | c
  · simp [Machine.apply, apply, ruling?, hc, Except.toOption]
  · simp [Machine.apply, apply, ruling?, hc, Except.toOption, get?_run]

lemma Sorted.machine_apply (h : kv.Sorted) (e : Entry) : (Machine.apply e kv).Sorted := by
  rcases hc : commandOf e with err | c
  · simpa [Machine.apply, apply, hc] using h
  · simpa [Machine.apply, apply, hc] using h.run c

lemma sorted_replay (h : kv.Sorted) (es : List Entry) : (replay es kv).Sorted := by
  induction es generalizing kv with
  | nil => exact h
  | cons e es ih => exact ih (h.machine_apply e)

lemma get?_replay_of_silent (h : ∀ f ∈ es, ruling? j f = none) (kv : Kv) :
    (replay es kv).get? j = kv.get? j := by
  induction es generalizing kv with
  | nil => rfl
  | cons e es ih =>
    have hrest := ih (fun f hf => h f (List.mem_cons_of_mem _ hf)) (Machine.apply e kv)
    rw [get?_machine_apply, h e List.mem_cons_self] at hrest
    exact hrest

lemma get?_replay_of_lastWrites (h : LastWrites es j v) (kv : Kv) :
    (replay es kv).get? j = v := by
  obtain ⟨before, e, after, rfl, he, hafter⟩ := h
  have hsilent := get?_replay_of_silent (fun f hf => forall_not_writes_iff.mp (hafter f hf))
    (Machine.apply e (replay before kv))
  rw [get?_machine_apply, writes_iff.mp he] at hsilent
  rw [Machine.replay_append]
  exact hsilent

/-- Either no entry names a key, or one of them is the last to do so. -/
lemma silent_or_lastWrites (es : List Entry) (j : String) :
    (∀ f ∈ es, ruling? j f = none) ∨ ∃ v, LastWrites es j v := by
  induction es using List.reverseRecOn with
  | nil => exact Or.inl fun f hf => (List.not_mem_nil hf).elim
  | append_singleton es e ih =>
    rcases he : ruling? j e with _ | v
    · rcases ih with ih | ⟨v, before, f, after, rfl, hf, hafter⟩
      · left
        intro f hf
        rcases List.mem_append.mp hf with hf | hf
        · exact ih f hf
        · exact List.mem_singleton.mp hf ▸ he
      · refine Or.inr ⟨v, before, f, after ++ [e], by simp, hf, fun g hg => ?_⟩
        rcases List.mem_append.mp hg with hg | hg
        · exact hafter g hg
        · exact List.mem_singleton.mp hg ▸ forall_not_writes_iff.mpr he
    · exact Or.inr ⟨v, es, e, [], rfl, writes_iff.mpr he, fun f hf => (List.not_mem_nil hf).elim⟩

/-- The value of a key is decided by the last entry that names it. -/
lemma get?_replay_iff :
    (replay es kv).get? j = v ↔
      LastWrites es j v ∨ (∀ f ∈ es, ∀ w, ¬ Writes f j w) ∧ kv.get? j = v := by
  constructor
  · intro h
    rcases silent_or_lastWrites es j with hsilent | ⟨w, hw⟩
    · exact Or.inr ⟨fun f hf => forall_not_writes_iff.mpr (hsilent f hf),
        (get?_replay_of_silent hsilent kv).symm.trans h⟩
    · rw [get?_replay_of_lastWrites hw] at h
      exact Or.inl (h ▸ hw)
  · rintro (h | ⟨hsilent, h⟩)
    · exact get?_replay_of_lastWrites h kv
    · exact (get?_replay_of_silent (fun f hf => forall_not_writes_iff.mp (hsilent f hf)) kv).trans h

/-- Entries that come again anyway may have been given before. -/
lemma replay_replay (h : kv.Sorted) (hsub : p ⊆ es) :
    replay es (replay p kv) = replay es kv := by
  refine (sorted_replay (sorted_replay h p) es).ext (sorted_replay h es) fun j => ?_
  rcases silent_or_lastWrites es j with hsilent | ⟨v, hv⟩
  · rw [get?_replay_of_silent hsilent, get?_replay_of_silent hsilent,
      get?_replay_of_silent fun f hf => hsilent f (hsub hf)]
  · rw [get?_replay_of_lastWrites hv, get?_replay_of_lastWrites hv]

end Kv

/-! ### The machine of a log -/

section Running

variable {σ : Type} [Machine μ] [LogStore σ] {l l' : Log (Journal μ)} {n : Node σ (Journal μ)}
  {start : μ}

/-- The machine is as if the entries in the journal had been given to it one after the other. -/
def Journal.Replays (start : μ) (j : Journal μ) : Prop := j.machine = replay j.given start

lemma Log.Shift.replays (hs : l.Shift l') (h : l.machine.Replays start) :
    l'.machine.Replays start := by
  cases hs with
  | waits => exact h
  | reshapes hr =>
    rw [hr.eq]
    exact h
  | commits => exact h
  | @applies e =>
    show Machine.apply e l.machine.machine = replay (l.machine.given ++ [e]) start
    rw [Machine.replay_append, ← h]
    rfl

lemma Log.Shifts.replays (hs : l.Shifts l') (h : l.machine.Replays start) :
    l'.machine.Replays start := by
  induction hs with
  | refl => exact h
  | tail _ hlast ih => exact hlast.replays ih

lemma Node.carryOutAll_replays (tasks : List Task) (hn : n.log.Steady)
    (h : n.log.machine.Replays start) : (n.carryOutAll tasks).log.machine.Replays start := by
  induction tasks generalizing n with
  | nil => exact h
  | cons task tasks ih =>
    have hshifts := carryOut_shifts hn task
    exact ih (hshifts.steady hn).1 (hshifts.replays h)

end Running

namespace Kv

/-- **A store may be given again what it was given before.** Entries that begin as those do which a
store has seen leave it as if it had seen nothing before. An entry that is refused changes nothing,
and those that are not refused are those that hold a command. Under a key stands what the last
command that names the key says. So a log that is opened again with a store that has seen some of
its first entries has, as soon as these are applied, the store of a log whose store was new. -/
theorem replay_tolerated {σ : Type} [LogStore σ] (es : List Entry) :
    (∀ p, p <+: es → replay es (replay p {}) = replay es ({} : Kv)) ∧
      (∀ (e : Entry) (kv : Kv), (∀ err, kv.apply e = .error err → Machine.apply e kv = kv) ∧
        ((∃ kv', kv.apply e = .ok kv') ↔ ∃ c, Says e c)) ∧
      (∀ (kv : Kv) j v, (replay es kv).get? j = v ↔
        LastWrites es j v ∨ (∀ f ∈ es, ∀ w, ¬ Writes f j w) ∧ kv.get? j = v) ∧
      ∀ (p : List Entry) (n : Node σ (Journal Kv)) (store store' : σ) (tasks : List Task),
        Log.restore ⟨replay p {}, []⟩ store = (.ok n.log, store') →
        let l := (n.carryOutAll tasks).log
        p <+: l.entries.take l.applied →
          l.machine.machine = replay (l.entries.take l.applied) {} := by
  have hempty : Sorted {} := List.Pairwise.nil
  refine ⟨fun p hp => replay_replay hempty hp.subset,
    fun e kv => ⟨fun err => machine_apply_of_error, apply_ok_iff⟩,
    fun kv j v => get?_replay_iff, fun p n store store' tasks h => ?_⟩
  intro l hp
  have hstart : n.log.Steady ∧ n.log.machine.Replays (replay p {}) := by
    obtain ⟨es, hes, hl⟩ := Log.restore_ok h
    rw [hl]
    exact ⟨⟨hes, le_rfl, Nat.zero_le _, rfl⟩, rfl⟩
  have hsteady := (Node.carryOutAll_steady tasks hstart.1).1
  have hreplays := Node.carryOutAll_replays tasks hstart.1 hstart.2
  rw [hreplays, hsteady.given]
  exact replay_replay hempty hp.subset

/-- Two commands, an unknown one, a payload that is no text, a blank one, and a deletion. -/
def mixed : List Entry :=
  [(Command.set ['a'] ['1']).entry 1 1, (Command.set ['b'] ['2']).entry 1 2,
    ⟨1, 3, Utf8.encode ['I', 'N', 'C', 'R', ' ', 'a']⟩, ⟨1, 4, [255, 254]⟩, ⟨1, 5, [32, 9]⟩,
    (Command.delete ['a']).entry 1 6]

/-- A member that was restarted with the store that it had when the first four were applied. -/
def restarted : Node Memory (Journal Kv) :=
  { config := ⟨1, [1, 2], {}⟩, store := { records := mixed }, standing := {},
    log := { entries := mixed, machine := ⟨replay (mixed.take 4) {}, []⟩ } }

theorem replay_tolerated_mixed :
    replay mixed (replay (mixed.take 4) {}) = replay mixed ({} : Kv) ∧
      get? "a" (replay mixed {}) = none ∧ get? "b" (replay mixed {}) = some "2" ∧
      (restarted.carryOutAll [.follow ⟨1, 6, 1, [], 5⟩]).log.machine.machine =
        replay (mixed.take 5) {} := by
  obtain ⟨hagain, -, hlast, hlog⟩ := replay_tolerated (σ := Memory) mixed
  have ha : LastWrites mixed "a" none := by
    refine ⟨mixed.take 5, (Command.delete ['a']).entry 1 6, [], rfl, .delete ?_, by simp⟩
    exact ⟨_, rfl, by decide, by decide⟩
  have hb : LastWrites mixed "b" (some "2") := by
    refine ⟨mixed.take 1, (Command.set ['b'] ['2']).entry 1 2, mixed.drop 2, rfl, .set ['2'] ?_,
      fun f hf => forall_not_writes_iff.mpr ?_⟩
    · exact ⟨_, rfl, by decide, by decide⟩
    · revert f
      decide
  have hrestored : Log.restore ⟨replay (mixed.take 4) {}, []⟩ ({ records := mixed } : Memory) =
      (.ok restarted.log, { records := mixed }) := rfl
  refine ⟨hagain _ (List.take_prefix _ _), (hlast {} "a" none).mpr (Or.inl ha),
    (hlast {} "b" _).mpr (Or.inl hb), ?_⟩
  exact hlog (mixed.take 4) restarted _ _ [.follow ⟨1, 6, 1, [], 5⟩] hrestored (by decide)

end Kv

end Quorum
