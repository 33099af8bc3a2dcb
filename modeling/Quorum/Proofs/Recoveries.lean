import Quorum.Proofs.Members

/-!
What a log recovers from records that are not in order.

The records are read as far as they are numbered 1, 2, 3, …, and what is behind the last of them is
to be dropped. But storage drops by index and not by place. A record out of sequence whose index is
one of those recovered is kept (`Log.strays`), and stands in the way of the next append: it is
refused, or it is acknowledged and lost when the log is opened again (`Log.restore_memory`).
-/

namespace Quorum.Log

/-- Records, cut behind the longest beginning of them that is in order. -/
structure Parts (records kept rest : List Entry) : Prop where
  eq : records = kept ++ rest
  numbered : Numbered kept
  ends : ∀ e ∈ rest.head?, e.index ≠ kept.length + 1

/-- The records out of sequence that dropping what is above the last one in sequence leaves. -/
def strays (kept rest : List Entry) : List Entry := rest.filter fun e => e.index ≤ kept.length

/-- Records are read on behind those in sequence. -/
lemma inSequence_append {p : ℕ} {kept : List Entry} (h : NumberedFrom p kept)
    (rest : List Entry) :
    inSequence (p + 1) (kept ++ rest) =
      Prod.map (kept ++ ·) id (inSequence (p + kept.length + 1) rest) := by
  induction kept generalizing p with
  | nil => rfl
  | cons e kept ih =>
    have hlen : p + 1 + kept.length + 1 = p + (e :: kept).length + 1 := by
      rw [List.length_cons]
      omega
    rw [List.cons_append, inSequence, if_pos h.head, ih h.tail, hlen]
    rfl

lemma exists_parts (records : List Entry) : ∃ kept rest, Parts records kept rest := by
  induction records using List.reverseRecOn with
  | nil => exact ⟨[], [], rfl, .nil, by simp⟩
  | append_singleton records e ih =>
    obtain ⟨kept, rest, rfl, hn, hends⟩ := ih
    cases rest with
    | nil =>
      by_cases hi : e.index = kept.length + 1
      · exact ⟨kept ++ [e], [], by simp, hn.snoc hi, by simp⟩
      · exact ⟨kept, [e], by simp, hn, by simpa using hi⟩
    | cons x rest => exact ⟨kept, x :: rest ++ [e], by simp, hn, by simpa using hends⟩

namespace Parts

variable {records kept rest : List Entry}

/-- No longer beginning is in order. -/
lemma longest (h : Parts records kept rest) {es : List Entry} (hes : es <+: records)
    (hn : Numbered es) : es <+: kept := by
  obtain ⟨rfl, -, hends⟩ := h
  rcases List.prefix_or_prefix_of_prefix hes (List.prefix_append kept rest) with hle | ⟨more, rfl⟩
  · exact hle
  · cases more with
    | nil => simp
    | cons x more =>
      have hx : x.index = kept.length + 1 := hn kept.length x (by simp)
      obtain ⟨rest', rfl⟩ : x :: more <+: rest := (List.prefix_append_right_inj kept).mp hes
      exact absurd hx (hends x (by simp))

lemma inSequence (h : Parts records kept rest) :
    inSequence 1 records = (kept, rest.isEmpty) := by
  have hread := inSequence_append (numberedFrom_zero.mpr h.numbered) rest
  rw [Nat.zero_add, Nat.zero_add, ← h.eq] at hread
  rw [hread]
  cases rest with
  | nil => simp [Log.inSequence]
  | cons x rest =>
    have hx : x.index ≠ kept.length + 1 := h.ends x (by simp)
    simp [Log.inSequence, hx]

/-- Dropping by index keeps what is in sequence, and the strays. -/
lemma truncate (h : Parts records kept rest) (m : Memory) (hm : m.records = records) :
    m.truncate kept.length = { m with records := kept ++ strays kept rest } := by
  have hkept : (kept.filter fun e => e.index ≤ kept.length) = kept := by
    refine List.filter_eq_self.mpr fun e he => ?_
    obtain ⟨i, hi, rfl⟩ := List.mem_iff_getElem.mp he
    have hindex : kept[i].index = i + 1 := h.numbered i _ (List.getElem?_eq_getElem hi)
    simpa [hindex] using hi
  rw [Memory.truncate, hm, h.eq, List.filter_append, hkept, strays]

/-- If there is a stray, records behind the strays are cut at the same place. -/
lemma strays_append (h : Parts records kept rest) (hs : strays kept rest ≠ [])
    (more : List Entry) :
    Parts (kept ++ strays kept rest ++ more) kept (strays kept rest ++ more) := by
  refine ⟨List.append_assoc .., h.numbered, fun e he => ?_⟩
  obtain ⟨x, xs, hx⟩ := List.exists_cons_of_ne_nil hs
  obtain rfl : x = e := by simpa [hx] using he
  have hmem : x ∈ strays kept rest := by simp [hx]
  have hle : x.index ≤ kept.length := by simpa using List.of_mem_filter hmem
  exact Nat.ne_of_lt (Nat.lt_succ_of_le hle)

end Parts

lemma strays_eq_nil_iff {kept rest : List Entry} :
    strays kept rest = [] ↔ ∀ e ∈ rest, kept.length < e.index := by
  simp [strays, List.filter_eq_nil_iff]

variable {μ : Type}

/-- Any records in memory are restored as far as they are in sequence, and the strays are left. -/
lemma Parts.restore {m : Memory} {kept rest : List Entry} (h : Parts m.records kept rest)
    (machine : μ) :
    restore machine m = (.ok { entries := kept, machine },
      { m with records := kept ++ strays kept rest }) := by
  have hread : LogStore.readAll m = (.ok m.records, m) := rfl
  have hdrop : LogStore.truncate kept.length m = (.ok (), m.truncate kept.length) := rfl
  rw [Log.restore, hread]
  dsimp only
  rw [h.inSequence]
  cases rest with
  | nil =>
    have hall : kept = m.records := by rw [h.eq, List.append_nil]
    simp [strays, hall]
  | cons x rest =>
    dsimp only [List.isEmpty_cons]
    rw [hdrop, h.truncate m rfl]

/-- An entry behind a stray is gone when the log is opened again. -/
lemma Parts.restore_stray {records kept rest : List Entry} (h : Parts records kept rest)
    (hs : strays kept rest ≠ []) {e : Entry} (he : e.index = kept.length + 1) (machine : μ)
    (m : Memory) :
    Log.restore machine { m with records := kept ++ strays kept rest ++ [e] } =
      (.ok { entries := kept, machine }, { m with records := kept ++ strays kept rest }) := by
  have hagain : strays kept (strays kept rest ++ [e]) = strays kept rest := by
    simp [strays, List.filter_append, he]
  have hrestore := Parts.restore
    (m := { m with records := kept ++ strays kept rest ++ [e] }) (h.strays_append hs [e]) machine
  rw [hagain] at hrestore
  exact hrestore

/-- An entry is added behind the records in memory, or it is refused. -/
lemma push_memory (e : Entry) (l : Log μ) (stored : Memory) :
    (e.index = (Memory.lastOf stored.records).1 + 1 ∧
      push e l stored = (.ok (), { l with entries := l.entries ++ [e] },
        { stored with records := stored.records ++ [e] })) ∨
      ∃ expected, expected ≠ e.index ∧ expected = (Memory.lastOf stored.records).1 + 1 ∧
        push e l stored = (.error (.indexMismatch expected e.index), l, stored) := by
  by_cases hi : e.index = (Memory.lastOf stored.records).1 + 1
  · left
    rw [push, Memory.append_ok_iff.mpr ⟨hi, rfl, rfl⟩]
    exact ⟨hi, rfl⟩
  · right
    have happ : LogStore.append e stored =
        (.error (.indexMismatch ((Memory.lastOf stored.records).1 + 1) e.index), stored) :=
      if_neg hi
    exact ⟨_, Ne.symm hi, rfl, by rw [push, happ]⟩

section

variable {kept rest : List Entry} {m : Memory} {e : Entry}

/-- Without strays the next entry is added, and is there when the log is opened again. -/
lemma Parts.push_kept (h : Parts m.records kept rest) (hs : strays kept rest = [])
    (he : e.index = kept.length + 1) (machine : μ) :
    ∃ stored, push e { entries := kept, machine } { m with records := kept ++ strays kept rest } =
        (.ok (), { entries := kept ++ [e], machine }, stored) ∧
      Log.restore machine stored = (.ok { entries := kept ++ [e], machine }, stored) := by
  rw [hs, List.append_nil]
  rcases push_memory e { entries := kept, machine } { m with records := kept }
    with ⟨-, hpush⟩ | ⟨expected, hne, hexpected, -⟩
  · refine ⟨{ m with records := kept ++ [e] }, hpush, ?_⟩
    have hnext : Parts (kept ++ [e]) (kept ++ [e]) [] :=
      ⟨(List.append_nil _).symm, h.numbered.snoc he, by simp⟩
    have hrestore := Parts.restore (m := { m with records := kept ++ [e] }) hnext machine
    simpa [strays] using hrestore
  · rw [Memory.lastOf_fst h.numbered] at hexpected
    exact absurd (hexpected.trans he.symm) hne

/-- With strays the next entry is refused, or it is gone when the log is opened again. -/
lemma Parts.push_lost (h : Parts m.records kept rest) (hs : strays kept rest ≠ [])
    (he : e.index = kept.length + 1) (machine : μ) :
    (∃ expected, expected ≠ e.index ∧
      push e { entries := kept, machine } { m with records := kept ++ strays kept rest } =
        (.error (.indexMismatch expected e.index), { entries := kept, machine },
          { m with records := kept ++ strays kept rest })) ∨
      ∃ l stored,
        push e { entries := kept, machine } { m with records := kept ++ strays kept rest } =
          (.ok (), l, stored) ∧
        Log.restore machine stored =
          (.ok { entries := kept, machine }, { m with records := kept ++ strays kept rest }) := by
  rcases push_memory e { entries := kept, machine } { m with records := kept ++ strays kept rest }
    with ⟨-, hpush⟩ | ⟨expected, hne, -, hpush⟩
  · exact .inr ⟨_, _, hpush, h.restore_stray hs he machine m⟩
  · exact .inl ⟨expected, hne, hpush⟩

end

/-- **What a log recovers from any records in memory.** The log is the longest beginning of the
records that is in order. What stays stored are these, and behind them every later record whose
index is not above theirs; so the store holds the log exactly if all that is behind is above. Then
the next entry can be added, and it is there when the log is opened again. Otherwise it is refused,
or it is added, but then it is gone when the log is opened again, and all is as before. -/
theorem restore_memory (machine : μ) (m : Memory) :
    ∃ kept rest, m.records = kept ++ rest ∧ Numbered kept ∧
      (∀ es, es <+: m.records → Numbered es → es <+: kept) ∧
      let l : Log μ := { entries := kept, machine }
      let stored : Memory := { m with records := kept ++ strays kept rest }
      l.slots = .sentinel :: kept ∧ restore machine m = (.ok l, stored) ∧
      (stored.records = kept ↔ ∀ e ∈ rest, kept.length < e.index) ∧
      ∀ e : Entry, e.index = l.lastIndex + 1 →
        ((∃ l' stored', push e l stored = (.ok (), l', stored') ∧ l'.slots = l.slots ++ [e] ∧
            restore machine stored' = (.ok l', stored')) ↔ stored.records = kept) ∧
        (stored.records ≠ kept →
          (∃ expected, expected ≠ e.index ∧
            push e l stored = (.error (.indexMismatch expected e.index), l, stored)) ∨
          ∃ l' stored', push e l stored = (.ok (), l', stored') ∧
            restore machine stored' = (.ok l, stored)) := by
  obtain ⟨kept, rest, h⟩ := exists_parts m.records
  have hiff : kept ++ strays kept rest = kept ↔ strays kept rest = [] := List.append_right_eq_self
  refine ⟨kept, rest, h.eq, h.numbered, fun es hes hn => h.longest hes hn, rfl, h.restore machine,
    hiff.trans strays_eq_nil_iff, fun e he => ⟨⟨?_, fun hstored => ?_⟩, fun hstored => ?_⟩⟩
  · rintro ⟨l', stored', hpush', hslots, hrestore'⟩
    by_contra hstored
    rcases h.push_lost (mt hiff.mpr hstored) he machine with ⟨expected, -, hpush⟩ |
      ⟨l'', stored'', hpush, hrestore⟩
    · cases hpush'.symm.trans hpush
    · obtain ⟨-, rfl, rfl⟩ := hpush'.symm.trans hpush
      -- what is restored is the shorter log
      obtain rfl := Except.ok.inj (congrArg Prod.fst (hrestore'.symm.trans hrestore))
      simp [slots] at hslots
  · obtain ⟨stored', hpush, hrestore⟩ := h.push_kept (hiff.mp hstored) he machine
    exact ⟨_, stored', hpush, rfl, hrestore⟩
  · exact h.push_lost (mt hiff.mpr hstored) he machine

/-- The third record is out of sequence. It is left, and the next entry is refused because of it. -/
example : restore () ({ records := [⟨1, 1, []⟩, ⟨1, 2, []⟩, ⟨1, 1, []⟩, ⟨1, 4, []⟩] } : Memory) =
      (.ok { entries := [⟨1, 1, []⟩, ⟨1, 2, []⟩], machine := () },
        { records := [⟨1, 1, []⟩, ⟨1, 2, []⟩, ⟨1, 1, []⟩] }) ∧
    (push ⟨1, 3, []⟩ ({ entries := [⟨1, 1, []⟩, ⟨1, 2, []⟩], machine := () } : Log Unit)
      ({ records := [⟨1, 1, []⟩, ⟨1, 2, []⟩, ⟨1, 1, []⟩] } : Memory)).1 =
      .error (.indexMismatch 2 3) :=
  ⟨rfl, rfl⟩

end Quorum.Log
