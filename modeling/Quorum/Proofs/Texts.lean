import Mathlib.Data.List.DropRight
import Mathlib.Tactic
import Quorum.Text.Blank
import Quorum.Text.Utf8

/-!
Texts as bytes, and texts without the blanks at their ends.

Every character has one spelling of one to four bytes (`Utf8.Spells`), and bytes are read as a text
if and only if they are the spellings of its characters one after another
(`Utf8.decode_eq_ok_iff`).
-/

namespace Quorum

/-! ### The spelling of a character -/

namespace Utf8

variable {bytes s : Bytes} {a b : UInt8} {x : Char} {cs : List Char} {p : ℕ}

/-- The bytes of a character, by how many they are. -/
inductive Spells : Bytes → Char → Prop
  | one {a : UInt8} : a < 0x80 → Spells [a] (Char.ofNat a.toNat)
  | two {a b : UInt8} : 0xC2 ≤ a → a ≤ 0xDF → isTail b = true →
      Spells [a, b] (Char.ofNat (a.toNat % 32 * 64 + low b))
  | three {a b c : UInt8} : 0xE0 ≤ a → a ≤ 0xEF → within (second3 a) b = true →
      isTail c = true →
      Spells [a, b, c] (Char.ofNat (a.toNat % 16 * 4096 + low b * 64 + low c))
  | four {a b c d : UInt8} : 0xF0 ≤ a → a ≤ 0xF4 → within (second4 a) b = true →
      isTail c = true → isTail d = true →
      Spells [a, b, c, d]
        (Char.ofNat (a.toNat % 8 * 262144 + low b * 4096 + low c * 64 + low d))

lemma isTail_iff : isTail b = true ↔ 128 ≤ b.toNat ∧ b.toNat ≤ 191 := by
  simp [isTail, UInt8.le_iff_toNat_le]

lemma second3_iff : within (second3 a) b = true ↔
    128 ≤ b.toNat ∧ b.toNat ≤ 191 ∧ (a.toNat = 224 → 160 ≤ b.toNat) ∧
      (a.toNat = 237 → b.toNat ≤ 159) := by
  unfold second3
  split_ifs with h1 h2 <;> simp [within, UInt8.le_iff_toNat_le, ← UInt8.toNat_inj] at * <;> omega

lemma second4_iff : within (second4 a) b = true ↔
    128 ≤ b.toNat ∧ b.toNat ≤ 191 ∧ (a.toNat = 240 → 144 ≤ b.toNat) ∧
      (a.toNat = 244 → b.toNat ≤ 143) := by
  unfold second4
  split_ifs with h1 h2 <;> simp [within, UInt8.le_iff_toNat_le, ← UInt8.toNat_inj] at * <;> omega

lemma toNat_ofNat {n : ℕ} (h : n < 0xD800 ∨ 0xDFFF < n ∧ n < 0x110000) :
    (Char.ofNat n).toNat = n := by
  have hv : Char.ofNat n = Char.ofNatAux n h := dif_pos h
  rw [hv]
  rfl

lemma Spells.eq_encode (h : Spells s x) : s = String.utf8EncodeChar x := by
  cases h with
  | one ha =>
    rename_i a
    simp only [UInt8.lt_iff_toNat_lt, UInt8.reduceToNat] at ha
    have hx := toNat_ofNat (n := a.toNat) (by omega)
    simp only [String.utf8EncodeChar, Char.toNat_val, hx]
    rw [if_pos (by omega)]
    simp
  | two ha ha' hb =>
    rename_i a b
    rw [isTail_iff] at hb
    simp only [UInt8.le_iff_toNat_le, UInt8.reduceToNat] at ha ha'
    have hx := toNat_ofNat (n := a.toNat % 32 * 64 + low b) (by unfold low; omega)
    simp only [String.utf8EncodeChar, Char.toNat_val, hx]
    unfold low
    rw [if_neg (by omega), if_pos (by omega)]
    simp [← UInt8.toNat_inj, UInt8.toNat_ofNat', -UInt8.ofNat_add]
    omega
  | three ha ha' hb hc =>
    rename_i a b c
    rw [isTail_iff] at hc
    rw [second3_iff] at hb
    simp only [UInt8.le_iff_toNat_le, UInt8.reduceToNat] at ha ha'
    have hx := toNat_ofNat (n := a.toNat % 16 * 4096 + low b * 64 + low c) (by unfold low; omega)
    simp only [String.utf8EncodeChar, Char.toNat_val, hx]
    unfold low
    rw [if_neg (by omega), if_neg (by omega), if_pos (by omega)]
    simp [← UInt8.toNat_inj, UInt8.toNat_ofNat', -UInt8.ofNat_add]
    omega
  | four ha ha' hb hc hd =>
    rename_i a b c d
    rw [isTail_iff] at hc hd
    rw [second4_iff] at hb
    simp only [UInt8.le_iff_toNat_le, UInt8.reduceToNat] at ha ha'
    have hx := toNat_ofNat (n := a.toNat % 8 * 262144 + low b * 4096 + low c * 64 + low d)
      (by unfold low; omega)
    simp only [String.utf8EncodeChar, Char.toNat_val, hx]
    unfold low
    rw [if_neg (by omega), if_neg (by omega), if_neg (by omega)]
    simp [← UInt8.toNat_inj, UInt8.toNat_ofNat', -UInt8.ofNat_add]
    omega

lemma toNat_ofNat_mod (n : ℕ) {m k : ℕ} (hm : 0 < m) (hk : m + k ≤ 256) :
    (UInt8.ofNat (n % m + k)).toNat = n % m + k := by
  have hlt := Nat.mod_lt n hm
  rw [UInt8.toNat_ofNat']
  omega

lemma isTail_ofNat (n : ℕ) : isTail (UInt8.ofNat (n % 64 + 0x80)) = true := by
  rw [isTail_iff, toNat_ofNat_mod n (by decide) (by decide)]
  omega

lemma low_ofNat (n : ℕ) : low (UInt8.ofNat (n % 64 + 0x80)) = n % 64 := by
  rw [low, toNat_ofNat_mod n (by decide) (by decide)]
  omega

lemma spells_encode (x : Char) : Spells (String.utf8EncodeChar x) x := by
  have hvalid : x.toNat < 0xD800 ∨ 0xDFFF < x.toNat ∧ x.toNat < 0x110000 := x.valid
  simp only [String.utf8EncodeChar, Char.toNat_val]
  split_ifs with h1 h2 h3
  · have ha : (UInt8.ofNat x.toNat).toNat = x.toNat := by
      rw [UInt8.toNat_ofNat']
      omega
    have hlt : UInt8.ofNat x.toNat < 0x80 := by
      simp only [UInt8.lt_iff_toNat_lt, ha, UInt8.reduceToNat]
      omega
    have h := Spells.one hlt
    rwa [ha, Char.ofNat_toNat] at h
  · have ha := toNat_ofNat_mod (x.toNat / 64) (m := 32) (k := 0xC0) (by decide) (by decide)
    have h := Spells.two (a := UInt8.ofNat (x.toNat / 64 % 32 + 0xC0))
      (by simp only [UInt8.le_iff_toNat_le, ha, UInt8.reduceToNat]; omega)
      (by simp only [UInt8.le_iff_toNat_le, ha, UInt8.reduceToNat]; omega) (isTail_ofNat x.toNat)
    have hx : (x.toNat / 64 % 32 + 0xC0) % 32 * 64 + x.toNat % 64 = x.toNat := by omega
    rwa [ha, low_ofNat, hx, Char.ofNat_toNat] at h
  · have ha := toNat_ofNat_mod (x.toNat / 4096) (m := 16) (k := 0xE0) (by decide) (by decide)
    have hb := toNat_ofNat_mod (x.toNat / 64) (m := 64) (k := 0x80) (by decide) (by decide)
    have h := Spells.three (a := UInt8.ofNat (x.toNat / 4096 % 16 + 0xE0))
      (b := UInt8.ofNat (x.toNat / 64 % 64 + 0x80))
      (by simp only [UInt8.le_iff_toNat_le, ha, UInt8.reduceToNat]; omega)
      (by simp only [UInt8.le_iff_toNat_le, ha, UInt8.reduceToNat]; omega)
      (by rw [second3_iff, ha, hb]; omega) (isTail_ofNat x.toNat)
    have hx : (x.toNat / 4096 % 16 + 0xE0) % 16 * 4096 + x.toNat / 64 % 64 * 64 + x.toNat % 64 =
        x.toNat := by omega
    rwa [ha, low_ofNat, low_ofNat, hx, Char.ofNat_toNat] at h
  · have ha := toNat_ofNat_mod (x.toNat / 262144) (m := 8) (k := 0xF0) (by decide) (by decide)
    have hb := toNat_ofNat_mod (x.toNat / 4096) (m := 64) (k := 0x80) (by decide) (by decide)
    have h := Spells.four (a := UInt8.ofNat (x.toNat / 262144 % 8 + 0xF0))
      (b := UInt8.ofNat (x.toNat / 4096 % 64 + 0x80))
      (by simp only [UInt8.le_iff_toNat_le, ha, UInt8.reduceToNat]; omega)
      (by simp only [UInt8.le_iff_toNat_le, ha, UInt8.reduceToNat]; omega)
      (by rw [second4_iff, ha, hb]; omega) (isTail_ofNat (x.toNat / 64)) (isTail_ofNat x.toNat)
    have hx : (x.toNat / 262144 % 8 + 0xF0) % 8 * 262144 + x.toNat / 4096 % 64 * 4096 +
        x.toNat / 64 % 64 * 64 + x.toNat % 64 = x.toNat := by omega
    rwa [ha, low_ofNat, low_ofNat, low_ofNat, hx, Char.ofNat_toNat] at h

lemma Spells.decodeFrom_append (h : Spells s x) (p : ℕ) (rest : Bytes) :
    decodeFrom p (s ++ rest) = (x :: ·) <$> decodeFrom (p + s.length) rest := by
  cases h with
  | one ha =>
    rw [List.singleton_append, decodeFrom.eq_def]
    exact if_pos ha
  | two ha ha' hb =>
    rename_i a b
    have h1 : ¬ a < 0x80 := by grind
    rw [decodeFrom.eq_def]
    simp [h1, ha, ha', hb]
  | three ha ha' hb hc =>
    rename_i a b c
    have h1 : ¬ a < 0x80 := by grind
    have h2 : ¬ a ≤ 0xDF := by grind
    rw [decodeFrom.eq_def]
    simp [h1, h2, ha, ha', hb, hc]
  | four ha ha' hb hc hd =>
    rename_i a b c d
    have h1 : ¬ a < 0x80 := by grind
    have h2 : ¬ a ≤ 0xDF := by grind
    have h3 : ¬ a ≤ 0xEF := by grind
    rw [decodeFrom.eq_def]
    simp [h1, h2, h3, ha, ha', hb, hc, hd]

lemma exists_of_map_ok {α β ε : Type} {f : α → β} {r : Except ε α} {b : β}
    (h : f <$> r = .ok b) : ∃ a, r = .ok a ∧ f a = b := by
  cases r with
  | error e => cases h
  | ok a => exact ⟨a, rfl, Except.ok.inj h⟩

lemma exists_spells (h : decodeFrom p (a :: s) = .ok cs) :
    ∃ u x rest xs, a :: s = u ++ rest ∧ Spells u x ∧ cs = x :: xs ∧
      decodeFrom (p + u.length) rest = .ok xs := by
  unfold decodeFrom at h
  split_ifs at h with h1 h2 h3 h4
  · obtain ⟨xs, hxs, rfl⟩ := exists_of_map_ok h
    exact ⟨[a], _, s, xs, rfl, .one h1, rfl, hxs⟩
  · rw [Bool.and_eq_true, decide_eq_true_eq, decide_eq_true_eq] at h2
    rcases s with _ | ⟨b, s⟩
    · cases h
    dsimp only at h
    split_ifs at h with hb
    obtain ⟨xs, hxs, rfl⟩ := exists_of_map_ok h
    exact ⟨[a, b], _, s, xs, rfl, .two h2.1 h2.2 hb, rfl, hxs⟩
  · rw [Bool.and_eq_true, decide_eq_true_eq, decide_eq_true_eq] at h3
    rcases s with _ | ⟨b, _ | ⟨c, s⟩⟩
    · cases h
    · dsimp only at h
      split_ifs at h
    · dsimp only at h
      split_ifs at h with hb hc
      obtain ⟨xs, hxs, rfl⟩ := exists_of_map_ok h
      exact ⟨[a, b, c], _, s, xs, rfl, .three h3.1 h3.2 hb hc, rfl, hxs⟩
  · rw [Bool.and_eq_true, decide_eq_true_eq, decide_eq_true_eq] at h4
    rcases s with _ | ⟨b, _ | ⟨c, _ | ⟨d, s⟩⟩⟩
    · cases h
    · dsimp only at h
      split_ifs at h
    · dsimp only at h
      split_ifs at h
    · dsimp only at h
      split_ifs at h with hb hc hd
      obtain ⟨xs, hxs, rfl⟩ := exists_of_map_ok h
      exact ⟨[a, b, c, d], _, s, xs, rfl, .four h4.1 h4.2 hb hc hd, rfl, hxs⟩

lemma decodeFrom_encode (p : ℕ) (cs : List Char) : decodeFrom p (encode cs) = .ok cs := by
  induction cs generalizing p with
  | nil => rfl
  | cons x xs ih =>
    rw [encode, List.flatMap_cons, (spells_encode x).decodeFrom_append]
    exact congrArg ((x :: ·) <$> ·) (ih _)

lemma eq_encode_of_decodeFrom (h : decodeFrom p bytes = .ok cs) : bytes = encode cs := by
  induction cs generalizing p bytes with
  | nil =>
    rcases bytes with _ | ⟨a, s⟩
    · rfl
    · obtain ⟨u, x, rest, xs, -, -, hnil, -⟩ := exists_spells h
      cases hnil
  | cons x xs ih =>
    rcases bytes with _ | ⟨a, s⟩
    · cases h
    · obtain ⟨u, y, rest, ys, heq, hu, hcons, hrest⟩ := exists_spells h
      cases hcons
      rw [heq, ih hrest, hu.eq_encode]
      rfl

lemma decode_eq_ok_iff : decode bytes = .ok cs ↔ bytes = encode cs :=
  ⟨eq_encode_of_decodeFrom, fun h => h ▸ decodeFrom_encode 0 cs⟩

end Utf8

/-! ### Blanks at the ends -/

namespace Text

variable {cs : List Char} {x : Char}

/-- The last character of a text is a blank. -/
def EndsBlank (cs : List Char) : Prop := ∃ x ∈ cs.getLast?, isBlank x = true

lemma rdropWhile_append (p : Char → Bool) (w cs : List Char) :
    (w ++ cs).rdropWhile p =
      if cs.rdropWhile p = [] then w.rdropWhile p else w ++ cs.rdropWhile p := by
  simp only [List.rdropWhile, List.reverse_append, List.dropWhile_append, List.reverse_eq_nil_iff,
    List.isEmpty_iff]
  split_ifs <;> simp

/-- Nothing is taken off the front of a text that begins with a character that is no blank. -/
lemma trim_cons (hx : isBlank x = false) (cs : List Char) :
    trim (x :: cs) = (x :: cs).rdropWhile isBlank := by
  rw [trim, List.dropWhile_cons_of_neg (by simp [hx]), List.rdropWhile]

lemma rdropWhile_eq_self_iff : cs.rdropWhile isBlank = cs ↔ ¬ EndsBlank cs := by
  rw [List.rdropWhile_eq_self_iff]
  constructor
  · rintro h ⟨x, hx, hblank⟩
    obtain ⟨hne, rfl⟩ := List.mem_getLast?_eq_getLast hx
    exact h hne hblank
  · intro h hne hblank
    exact h ⟨_, List.getLast?_eq_getLast_of_ne_nil hne, hblank⟩

end Text

end Quorum
