import Mathlib.Data.List.DropRight
import Mathlib.Tactic
import Quorum.Json.Printer
import Quorum.Json.Reader

/-!
The reader takes back what the printers write.

Both printers write the tokens of a document one after the other, with blanks between some of them
(`Json.spread`). The reader passes over blanks, and it knows each token's end without them; only a
number has to be followed by something that does not continue it (`Json.Parts`). So it reads every
document that the printers write, if its numbers are natural ones (`Json.parse?_of_mem`).
-/

namespace Quorum.Json

variable {c d : Char} {w cs rest : List Char} {j x : Json} {fuel level : ℕ}

/-! ### Blanks -/

/-- Only blanks. -/
def Blank (w : List Char) : Prop := ∀ c ∈ w, isSpace c = true

lemma skipSpace_append (hw : Blank w) (cs : List Char) : skipSpace (w ++ cs) = skipSpace cs :=
  List.dropWhile_append_of_pos hw

lemma skipSpace_skipSpace (cs : List Char) : skipSpace (skipSpace cs) = skipSpace cs :=
  List.dropWhile_idempotent _ _

lemma skipSpace_cons (hc : isSpace c = false) (cs : List Char) : skipSpace (c :: cs) = c :: cs :=
  List.dropWhile_cons_of_neg (by simp [hc])

lemma readValue_skipSpace (fuel : ℕ) (cs : List Char) :
    readValue fuel (skipSpace cs) = readValue fuel cs := by
  cases fuel with
  | zero => rfl
  | succ fuel => rw [readValue, readValue, skipSpace_skipSpace]

lemma readValue_append (hw : Blank w) (fuel : ℕ) (cs : List Char) :
    readValue fuel (w ++ cs) = readValue fuel cs := by
  rw [← readValue_skipSpace, skipSpace_append hw, readValue_skipSpace]

lemma readItems_skipSpace (fuel : ℕ) (cs : List Char) :
    readItems fuel (skipSpace cs) = readItems fuel cs := by
  cases fuel with
  | zero => rfl
  | succ fuel => rw [readItems, readItems, readValue_skipSpace]

lemma readItems_append (hw : Blank w) (fuel : ℕ) (cs : List Char) :
    readItems fuel (w ++ cs) = readItems fuel cs := by
  rw [← readItems_skipSpace, skipSpace_append hw, readItems_skipSpace]

lemma readMembers_skipSpace (fuel : ℕ) (cs : List Char) :
    readMembers fuel (skipSpace cs) = readMembers fuel cs := by
  cases fuel with
  | zero => rfl
  | succ fuel => rw [readMembers, readMembers, skipSpace_skipSpace]

/-! ### Numbers -/

/-- What follows does not continue a number. -/
def Parts (rest : List Char) : Prop :=
  ∀ c ∈ rest.head?, isDigit c = false ∧ c ≠ '.' ∧ c ≠ 'e' ∧ c ≠ 'E'

lemma parts_nil : Parts [] := fun _ hc => by cases hc

lemma parts_cons (hc : isDigit c = false ∧ c ≠ '.' ∧ c ≠ 'e' ∧ c ≠ 'E') (cs : List Char) :
    Parts (c :: cs) := fun d hd => by
  cases hd
  exact hc

lemma parts_append (hw : Blank w) (h : Parts cs) : Parts (w ++ cs) := by
  cases w with
  | nil => exact h
  | cons a w =>
    intro c hc
    cases hc
    have ha := hw a List.mem_cons_self
    simp only [isSpace, Bool.or_eq_true, beq_iff_eq] at ha
    rcases ha with ((rfl | rfl) | rfl) | rfl <;> decide

lemma isDigit_of_mem_printNat {n : ℕ} (hd : d ∈ printNat n) : isDigit d = true := by
  have h := Nat.isDigit_of_mem_toDigits (by decide) (by decide) hd
  simpa [Char.isDigit, isDigit, Char.le_def] using h

lemma exists_printNat (n : ℕ) : ∃ d ds, printNat n = d :: ds ∧ isDigit d = true := by
  have hne : printNat n ≠ [] := Nat.toDigits_ne_nil
  obtain ⟨d, ds, h⟩ := List.exists_cons_of_ne_nil hne
  exact ⟨d, ds, h, isDigit_of_mem_printNat (h.symm ▸ List.mem_cons_self : d ∈ printNat n)⟩

/-- No number but 0 begins with a 0. -/
lemma head_printNat {n : ℕ} (h : (printNat n).head? = some '0') : printNat n = ['0'] := by
  unfold printNat at *
  induction n using Nat.strong_induction_on with
  | _ n ih =>
    by_cases hn : n < 10
    · rw [Nat.toDigits_of_lt_base hn] at *
      rw [Option.some.inj h]
    · have hq : n / 10 ≠ 0 := by omega
      rw [Nat.toDigits_of_base_le (by decide) (by omega)] at h
      rw [List.head?_append_of_ne_nil _ Nat.toDigits_ne_nil] at h
      have hzero := congrArg (Nat.ofDigitChars 10 · 0) (ih (n / 10) (by omega) h)
      rw [Nat.ofDigitChars_ten_toDigits] at hzero
      exact absurd hzero hq

lemma digitsValue_printNat (n : ℕ) : digitsValue (printNat n) = n := by
  have h := Nat.ofDigitChars_ten_toDigits (n := n)
  rwa [Nat.ofDigitChars_eq_foldl] at h

lemma readDigits_append (hne : w ≠ []) (hw : ∀ d ∈ w, isDigit d = true) (h : Parts rest) :
    readDigits (w ++ rest) = some (w, rest) := by
  have htake : rest.takeWhile isDigit = [] ∧ rest.dropWhile isDigit = rest := by
    cases rest with
    | nil => exact ⟨rfl, rfl⟩
    | cons c rest => simp [(h c rfl).1]
  rw [readDigits, List.takeWhile_append_of_pos hw, List.dropWhile_append_of_pos hw, htake.1,
    htake.2, List.append_nil]
  cases w with
  | nil => exact absurd rfl hne
  | cons d w => rfl

lemma readFraction_of_parts (h : Parts rest) : readFraction rest = some ([], rest) := by
  cases rest with
  | nil => rfl
  | cons c rest =>
    unfold readFraction
    split
    · rename_i heq
      cases heq
      exact absurd rfl (h _ rfl).2.1
    · rfl

lemma readExponent_of_parts (h : Parts rest) : readExponent rest = some ([], rest) := by
  cases rest with
  | nil => rfl
  | cons c rest => exact if_neg (not_or.mpr (h c rfl).2.2)

lemma readNumber_printNat (n : ℕ) (h : Parts rest) :
    readNumber (printNat n ++ rest) = some (.nat n, rest) := by
  have hdigits : readDigits (printNat n ++ rest) = some (printNat n, rest) :=
    readDigits_append Nat.toDigits_ne_nil (fun _ => isDigit_of_mem_printNat) h
  have hsign : readSign (printNat n ++ rest) = ([], printNat n ++ rest) := by
    obtain ⟨d, ds, hds, hd⟩ := exists_printNat n
    rw [hds]
    unfold readSign
    split
    · rename_i heq
      cases heq
      cases hd
    · rfl
  have hzero : ¬ ((printNat n).head? = some '0' ∧ printNat n ≠ ['0']) := fun hz =>
    hz.2 (head_printNat hz.1)
  simp only [readNumber, hsign, hdigits, Option.bind_eq_bind, Option.bind_some, if_neg hzero,
    readFraction_of_parts h, readExponent_of_parts h, digitsValue_printNat]
  rfl

/-! ### Strings -/

/-- A control that has no letter is read as a unit, and every other character as itself. -/
def pieceOf (c : Char) : Piece :=
  if c.toNat < 0x20 ∧ c ∉ ['\n', '\r', '\t', '\x08', '\x0c'] then .unit c.toNat else .char c

lemma hexValue?_hexDigit {n : ℕ} (h : n < 16) : Text.hexValue? (Text.hexDigit n) = some n := by
  revert n
  decide

lemma hex4?_hexDigit {n : ℕ} (h : n < 0x20) :
    hex4? '0' '0' (Text.hexDigit (n / 16)) (Text.hexDigit (n % 16)) = some n := by
  have hzero : Text.hexValue? '0' = some 0 := rfl
  simp only [hex4?, hzero, hexValue?_hexDigit (show n / 16 < 16 by omega),
    hexValue?_hexDigit (show n % 16 < 16 by omega), Option.bind_eq_bind, Option.bind_some]
  exact congrArg some (by omega)

lemma readPieces_letter {a : Char} (ha : letterEscape? a = some c) (cs : List Char) :
    readPieces ('\\' :: a :: cs) = (readPieces cs).map fun p => (.char c :: p.1, p.2) := by
  have hu : a ≠ 'u' := by
    rintro rfl
    cases ha
  rw [readPieces, ha, Option.map_eq_bind]
  · rfl
  · exact fun _ _ _ _ _ hcs => absurd hcs hu

lemma readPieces_control (hc : c.toNat < 0x20) (cs : List Char) :
    readPieces ('\\' :: 'u' :: '0' :: '0' :: Text.hexDigit (c.toNat / 16) ::
      Text.hexDigit (c.toNat % 16) :: cs) =
      (readPieces cs).map fun p => (.unit c.toNat :: p.1, p.2) := by
  rw [readPieces, hex4?_hexDigit hc, Option.map_eq_bind]
  rfl

lemma readPieces_cons (hquote : c ≠ '"') (hslash : c ≠ '\\') (hc : ¬ c.toNat < 0x20)
    (cs : List Char) :
    readPieces (c :: cs) = (readPieces cs).map fun p => (.char c :: p.1, p.2) := by
  rw [readPieces, if_neg (not_or.mpr ⟨hslash, hc⟩), Option.map_eq_bind]
  · rfl
  · exact hquote
  · exact fun _ _ _ _ _ h => absurd h hslash
  · exact fun _ _ h => absurd h hslash

lemma readPieces_printChar (c : Char) (cs : List Char) :
    readPieces (printChar c ++ cs) = (readPieces cs).map fun p => (pieceOf c :: p.1, p.2) := by
  unfold printChar
  split_ifs with h1 h2 h3 h4 h5 h6 h7 h8
  iterate 7
    · subst_vars
      exact readPieces_letter rfl cs
  · rw [pieceOf, if_pos ⟨h8, by simp [*]⟩]
    exact readPieces_control h8 cs
  · rw [pieceOf, if_neg fun h => h8 h.1]
    exact readPieces_cons h1 h2 h8 cs

lemma readPieces_flatMap (cs rest : List Char) :
    readPieces (cs.flatMap printChar ++ '"' :: rest) = some (cs.map pieceOf, rest) := by
  induction cs with
  | nil => rfl
  | cons c cs ih =>
    rw [List.flatMap_cons, List.append_assoc, readPieces_printChar, ih]
    rfl

/-- A control is no half of a surrogate pair. -/
lemma joinPieces_pieceOf (c : Char) (ps : List Piece) :
    joinPieces (pieceOf c :: ps) = (joinPieces ps).map (c :: ·) := by
  unfold pieceOf
  split_ifs with h
  · have hhigh : isHigh c.toNat = false := by simp [isHigh]; omega
    have hlow : isLow c.toNat = false := by simp [isLow]; omega
    cases ps with
    | nil => simp [joinPieces, hhigh, hlow]
    | cons p ps => cases p <;> simp [joinPieces, hhigh, hlow]
  · rfl

lemma joinPieces_map (cs : List Char) : joinPieces (cs.map pieceOf) = some cs := by
  induction cs with
  | nil => rfl
  | cons c cs ih =>
    rw [List.map_cons, joinPieces_pieceOf, ih]
    rfl

/-- A literal is an opening quote and what is read as its string. -/
lemma exists_readText (k : Option String) :
    ∃ t, printText k = '"' :: t ∧ ∀ rest, readText (t ++ rest) = some (k, rest) := by
  cases k with
  | none => exact ⟨['\\', 'u', 'd', '8', '0', '0', '"'], rfl, fun rest => rfl⟩
  | some s =>
    refine ⟨s.toList.flatMap printChar ++ ['"'], rfl, fun rest => ?_⟩
    rw [List.append_assoc, List.singleton_append, readText, readPieces_flatMap]
    simp [joinPieces_map]

/-! ### Arrays and objects -/

lemma readItems_bracket (fuel : ℕ) (cs : List Char) : readItems fuel (']' :: cs) = none := by
  cases fuel with
  | zero => rfl
  | succ fuel => cases fuel <;> rfl

lemma readMembers_brace (fuel : ℕ) (cs : List Char) : readMembers fuel ('\x7d' :: cs) = none := by
  cases fuel <;> rfl

lemma readValue_array {xs : List Json} (h : readItems fuel cs = some (xs, rest)) :
    readValue (fuel + 1) ('[' :: cs) = some (.array xs, rest) := by
  rw [← readItems_skipSpace] at h
  simp only [readValue, skipSpace_cons (show isSpace '[' = false from rfl)]
  split
  · -- no item begins with the closing bracket
    rename_i heq
    rw [heq, readItems_bracket] at h
    cases h
  · rw [h]
    rfl

lemma readValue_object {ms : List (Option String × Json)}
    (h : readMembers fuel cs = some (ms, rest)) :
    readValue (fuel + 1) ('\x7b' :: cs) = some (.object ms, rest) := by
  rw [← readMembers_skipSpace] at h
  simp only [readValue, skipSpace_cons (show isSpace '\x7b' = false from rfl)]
  split
  · -- no key begins with the closing brace
    rename_i heq
    rw [heq, readMembers_brace] at h
    cases h
  · rw [h]
    rfl

lemma readItems_last {more : List Char} (hx : readValue fuel cs = some (x, more))
    (hend : skipSpace more = ']' :: rest) : readItems (fuel + 1) cs = some ([x], rest) := by
  simp [readItems, hx, hend]

lemma readItems_more {more more' : List Char} {xs : List Json}
    (hx : readValue fuel cs = some (x, more)) (hcomma : skipSpace more = ',' :: more')
    (hxs : readItems fuel more' = some (xs, rest)) :
    readItems (fuel + 1) cs = some (x :: xs, rest) := by
  simp [readItems, hx, hcomma, hxs]

lemma readMembers_last {t value more : List Char} {k : Option String}
    (ht : skipSpace cs = '"' :: t) (hk : readText t = some (k, ':' :: value))
    (hx : readValue fuel value = some (x, more)) (hend : skipSpace more = '\x7d' :: rest) :
    readMembers (fuel + 1) cs = some ([(k, x)], rest) := by
  have hcolon : skipSpace (':' :: value) = ':' :: value := skipSpace_cons rfl _
  simp [readMembers, ht, hk, hcolon, hx, hend]

lemma readMembers_more {t value more more' : List Char} {k : Option String}
    {ms : List (Option String × Json)}
    (ht : skipSpace cs = '"' :: t) (hk : readText t = some (k, ':' :: value))
    (hx : readValue fuel value = some (x, more)) (hcomma : skipSpace more = ',' :: more')
    (hms : readMembers fuel more' = some (ms, rest)) :
    readMembers (fuel + 1) cs = some ((k, x) :: ms, rest) := by
  have hcolon : skipSpace (':' :: value) = ':' :: value := skipSpace_cons rfl _
  simp [readMembers, ht, hk, hcolon, hx, hcomma, hms]

lemma readValue_digit (hd : isDigit d = true) (fuel : ℕ) (cs : List Char) :
    readValue (fuel + 1) (d :: cs) = readNumber (d :: cs) := by
  have hspace : isSpace d = false := by
    by_contra h
    simp only [isSpace, Bool.not_eq_false, Bool.or_eq_true, beq_iff_eq] at h
    rcases h with ((rfl | rfl) | rfl) | rfl <;> cases hd
  rw [readValue, skipSpace_cons hspace]
  split
  case h_7 => rfl
  all_goals
    rename_i heq
    cases heq
    cases hd

/-! ### Spread documents -/

/-- The blanks that stand before an item at a level, and those between a key and its value. -/
structure Spacing where
  line : ℕ → List Char
  gap : List Char
  line_blank : ∀ level, Blank (line level)
  gap_blank : Blank gap

mutual

/-- A document at a level, with the blanks of a spacing. -/
def spread (s : Spacing) (level : ℕ) : Json → List Char
  | .array [] => ['[', ']']
  | .array (x :: xs) =>
    '[' :: (s.line (level + 1) ++ spread s (level + 1) x ++ spreadItems s level xs)
  | .object [] => ['\x7b', '\x7d']
  | .object ((k, x) :: ms) =>
    '\x7b' :: (s.line (level + 1) ++ printText k ++ ':' ::
      (s.gap ++ (spread s (level + 1) x ++ spreadMembers s level ms)))
  | .null => print .null
  | .bool b => print (.bool b)
  | .nat n => print (.nat n)
  | .decimal literal => print (.decimal literal)
  | .text k => print (.text k)

def spreadItems (s : Spacing) (level : ℕ) : List Json → List Char
  | [] => s.line level ++ [']']
  | x :: xs => ',' :: (s.line (level + 1) ++ spread s (level + 1) x ++ spreadItems s level xs)

def spreadMembers (s : Spacing) (level : ℕ) : List (Option String × Json) → List Char
  | [] => s.line level ++ ['\x7d']
  | (k, x) :: ms =>
    ',' :: (s.line (level + 1) ++ printText k ++ ':' ::
      (s.gap ++ (spread s (level + 1) x ++ spreadMembers s level ms)))

end

def tight : Spacing where
  line _ := []
  gap := []
  line_blank _ _ hc := by cases hc
  gap_blank _ hc := by cases hc

def airy : Spacing where
  line := newline
  gap := [' ']
  line_blank level c hc := by
    rcases List.mem_cons.mp hc with rfl | hc
    · rfl
    · rw [(List.mem_replicate.mp hc).2]
      rfl
  gap_blank c hc := by
    rw [List.mem_singleton.mp hc]
    rfl

mutual

lemma spread_tight (level : ℕ) : ∀ j : Json, spread tight level j = print j
  | .array [] | .object [] | .null | .bool _ | .nat _ | .decimal _ | .text _ => by
    simp only [spread, print]
  | .array (x :: xs) => by
    rw [spread, print, spread_tight (level + 1) x, spreadItems_tight level xs]
    rfl
  | .object ((k, x) :: ms) => by
    rw [spread, print, spread_tight (level + 1) x, spreadMembers_tight level ms]
    rfl

lemma spreadItems_tight (level : ℕ) : ∀ xs : List Json, spreadItems tight level xs = printItems xs
  | [] => rfl
  | x :: xs => by
    rw [spreadItems, printItems, spread_tight (level + 1) x, spreadItems_tight level xs]
    rfl

lemma spreadMembers_tight (level : ℕ) :
    ∀ ms : List (Option String × Json), spreadMembers tight level ms = printMembers ms
  | [] => rfl
  | (k, x) :: ms => by
    rw [spreadMembers, printMembers, spread_tight (level + 1) x, spreadMembers_tight level ms]
    rfl

end

mutual

lemma spread_airy (level : ℕ) : ∀ j : Json, spread airy level j = layout level j
  | .array [] | .object [] | .null | .bool true | .bool false | .nat _ | .decimal _
  | .text _ => by simp only [spread, print, layout]
  | .array (x :: xs) => by
    rw [spread, layout, spread_airy (level + 1) x, spreadItems_airy level xs]
    rfl
  | .object ((k, x) :: ms) => by
    rw [spread, layout, spread_airy (level + 1) x, spreadMembers_airy level ms]
    rfl

lemma spreadItems_airy (level : ℕ) :
    ∀ xs : List Json, spreadItems airy level xs = layoutItems level xs
  | [] => rfl
  | x :: xs => by
    rw [spreadItems, layoutItems, spread_airy (level + 1) x, spreadItems_airy level xs]
    rfl

lemma spreadMembers_airy (level : ℕ) :
    ∀ ms : List (Option String × Json), spreadMembers airy level ms = layoutMembers level ms
  | [] => rfl
  | (k, x) :: ms => by
    rw [spreadMembers, layoutMembers, spread_airy (level + 1) x, spreadMembers_airy level ms]
    rfl

end

/-! ### Reading what was printed -/

/-- Every number of the document is a natural one. -/
inductive Plain : Json → Prop
  | null : Plain .null
  | bool (b : Bool) : Plain (.bool b)
  | nat (n : ℕ) : Plain (.nat n)
  | text (k : Option String) : Plain (.text k)
  | array {xs : List Json} : (∀ x ∈ xs, Plain x) → Plain (.array xs)
  | object {ms : List (Option String × Json)} : (∀ m ∈ ms, Plain m.2) → Plain (.object ms)

/-- The reader finds the document in front of what follows it. -/
def Reads (s : Spacing) (j : Json) : Prop :=
  ∀ (level fuel : ℕ) (rest : List Char), Parts rest → 2 * (spread s level j).length < fuel →
    readValue fuel (spread s level j ++ rest) = some (j, rest)

variable {s : Spacing}

lemma parts_spreadItems (s : Spacing) (level : ℕ) (xs : List Json) (rest : List Char) :
    Parts (spreadItems s level xs ++ rest) := by
  cases xs with
  | nil =>
    rw [spreadItems, List.append_assoc]
    exact parts_append (s.line_blank level) (parts_cons (by decide) _)
  | cons x xs => exact parts_cons (by decide) _

lemma parts_spreadMembers (s : Spacing) (level : ℕ) (ms : List (Option String × Json))
    (rest : List Char) : Parts (spreadMembers s level ms ++ rest) := by
  cases ms with
  | nil =>
    rw [spreadMembers, List.append_assoc]
    exact parts_append (s.line_blank level) (parts_cons (by decide) _)
  | cons m ms => exact parts_cons (by decide) _

/-- One item or more are read up to the closing bracket. -/
lemma readItems_spread (level : ℕ) {x : Json} {xs : List Json} (hxs : ∀ y ∈ x :: xs, Reads s y)
    (fuel : ℕ) (rest : List Char)
    (hfuel : 2 * ((spread s (level + 1) x).length + (spreadItems s level xs).length) < fuel) :
    readItems fuel (s.line (level + 1) ++ (spread s (level + 1) x ++
      (spreadItems s level xs ++ rest))) = some (x :: xs, rest) := by
  induction xs generalizing x fuel with
  | nil =>
    obtain ⟨fuel, rfl⟩ := Nat.exists_eq_add_one.mpr (Nat.zero_lt_of_lt hfuel)
    simp only [spreadItems, List.length_append, List.length_singleton] at hfuel
    have hx := hxs x List.mem_cons_self (level + 1) fuel _ (parts_spreadItems s level [] rest)
      (by omega)
    rw [readItems_append (s.line_blank _)]
    refine readItems_last hx ?_
    rw [spreadItems, List.append_assoc, skipSpace_append (s.line_blank _)]
    exact skipSpace_cons rfl _
  | cons y ys ih =>
    -- the comma pays for the step to the next item
    obtain ⟨fuel, rfl⟩ := Nat.exists_eq_add_one.mpr (Nat.zero_lt_of_lt hfuel)
    simp only [spreadItems, List.length_cons, List.length_append] at hfuel
    have hx := hxs x List.mem_cons_self (level + 1) fuel _
      (parts_spreadItems s level (y :: ys) rest) (by omega)
    have hys := ih (fun z hz => hxs z (List.mem_cons_of_mem _ hz)) fuel (by omega)
    rw [readItems_append (s.line_blank _)]
    refine readItems_more hx (skipSpace_cons rfl _) ?_
    simpa only [List.append_eq, List.append_assoc] using hys

/-- One member or more are read up to the closing brace. -/
lemma readMembers_spread (level : ℕ) {k : Option String} {x : Json}
    {ms : List (Option String × Json)} (hms : ∀ m ∈ (k, x) :: ms, Reads s m.2) (fuel : ℕ)
    (rest : List Char)
    (hfuel : 2 * ((spread s (level + 1) x).length + (spreadMembers s level ms).length) < fuel) :
    readMembers fuel (s.line (level + 1) ++ (printText k ++ ':' :: (s.gap ++
      (spread s (level + 1) x ++ (spreadMembers s level ms ++ rest))))) =
        some ((k, x) :: ms, rest) := by
  induction ms generalizing k x fuel with
  | nil =>
    obtain ⟨fuel, rfl⟩ := Nat.exists_eq_add_one.mpr (Nat.zero_lt_of_lt hfuel)
    simp only [spreadMembers, List.length_append, List.length_singleton] at hfuel
    have hx := hms (k, x) List.mem_cons_self (level + 1) fuel _
      (parts_spreadMembers s level [] rest) (by dsimp only; omega)
    obtain ⟨t, hk, ht⟩ := exists_readText k
    rw [hk]
    refine readMembers_last ?_ (ht _) ((readValue_append s.gap_blank _ _).trans hx) ?_
    · rw [skipSpace_append (s.line_blank _)]
      exact skipSpace_cons rfl _
    · rw [spreadMembers, List.append_assoc, skipSpace_append (s.line_blank _)]
      exact skipSpace_cons rfl _
  | cons m ms ih =>
    obtain ⟨i, y⟩ := m
    obtain ⟨fuel, rfl⟩ := Nat.exists_eq_add_one.mpr (Nat.zero_lt_of_lt hfuel)
    simp only [spreadMembers, List.length_cons, List.length_append] at hfuel
    have hx := hms (k, x) List.mem_cons_self (level + 1) fuel _
      (parts_spreadMembers s level ((i, y) :: ms) rest) (by dsimp only; omega)
    have hys := ih (fun z hz => hms z (List.mem_cons_of_mem _ hz)) fuel (by omega)
    obtain ⟨t, hk, ht⟩ := exists_readText k
    rw [hk]
    refine readMembers_more ?_ (ht _) ((readValue_append s.gap_blank _ _).trans hx)
      (skipSpace_cons rfl _) ?_
    · rw [skipSpace_append (s.line_blank _)]
      exact skipSpace_cons rfl _
    · simpa only [List.append_eq, List.append_assoc, List.cons_append] using hys

lemma reads_nat (n : ℕ) : Reads s (.nat n) := by
  intro level fuel rest hrest hfuel
  obtain ⟨fuel, rfl⟩ := Nat.exists_eq_add_one.mpr (Nat.zero_lt_of_lt hfuel)
  have hread := readNumber_printNat n hrest
  obtain ⟨d, ds, hds, hd⟩ := exists_printNat n
  rw [hds, List.cons_append] at hread
  rw [spread, print, hds, List.cons_append, readValue_digit hd, hread]

lemma reads_text (k : Option String) : Reads s (.text k) := by
  intro level fuel rest hrest hfuel
  obtain ⟨fuel, rfl⟩ := Nat.exists_eq_add_one.mpr (Nat.zero_lt_of_lt hfuel)
  obtain ⟨t, hk, ht⟩ := exists_readText k
  rw [spread, print, hk, readValue, List.cons_append, skipSpace_cons rfl]
  simp [ht]

lemma reads_array {xs : List Json} (h : ∀ x ∈ xs, Reads s x) : Reads s (.array xs) := by
  intro level fuel rest hrest hfuel
  obtain ⟨fuel, rfl⟩ := Nat.exists_eq_add_one.mpr (Nat.zero_lt_of_lt hfuel)
  cases xs with
  | nil => rw [spread]; rfl
  | cons x xs =>
    simp only [spread, List.length_cons, List.length_append] at hfuel
    have hxs := readItems_spread level h fuel rest (by omega)
    rw [spread, List.cons_append, List.append_assoc, List.append_assoc]
    exact readValue_array hxs

lemma reads_object {ms : List (Option String × Json)} (h : ∀ m ∈ ms, Reads s m.2) :
    Reads s (.object ms) := by
  intro level fuel rest hrest hfuel
  obtain ⟨fuel, rfl⟩ := Nat.exists_eq_add_one.mpr (Nat.zero_lt_of_lt hfuel)
  cases ms with
  | nil => rw [spread]; rfl
  | cons m ms =>
    simp only [spread, List.length_cons, List.length_append] at hfuel
    have hms := readMembers_spread level h fuel rest (by omega)
    rw [spread]
    refine readValue_object ?_
    simpa only [List.append_eq, List.append_assoc, List.cons_append] using hms

lemma Plain.reads (h : Plain j) : Reads s j := by
  induction h with
  | null =>
    intro level fuel rest hrest hfuel
    obtain ⟨fuel, rfl⟩ := Nat.exists_eq_add_one.mpr (Nat.zero_lt_of_lt hfuel)
    rw [spread]
    rfl
  | bool b =>
    intro level fuel rest hrest hfuel
    obtain ⟨fuel, rfl⟩ := Nat.exists_eq_add_one.mpr (Nat.zero_lt_of_lt hfuel)
    cases b <;> rw [spread] <;> rfl
  | nat n => exact reads_nat n
  | text k => exact reads_text k
  | array _ ih => exact reads_array ih
  | object _ ih => exact reads_object ih

lemma read?_spread (s : Spacing) (level : ℕ) (h : Plain j) : read? (spread s level j) = some j := by
  have hread := h.reads (s := s) level (2 * (spread s level j).length + 2) [] parts_nil (by omega)
  rw [List.append_nil] at hread
  rw [read?, hread]
  rfl

/-- Both texts of a document are read as that document. -/
lemma parse?_of_mem {text : String} (h : Plain j) (htext : text ∈ [j.compact, j.pretty]) :
    parse? text = some j := by
  rcases List.mem_pair.mp htext with rfl | rfl
  · rw [parse?, compact, String.toList_ofList, ← spread_tight 0]
    exact read?_spread tight 0 h
  · rw [parse?, pretty, String.toList_ofList, ← spread_airy]
    exact read?_spread airy 0 h

end Quorum.Json
