import Quorum.Kv
import Quorum.Proofs.Texts

/-!
What an entry does to the key-value store.

A command has one text (`Kv.Command.text`), and an entry holds the command whose text its payload
is, up to blanks at the ends (`Kv.Says`). It puts a value under one key or removes one key, and no
other key is touched. The key of `DEL` is the last word of its command, so blanks at its end are
lost where `SET` keeps them: such a key can be set but not deleted (`Kv.set_then_delete`).
-/

namespace Quorum

namespace Kv

variable {kv kv' : Kv} {e : Entry} {c : Command} {j : String} {cs key value w rest : List Char}

/-! ### Values by key -/

lemma get?_cons (k v : String) (ps : List (String × String)) :
    (Kv.mk ((k, v) :: ps)).get? j = if k = j then some v else (Kv.mk ps).get? j := by
  by_cases hk : k = j <;> simp [get?, hk]

lemma get?_insert (k v : String) (kv : Kv) :
    (kv.insert k v).get? j = if k = j then some v else kv.get? j := by
  obtain ⟨ps⟩ := kv
  unfold insert
  induction ps with
  | nil => rw [insertPair, get?_cons]
  | cons p ps ih =>
    obtain ⟨i, u⟩ := p
    dsimp only at ih ⊢
    by_cases hlt : k < i
    · rw [insertPair, if_pos hlt, get?_cons]
    · by_cases hi : i = k
      · subst hi
        rw [insertPair, if_neg hlt, if_pos rfl, get?_cons, get?_cons]
        split <;> rfl
      · rw [insertPair, if_neg hlt, if_neg hi, get?_cons, get?_cons, ih]
        split_ifs with h1 h2
        · exact absurd (h1.trans h2.symm) hi
        all_goals rfl

lemma get?_erase (k : String) (kv : Kv) :
    (kv.erase k).get? j = if k = j then none else kv.get? j := by
  obtain ⟨ps⟩ := kv
  unfold erase
  induction ps with
  | nil => split <;> rfl
  | cons p ps ih =>
    obtain ⟨i, u⟩ := p
    dsimp only at ih ⊢
    by_cases hi : i = k
    · subst hi
      rw [List.filter_cons_of_neg (by simp), ih, get?_cons]
      split_ifs <;> rfl
    · rw [List.filter_cons_of_pos (by simpa using hi), get?_cons, get?_cons, ih]
      split_ifs with h1 h2
      · exact absurd (h1.trans h2.symm) hi
      all_goals rfl

/-- What a command says of a key: a value to put there, or that it is to be removed. -/
def Command.ruling? (j : String) : Command → Option (Option String)
  | .nothing => none
  | .set key value => if String.ofList key = j then some (some (String.ofList value)) else none
  | .delete key => if String.ofList key = j then some none else none

lemma get?_run (c : Command) (kv : Kv) :
    (run c kv).get? j = (c.ruling? j).getD (kv.get? j) := by
  cases c with
  | nothing => rfl
  | set key value =>
    rw [run, get?_insert, Command.ruling?]
    split <;> rfl
  | delete key =>
    rw [run, get?_erase, Command.ruling?]
    split <;> rfl

/-! ### Commands and their texts -/

namespace Command

/-- A command as it is written, without blanks at its ends. -/
def text : Command → List Char
  | .nothing => []
  | .set key value => ['S', 'E', 'T', ' '] ++ (key ++ ' ' :: value)
  | .delete key => ['D', 'E', 'L', ' '] ++ key

/-- The command's key is one word. -/
def Keyed : Command → Prop
  | .nothing => True
  | .set key _ => ' ' ∉ key
  | .delete key => ' ' ∉ key

instance : (c : Command) → Decidable c.Keyed
  | .nothing => .isTrue trivial
  | .set key _ => inferInstanceAs (Decidable (' ' ∉ key))
  | .delete key => inferInstanceAs (Decidable (' ' ∉ key))

/-- An entry whose payload is a command. -/
def entry (term : Term) (index : Index) (c : Command) : Entry :=
  ⟨term, index, Utf8.encode c.text⟩

end Command

lemma cutAtSpace_append (hw : ' ' ∉ w) (rest : List Char) :
    cutAtSpace (w ++ ' ' :: rest) = (w, some rest) := by
  have hall : ∀ x ∈ w, decide (x ≠ ' ') = true := fun x hx =>
    decide_eq_true fun h => hw (h ▸ hx)
  rw [cutAtSpace, List.dropWhile_append_of_pos hall, List.takeWhile_append_of_pos hall]
  simp

lemma cutAtSpace_of_not_mem (hw : ' ' ∉ w) : cutAtSpace w = (w, none) := by
  have hall : w.dropWhile (· ≠ ' ') = [] :=
    List.dropWhile_eq_nil_iff.mpr fun x hx => decide_eq_true fun h => hw (h ▸ hx)
  rw [cutAtSpace, hall]

lemma cutAtSpace_cases (cs : List Char) :
    ' ' ∉ cs ∧ cutAtSpace cs = (cs, none) ∨
      ∃ w rest, ' ' ∉ w ∧ cs = w ++ ' ' :: rest ∧ cutAtSpace cs = (w, some rest) := by
  by_cases h : ' ' ∈ cs
  · obtain ⟨w, rest, rfl, hw⟩ := List.eq_append_cons_of_mem h
    exact Or.inr ⟨w, rest, hw, rfl, cutAtSpace_append hw rest⟩
  · exact Or.inl ⟨h, cutAtSpace_of_not_mem h⟩

lemma command?_text (hc : c.Keyed) : command? c.text = some c := by
  cases c with
  | nothing => rfl
  | set key value =>
    have hcut := cutAtSpace_append (w := ['S', 'E', 'T']) (by decide) (key ++ ' ' :: value)
    have htext : (Command.set key value).text = ['S', 'E', 'T'] ++ ' ' :: (key ++ ' ' :: value) :=
      rfl
    rw [htext, command?, if_neg (by simp), hcut]
    dsimp only
    rw [cutAtSpace_append hc]
    rfl
  | delete key =>
    have hcut := cutAtSpace_append (w := ['D', 'E', 'L']) (by decide) key
    have htext : (Command.delete key).text = ['D', 'E', 'L'] ++ ' ' :: key := rfl
    rw [htext, command?, if_neg (by simp), hcut]
    dsimp only
    rw [cutAtSpace_of_not_mem hc]
    rfl

lemma text_of_command? (h : command? cs = some c) : cs = c.text ∧ c.Keyed := by
  unfold command? at h
  split_ifs at h with hnil
  · cases h
    exact ⟨hnil, trivial⟩
  rcases cutAtSpace_cases cs with ⟨-, hcut⟩ | ⟨w, rest, -, rfl, hcut⟩
  · rw [hcut] at h
    cases h
  rw [hcut] at h
  dsimp only at h
  rcases cutAtSpace_cases rest with ⟨hkey, hcut'⟩ | ⟨key, value, hkey, rfl, hcut'⟩
  · rw [hcut'] at h
    dsimp only at h
    split_ifs at h with hw
    cases h
    exact ⟨by rw [hw]; rfl, hkey⟩
  · rw [hcut'] at h
    dsimp only at h
    split_ifs at h with hw
    cases h
    exact ⟨by rw [hw]; rfl, hkey⟩

/-- The payload of an entry is the text of a command, perhaps between blanks. -/
def Says (e : Entry) (c : Command) : Prop :=
  ∃ cs, e.payload = Utf8.encode cs ∧ Text.trim cs = c.text ∧ c.Keyed

lemma commandOf_eq_ok_iff : commandOf e = .ok c ↔ Says e c := by
  unfold commandOf
  constructor
  · intro h
    rcases hcs : Utf8.decode e.payload with fault | cs
    · rw [hcs] at h
      cases h
    · rw [hcs] at h
      dsimp only at h
      rcases hc : command? (Text.trim cs) with _ | c'
      · rw [hc] at h
        cases h
      · rw [hc] at h
        cases h
        obtain ⟨htext, hkeyed⟩ := text_of_command? hc
        exact ⟨cs, Utf8.decode_eq_ok_iff.mp hcs, htext, hkeyed⟩
  · rintro ⟨cs, hpayload, htext, hkeyed⟩
    rw [Utf8.decode_eq_ok_iff.mpr hpayload]
    dsimp only
    rw [htext, command?_text hkeyed]

lemma Says.apply (h : Says e c) (kv : Kv) : kv.apply e = .ok (run c kv) := by
  rw [Kv.apply, commandOf_eq_ok_iff.mpr h]

/-! ### The key of a command -/

/-- One key is given a value or has none any more, and every other key is as it was. -/
def Puts (key : List Char) (value : Option (List Char)) (kv kv' : Kv) : Prop :=
  ∀ j, kv'.get? j = if String.ofList key = j then value.map String.ofList else kv.get? j

lemma puts_set (key value : List Char) (kv : Kv) :
    Puts key (some value) kv (run (.set key value) kv) := fun _ => get?_insert _ _ _

lemma puts_delete (key : List Char) (kv : Kv) : Puts key none kv (run (.delete key) kv) :=
  fun _ => get?_erase _ _

lemma says_set (t : Term) (i : Index) (hkey : ' ' ∉ key) (hvalue : value ≠ [])
    (hend : ¬ Text.EndsBlank value) :
    Says ((Command.set key value).entry t i) (.set key value) := by
  refine ⟨_, rfl, ?_, hkey⟩
  have hsplit : (Command.set key value).text =
      ('S' :: 'E' :: 'T' :: ' ' :: (key ++ [' '])) ++ value := by
    simp [Command.text]
  have htrim := Text.trim_cons (x := 'S') rfl ('E' :: 'T' :: ' ' :: (key ++ [' ']) ++ value)
  rw [hsplit, List.cons_append, htrim, ← List.cons_append, Text.rdropWhile_append,
    Text.rdropWhile_eq_self_iff.mpr hend, if_neg hvalue]

/-- The command that an entry with `DEL` and a key holds: blanks at the end are not of the key. -/
lemma trim_delete (key : List Char) :
    Text.trim (Command.delete key).text =
      if key.rdropWhile Text.isBlank = [] then ['D', 'E', 'L']
      else (Command.delete (key.rdropWhile Text.isBlank)).text := by
  rw [Command.text, List.cons_append, Text.trim_cons rfl, ← List.cons_append,
    Text.rdropWhile_append]
  rfl

lemma says_delete (t : Term) (i : Index) (hkey : ' ' ∉ key)
    (hne : key.rdropWhile Text.isBlank ≠ []) :
    Says ((Command.delete key).entry t i) (.delete (key.rdropWhile Text.isBlank)) := by
  refine ⟨_, rfl, ?_, fun h => hkey ((List.rdropWhile_prefix _ _).subset h)⟩
  rw [trim_delete, if_neg hne]

lemma apply_delete_blank (t : Term) (i : Index) (hnil : key.rdropWhile Text.isBlank = [])
    (kv : Kv) :
    kv.apply ((Command.delete key).entry t i) = .error (.unrecognised i ['D', 'E', 'L']) := by
  have hdecode : Utf8.decode ((Command.delete key).entry t i).payload =
      .ok (Command.delete key).text := Utf8.decode_eq_ok_iff.mpr rfl
  rw [apply, commandOf, hdecode]
  dsimp only
  rw [trim_delete, if_pos hnil]
  rfl

/-- **`SET` takes its key as it is, and `DEL` takes it without the blanks at its end.** A key
without a space is given exactly the value, if that does not end in a blank, and no other key is
touched. The deletion that follows removes exactly the key without the blanks at its end. So it
undoes the setting if and only if the key does not end in a blank; a key of blanks alone is
refused. -/
theorem set_then_delete (kv : Kv) (key value : List Char) (s t : Term) (i j : Index)
    (hkey : key ≠ []) (hspace : ' ' ∉ key) (hvalue : value ≠ []) (hend : ¬ Text.EndsBlank value) :
    ∃ kv', kv.apply ((Command.set key value).entry s i) = .ok kv' ∧
      Puts key (some value) kv kv' ∧
      ((∃ kv'', kv'.apply ((Command.delete key).entry t j) = .ok kv'' ∧ Puts key none kv' kv'') ↔
        ¬ Text.EndsBlank key) ∧
      (key.rdropWhile Text.isBlank ≠ [] →
        ∃ kv'', kv'.apply ((Command.delete key).entry t j) = .ok kv'' ∧
          Puts (key.rdropWhile Text.isBlank) none kv' kv'') ∧
      (key.rdropWhile Text.isBlank = [] →
        kv'.apply ((Command.delete key).entry t j) = .error (.unrecognised j ['D', 'E', 'L'])) := by
  have hputs := puts_set key value kv
  refine ⟨_, (says_set s i hspace hvalue hend).apply kv, hputs, ⟨?_, fun hlast => ?_⟩,
    fun hne => ⟨_, (says_delete t j hspace hne).apply _, puts_delete _ _⟩,
    fun hnil => apply_delete_blank t j hnil _⟩
  · rintro ⟨kv'', hok, hgone⟩
    rw [← Text.rdropWhile_eq_self_iff]
    by_cases hnil : key.rdropWhile Text.isBlank = []
    · rw [apply_delete_blank t j hnil] at hok
      cases hok
    -- what is removed is the key itself, since that has its value otherwise
    rw [(says_delete t j hspace hnil).apply] at hok
    cases hok
    have hnone := hgone (String.ofList key)
    rw [puts_delete, if_pos rfl] at hnone
    by_contra hne
    rw [if_neg (fun h => hne (String.ofList_injective h)), hputs, if_pos rfl] at hnone
    cases hnone
  · have hself := Text.rdropWhile_eq_self_iff.mpr hlast
    have hheld := says_delete t j hspace (by rwa [hself])
    rw [hself] at hheld
    exact ⟨_, hheld.apply _, puts_delete _ _⟩

/-- The key that ends in a tab stays, and the key before the tab goes instead. -/
theorem set_then_delete_tab :
    ∃ kv', apply ((Command.set ['a', '\t'] ['1']).entry 1 2) ⟨[("a", "0")]⟩ = .ok kv' ∧
      kv'.get? "a\t" = some "1" ∧ kv'.get? "a" = some "0" ∧
      ∃ kv'', kv'.apply ((Command.delete ['a', '\t']).entry 1 3) = .ok kv'' ∧
        kv''.get? "a\t" = some "1" ∧ kv''.get? "a" = none ∧ ¬ Puts ['a', '\t'] none kv' kv'' := by
  have hvalue : ¬ Text.EndsBlank ['1'] := by simp [Text.EndsBlank, Text.isBlank]
  have hkey : Text.EndsBlank ['a', '\t'] := by simp [Text.EndsBlank, Text.isBlank]
  obtain ⟨kv', hset, hputs, hundone, hgone, -⟩ := set_then_delete ⟨[("a", "0")]⟩
    ['a', '\t'] ['1'] 1 1 2 3 (by decide) (by decide) (by decide) hvalue
  obtain ⟨kv'', hdelete, hother⟩ := hgone (by decide)
  have hkeep : kv'.get? "a\t" = some "1" := (hputs _).trans (if_pos rfl)
  have hapart : kv'.get? "a" = some "0" := (hputs _).trans (if_neg (by decide))
  exact ⟨kv', hset, hkeep, hapart, kv'', hdelete,
    (hother _).trans ((if_neg (by decide)).trans hkeep), (hother _).trans (if_pos rfl),
    fun h => hundone.mp ⟨kv'', hdelete, h⟩ hkey⟩

end Kv

end Quorum
