import Quorum.Proofs.Frames
import Quorum.Storage.Memory
import Quorum.Storage.Torn

/-!
What the operations of an open log do to the bytes of its file.

`Wal.of es` is what is remembered of a file that holds the records `es`, and behind them possibly
bytes that an append has left that did not come to its end. Every operation leads from such a file
to another: adding a record, cutting off the last ones, rolling back one that was not written to its
end, and opening the file with whatever is left at its end.
-/

namespace Quorum

open Quorum.Frame

namespace Wal

/-- What is remembered of a file that holds these records and nothing else. -/
def of (es : List Entry) : Wal :=
  ⟨(encodeAll es).length, (Memory.lastOf es).1, (Memory.lastOf es).2⟩

variable {es : List Entry} {e : Entry}

lemma endingAt_framed (es : List Entry) : endingAt (framed es).getLast? = of es := by
  rcases List.eq_nil_or_concat' es with rfl | ⟨es, e, rfl⟩
  · rfl
  · simp [getLast?_framed, endingAt, of, Memory.lastOf]

/-- Opening drops what is behind the records if it is not the next one. -/
lemma recover_of_ends (hn : Numbered es) (hf : ∀ e ∈ es, e.Fits) {rest : Bytes}
    (h : Ends (es.length + 1) rest) : recover (encodeAll es ++ rest) = (of es, encodeAll es) := by
  obtain ⟨hrecords, hsize⟩ := scan_of_ends hn hf h
  simp only [recover, hrecords, hsize, endingAt_framed, List.take_left]
  rfl

lemma recover_encodeAll (hn : Numbered es) (hf : ∀ e ∈ es, e.Fits) :
    recover (encodeAll es) = (of es, encodeAll es) := by
  have h := recover_of_ends hn hf (ends_nil _)
  rwa [List.append_nil] at h

lemma admits_of (hn : Numbered es) (he : e.Fits) :
    (of es).admits e = if e.index = es.length + 1 then .ok ()
      else .error (.indexMismatch (es.length + 1) e.index) := by
  have hlast : (of es).lastIndex = es.length := Memory.lastOf_fst hn
  rw [admits, if_neg (Nat.not_lt.mpr he.payload), hlast]
  by_cases h : e.index = es.length + 1 <;> simp [h]

/-- Bytes written behind the records take the place of what was there, as far as they reach. -/
lemma overwrite_of (es : List Entry) (new rest : Bytes) :
    Files.overwrite (of es).size new (encodeAll es ++ rest) =
      encodeAll es ++ (new ++ rest.drop new.length) := by
  have hsize : (of es).size = (encodeAll es).length := rfl
  rw [hsize, Files.overwrite_eq, List.take_left, List.drop_append]
  simp

lemma extend_of (es : List Entry) (e : Entry) (rest : Bytes) :
    extend e (of es) (encodeAll es ++ rest) =
      (of (es ++ [e]), encodeAll (es ++ [e]) ++ rest.drop (encode e).length) := by
  rw [extend, overwrite_of]
  simp [of, encodeAll_snoc, Memory.lastOf]

lemma records_of (hn : Numbered es) (hf : ∀ e ∈ es, e.Fits) (rest : Bytes) :
    (of es).records (encodeAll es ++ rest) = es := by
  have hown : (encodeAll es ++ rest).take (of es).size = encodeAll es := List.take_left
  rw [records, hown, Scan.entries, records_scan hn hf, map_entry_framed]

/-- Cutting keeps the first records, and no byte of what is behind them. If there is none to cut
off, nothing is cut off. -/
lemma cut_of (hn : Numbered es) (hf : ∀ e ∈ es, e.Fits) (k : Index) (rest : Bytes) :
    cut k (of es) (encodeAll es ++ rest) =
      (of (es.take k), encodeAll (es.take k) ++ if es.length ≤ k then rest else []) := by
  have hlast : (of es).lastIndex = es.length := Memory.lastOf_fst hn
  rw [cut, hlast]
  split
  · rename_i hk
    rw [List.take_of_length_le hk]
  · rename_i hk
    have hkept : (scan (encodeAll es ++ rest)).records.takeWhile (fun r => r.entry.index ≤ k) =
        framed (es.take k) := by
      have hless : (framed (es.take k)).length ≠ (framed es).length := by
        have hlt : k < es.length := Nat.lt_of_not_le hk
        rw [length_framed, length_framed, List.length_take, Nat.min_eq_left (Nat.le_of_lt hlt)]
        exact Nat.ne_of_lt hlt
      rw [scan_encodeAll_append hn hf]
      dsimp only
      rw [List.takeWhile_append, takeWhile_framed hn, if_neg hless]
    have hbytes : encodeAll es ++ rest =
        encodeAll (es.take k) ++ (encodeAll (es.drop k) ++ rest) := by
      rw [← List.append_assoc, ← encodeAll_append, List.take_append_drop]
    have hcut : (encodeAll es ++ rest).take (of (es.take k)).size = encodeAll (es.take k) := by
      rw [hbytes]
      exact List.take_left
    simp only [hkept, endingAt_framed, hcut, List.append_nil]

lemma tear_of (es : List Entry) (e : Entry) (written : ℕ) (rest : Bytes) :
    (of es).tear written e (encodeAll es ++ rest) = encodeAll es ++
      ((encode e).take written ++ rest.drop ((encode e).take written).length) :=
  overwrite_of _ _ _

/-- Rolling back leaves no trace of what is behind the records. -/
lemma rollBack_of (es : List Entry) (rest : Bytes) :
    (of es).rollBack (encodeAll es ++ rest) = encodeAll es := by
  have hsize : (of es).size = (encodeAll es).length := rfl
  rw [rollBack, hsize, Files.resize, List.take_left]
  simp

/-- The records after an append was interrupted: the new one is there if all its bytes are. -/
lemma recover_tear (hn : Numbered es) (hf : ∀ e ∈ es, e.Fits) (he : e.Fits)
    (hi : e.index = es.length + 1) (written : ℕ) :
    let kept := if (encode e).length ≤ written then es ++ [e] else es
    recover ((of es).tear written e (encodeAll es)) = (of kept, encodeAll kept) := by
  have htear : (of es).tear written e (encodeAll es) = encodeAll es ++ (encode e).take written := by
    simpa using tear_of es e written []
  rw [htear]
  split
  · rename_i hall
    rw [List.take_of_length_le hall, ← encodeAll_snoc]
    exact recover_encodeAll (hn.snoc hi) (fits_snoc hf he)
  · rename_i hpart
    exact recover_of_ends hn hf (ends_take_encode he (Nat.lt_of_not_le hpart) _)

end Wal

end Quorum
