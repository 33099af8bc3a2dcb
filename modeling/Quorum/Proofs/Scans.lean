import Quorum.Proofs.Wals

/-!
What a scan reads is exactly what bytes begin with.

Bytes are the records of a log in order and a rest that does not begin with the next record, and in
one way only (`Frame.exists_records`, `Frame.Scan.Reads.unique`). The scan returns these records,
and reports damage if and only if there is a rest (`Frame.scan_exact`). So a file that an open log
has cut to its records is scanned without damage, and what the log then admits is what the scan
reads.
-/

namespace Quorum.Frame

variable {es : List Entry} {bytes rest : Bytes} {s : Scan}

/-! ### The end of the records -/

/-- The scan returns the longest sequence of records that the bytes begin with. -/
structure Scan.Reads (s : Scan) (bytes : Bytes) : Prop where
  numbered : Numbered s.entries
  legal : ∀ e ∈ s.entries, e.Fits
  within : s.size ≤ bytes.length
  read : encodeAll s.entries = bytes.take s.size
  stops : ∀ i r, s.records[i]? = some r → r.stop = (encodeAll (s.entries.take (i + 1))).length
  longest : ∀ e : Entry, e.Fits → e.index = s.entries.length + 1 →
    ¬ encode e <+: bytes.drop s.size
  damage : s.damage = none ↔ s.size = bytes.length

/-- Bytes do not begin with the next record just if they do not begin with its encoding. -/
lemma ends_iff {expected : Index} :
    Ends expected bytes ↔ ∀ e : Entry, e.Fits → e.index = expected → ¬ encode e <+: bytes := by
  constructor
  · rintro h e he rfl ⟨rest, rfl⟩
    exact h e rest (head_encode he rest)
  · intro h e rest hhead
    obtain ⟨rfl, he, hindex⟩ := head_eq_record hhead
    exact h e he hindex (List.prefix_append _ _)

lemma head_eq_nothing_iff {expected : Index} : head expected bytes = .nothing ↔ bytes = [] := by
  constructor
  · intro h
    unfold head at h
    split at h
    · rfl
    · dsimp only at h
      split at h
      · cases h
      · unfold headBody at h
        dsimp only at h
        split at h
        · cases h
        · split at h <;> cases h
    · cases h
  · rintro rfl
    rfl

/-- Where the next record is not there, reading stops for a reason unless it is at the end. -/
lemma scanFrom_damage {expected : Index} (h : Ends expected bytes) (start : ℕ) :
    (scanFrom expected start bytes).damage = none ↔ bytes = [] := by
  have hend : head expected bytes = .nothing ↔ bytes = [] := head_eq_nothing_iff
  rw [← hend, scanFrom]
  split
  · rename_i heq
    simp [heq]
  · rename_i d heq
    simp [heq]
  · rename_i e rest heq
    exact absurd heq (h e rest)

lemma stop_framed (es : List Entry) {i : ℕ} {r : Framed} (h : (framed es)[i]? = some r) :
    r.stop = (encodeAll (es.take (i + 1))).length := by
  induction es using List.reverseRecOn with
  | nil => simp [framed, framedFrom] at h
  | append_singleton es e ih =>
    rw [framed_snoc] at h
    rcases of_getElem?_snoc h with h | ⟨rfl, rfl⟩
    · have hlt := (List.getElem?_eq_some_iff.mp h).1
      rw [length_framed] at hlt
      rw [List.take_append_of_le_length (by omega)]
      exact ih h
    · rw [List.take_of_length_le (by simp)]

/-- Bytes are the records that are read of them, and a rest that is not the next record. -/
lemma exists_scan (bytes : Bytes) :
    ∃ es rest, bytes = encodeAll es ++ rest ∧ Numbered es ∧ (∀ e ∈ es, e.Fits) ∧
      Ends (es.length + 1) rest ∧ (scan bytes).records = framed es ∧
      (scan bytes).size = (encodeAll es).length ∧ ((scan bytes).damage = none ↔ rest = []) := by
  obtain ⟨es, rest, rfl, hn, hf, hends⟩ := exists_records Numbered.nil (by simp) bytes
  rw [List.nil_append] at hn hf hends
  obtain ⟨hrecords, hsize⟩ := scan_of_ends hn hf hends
  refine ⟨es, rest, rfl, hn, hf, hends, hrecords, hsize, ?_⟩
  rw [scan_encodeAll_append hn hf]
  exact scanFrom_damage hends _

namespace Scan.Reads

lemma of_records (hn : Numbered es) (hf : ∀ e ∈ es, e.Fits) (hends : Ends (es.length + 1) rest)
    (hrecords : s.records = framed es) (hsize : s.size = (encodeAll es).length)
    (hdamage : s.damage = none ↔ rest = []) : s.Reads (encodeAll es ++ rest) := by
  have hentries : s.entries = es := by rw [Scan.entries, hrecords, map_entry_framed]
  refine ⟨?_, ?_, ?_, ?_, ?_, ?_, ?_⟩
  · rwa [hentries]
  · rwa [hentries]
  · rw [hsize, List.length_append]
    omega
  · rw [hentries, hsize, List.take_left]
  · intro i r hr
    rw [hentries]
    exact stop_framed es (hrecords ▸ hr)
  · rw [hentries, hsize, List.drop_left]
    exact ends_iff.mp hends
  · rw [hdamage, hsize, List.length_append, ← List.length_eq_zero_iff]
    omega

lemma size_eq (h : s.Reads bytes) : s.size = (encodeAll s.entries).length := by
  rw [h.read, List.length_take, min_eq_left h.within]

lemma records_eq (h : s.Reads bytes) : s.records = framed s.entries := by
  have hlen : (framed s.entries).length = s.records.length := by
    rw [length_framed, Scan.entries, List.length_map]
  apply List.ext_getElem hlen.symm
  intro i hi hi'
  have hentry : s.records[i].entry = (framed s.entries)[i].entry := by
    have hmap : (framed s.entries).map (·.entry) = s.records.map (·.entry) := map_entry_framed _
    have hget := List.getElem_of_eq hmap (i := i) (by simpa using hi')
    simpa using hget.symm
  have hstop : s.records[i].stop = (framed s.entries)[i].stop := by
    rw [h.stops i _ (List.getElem?_eq_getElem hi),
      stop_framed s.entries (List.getElem?_eq_getElem hi')]
  calc s.records[i] = ⟨s.records[i].entry, s.records[i].stop⟩ := rfl
    _ = ⟨(framed s.entries)[i].entry, (framed s.entries)[i].stop⟩ := by rw [hentry, hstop]
    _ = (framed s.entries)[i] := rfl

/-- Nothing else is read of the same bytes. -/
lemma eq_scan (h : s.Reads bytes) :
    s.records = (scan bytes).records ∧ s.size = (scan bytes).size := by
  have hbytes : bytes = encodeAll s.entries ++ bytes.drop s.size := by
    rw [h.read, List.take_append_drop]
  obtain ⟨hrecords, hsize⟩ := scan_of_ends h.numbered h.legal (ends_iff.mpr h.longest)
  rw [← hbytes] at hrecords hsize
  exact ⟨h.records_eq.trans hrecords.symm, h.size_eq.trans hsize.symm⟩

end Scan.Reads

lemma scan_reads (bytes : Bytes) : (scan bytes).Reads bytes := by
  obtain ⟨es, rest, hbytes, hn, hf, hends, hrecords, hsize, hdamage⟩ := exists_scan bytes
  have h := Scan.Reads.of_records hn hf hends hrecords hsize hdamage
  rwa [← hbytes] at h

/-- The records of a log are scanned without damage. -/
lemma scan_encodeAll (hn : Numbered es) (hf : ∀ e ∈ es, e.Fits) :
    scan (encodeAll es) = ⟨framed es, (encodeAll es).length, none⟩ := by
  have h := scan_encodeAll_append hn hf []
  have hend := scanFrom_of_ends (ends_nil (es.length + 1)) (encodeAll es).length
  have hwhole := (scanFrom_damage (ends_nil (es.length + 1)) (encodeAll es).length).mpr rfl
  rw [List.append_nil] at h
  rw [h]
  simp only [hend.1, hend.2, hwhole, List.append_nil]

/-- What an open log admits is read behind its records. -/
lemma scan_extend (hn : Numbered es) (hf : ∀ e ∈ es, e.Fits) {e : Entry}
    (hterm : e.term < wordLimit) (hindex : e.index < wordLimit)
    (h : (Wal.of es).admits e = .ok ()) :
    scan (Wal.extend e (Wal.of es) (encodeAll es)).2 =
      ⟨framed (es ++ [e]), (encodeAll (es ++ [e])).length, none⟩ := by
  have hpayload : e.payload.length ≤ maxPayload := by
    unfold Wal.admits at h
    split_ifs at h with hlong
    omega
  have he : e.Fits := ⟨hterm, hindex, hpayload⟩
  have hnext : e.index = es.length + 1 := by
    rw [Wal.admits_of hn he] at h
    split_ifs at h with hnext
    exact hnext
  have hext := Wal.extend_of es e []
  rw [List.append_nil, List.drop_nil, List.append_nil] at hext
  rw [hext]
  exact scan_encodeAll (hn.snoc hnext) (fits_snoc hf he)

/-- **A scan reads exactly the records that bytes begin with**: the longest sequence that is
numbered 1, 2, 3, … and of which each record can be written, up to where it ends, and it reports no
damage if and only if that is the end of the bytes. No other result is one of these bytes. The bytes
up to there are scanned to the same records without damage, and so are the bytes of any records in
order. A log that was opened on the bytes admits a record only if the scan reads it behind the
others. -/
theorem scan_exact (bytes : Bytes) :
    (scan bytes).Reads bytes ∧
      (∀ s : Scan, s.Reads bytes →
        s.records = (scan bytes).records ∧ s.size = (scan bytes).size) ∧
      scan (bytes.take (scan bytes).size) = { scan bytes with damage := none } ∧
      (∀ es : List Entry, Numbered es → (∀ e ∈ es, e.Fits) →
        (scan (encodeAll es)).entries = es ∧ (scan (encodeAll es)).damage = none) ∧
      ∀ e : Entry, e.term < wordLimit → e.index < wordLimit →
        (Wal.recover bytes).1.admits e = .ok () →
          let file := (Wal.extend e (Wal.recover bytes).1 (Wal.recover bytes).2).2
          (scan file).entries = (scan bytes).entries ++ [e] ∧ (scan file).damage = none := by
  obtain ⟨es, rest, rfl, hn, hf, hends, hrecords, hsize, -⟩ := exists_scan bytes
  refine ⟨scan_reads _, fun s hs => hs.eq_scan, ?_, fun fs hn' hf' => ?_,
    fun e hterm hindex hadmits => ?_⟩
  · rw [hsize, List.take_left, scan_encodeAll hn hf]
    simp only [hrecords, hsize]
  · rw [scan_encodeAll hn' hf']
    exact ⟨map_entry_framed fs, rfl⟩
  · rw [Wal.recover_of_ends hn hf hends] at hadmits ⊢
    dsimp only at hadmits ⊢
    rw [scan_extend hn hf hterm hindex hadmits, Scan.entries, Scan.entries, hrecords,
      map_entry_framed, map_entry_framed]
    exact ⟨rfl, rfl⟩

/-- A file that holds a record and all but the last byte of another one. -/
def torn : Bytes := encodeAll [⟨1, 1, [7]⟩] ++ (encode ⟨3, 2, [5]⟩).take 20

lemma numbered_one : Numbered [⟨1, 1, [7]⟩] := by decide

lemma fits_one : ∀ e ∈ [(⟨1, 1, [7]⟩ : Entry)], e.Fits := by decide

lemma ends_torn : Ends 2 ((encode ⟨3, 2, [5]⟩).take 20) :=
  ends_take_encode ⟨by decide, by decide, by decide⟩ (by decide) 2

/-- The whole record is read, and another one can be written in the place of the second. -/
theorem scan_exact_torn :
    (scan torn).entries = [⟨1, 1, [7]⟩] ∧ (scan torn).size ≠ torn.length ∧
      (scan torn).damage ≠ none ∧
      (scan (encodeAll [⟨1, 1, [7]⟩])).entries = [⟨1, 1, [7]⟩] ∧
      (scan (Wal.extend ⟨2, 2, [6]⟩ (Wal.recover torn).1 (Wal.recover torn).2).2).entries =
        [⟨1, 1, [7]⟩, ⟨2, 2, [6]⟩] := by
  obtain ⟨hrecords, hsize⟩ := scan_of_ends numbered_one fits_one ends_torn
  have hentries : (scan torn).entries = [⟨1, 1, [7]⟩] := by
    rw [Scan.entries, torn, hrecords, map_entry_framed]
  have hshort : (scan torn).size ≠ torn.length := by
    rw [torn, hsize]
    decide
  have hadmits : (Wal.recover torn).1.admits ⟨2, 2, [6]⟩ = .ok () := by
    rw [torn, Wal.recover_of_ends numbered_one fits_one ends_torn]
    rfl
  obtain ⟨hreads, -, -, hwhole, hnext⟩ := scan_exact torn
  have hgrown := (hnext ⟨2, 2, [6]⟩ (by decide) (by decide) hadmits).1
  rw [hentries] at hgrown
  exact ⟨hentries, hshort, fun h => hshort (hreads.damage.mp h),
    (hwhole _ numbered_one fits_one).1, hgrown⟩

end Quorum.Frame
