import Mathlib.Tactic
import Quorum.Proofs.Stores
import Quorum.Storage.Frame

/-!
Framed records read back.

A number that fits its width is read back from its bytes, and so a record is read back from the
front of any bytes that begin with it. No proper beginning of a record is taken for one, whatever
the record holds: the length in front says how much is missing. Scanning the records of a log in
order therefore gives back these records and goes on behind them (`Frame.scan_encodeAll_append`).

Conversely, what is read as a record is the bytes of one (`Frame.head_eq_record`), so whatever is
behind the records of a log is more records and a rest (`Frame.exists_records`).
-/

namespace Quorum

/-! ### Numbers in bytes -/

@[simp] lemma length_bigEndian (width n : ℕ) : (bigEndian width n).length = width := by
  induction width with
  | zero => rfl
  | succ width ih => simp [bigEndian, ih]

lemma foldl_ofBigEndian (bs : Bytes) (n : ℕ) :
    bs.foldl (fun n b => 256 * n + b.toNat) n = 256 ^ bs.length * n + ofBigEndian bs := by
  induction bs generalizing n with
  | nil => simp [ofBigEndian]
  | cons b bs ih =>
    simp only [ofBigEndian, List.foldl_cons, List.length_cons] at ih ⊢
    rw [ih, ih (256 * 0 + b.toNat), pow_succ]
    ring

lemma ofBigEndian_cons (b : UInt8) (bs : Bytes) :
    ofBigEndian (b :: bs) = 256 ^ bs.length * b.toNat + ofBigEndian bs := by
  rw [← foldl_ofBigEndian, ofBigEndian, List.foldl_cons, Nat.mul_zero, Nat.zero_add]

/-- Bytes give back the number as far as it fits. -/
lemma ofBigEndian_bigEndian (width n : ℕ) : ofBigEndian (bigEndian width n) = n % 256 ^ width := by
  induction width with
  | zero => simp [bigEndian, ofBigEndian, Nat.mod_one]
  | succ width ih =>
    have hbyte : (UInt8.ofNat (n / Nat.pow 256 width % 256)).toNat = n / 256 ^ width % 256 := by
      simp
    rw [bigEndian, ofBigEndian_cons, hbyte, ih, length_bigEndian, Nat.mod_pow_succ]
    omega

lemma ofBigEndian_word {n : ℕ} (h : n < wordLimit) : ofBigEndian (bigEndian 8 n) = n := by
  rw [ofBigEndian_bigEndian]
  exact Nat.mod_eq_of_lt h

lemma ofBigEndian_lt (bs : Bytes) : ofBigEndian bs < 256 ^ bs.length := by
  induction bs with
  | nil => simp [ofBigEndian]
  | cons b bs ih =>
    have hb : b.toNat < 256 := b.toNat_lt
    rw [ofBigEndian_cons, List.length_cons, pow_succ]
    nlinarith

/-- Only as much of a number is written as the bytes hold. -/
lemma bigEndian_add_mul (width k n : ℕ) :
    bigEndian width (256 ^ width * k + n) = bigEndian width n := by
  induction width generalizing k with
  | zero => rfl
  | succ width ih =>
    have hsplit : 256 ^ (width + 1) * k + n = 256 ^ width * (256 * k) + n := by ring
    have hpos : 0 < 256 ^ width := by positivity
    have hdigit : (256 ^ width * (256 * k) + n) / Nat.pow 256 width % 256 =
        n / Nat.pow 256 width % 256 := by
      show (256 ^ width * (256 * k) + n) / 256 ^ width % 256 = n / 256 ^ width % 256
      rw [Nat.mul_add_div hpos, Nat.mul_add_mod]
    rw [hsplit, bigEndian, bigEndian, hdigit, ih]

/-- A number that was read from bytes is written as these. -/
lemma bigEndian_ofBigEndian (bs : Bytes) : bigEndian bs.length (ofBigEndian bs) = bs := by
  induction bs with
  | nil => rfl
  | cons b bs ih =>
    have hdigit : ofBigEndian (b :: bs) / Nat.pow 256 bs.length % 256 = b.toNat := by
      show ofBigEndian (b :: bs) / 256 ^ bs.length % 256 = b.toNat
      rw [ofBigEndian_cons, Nat.mul_add_div (by positivity), Nat.div_eq_of_lt (ofBigEndian_lt bs),
        Nat.add_zero, Nat.mod_eq_of_lt b.toNat_lt]
    rw [List.length_cons, bigEndian, hdigit, ofBigEndian_cons, bigEndian_add_mul, ih,
      UInt8.ofNat_toNat]

/-- The entry can be written as a record. -/
structure Entry.Fits (e : Entry) : Prop where
  term : e.term < wordLimit
  index : e.index < wordLimit
  payload : e.payload.length ≤ Frame.maxPayload

instance (e : Entry) : Decidable e.Fits :=
  decidable_of_iff (e.term < wordLimit ∧ e.index < wordLimit ∧ e.payload.length ≤ Frame.maxPayload)
    ⟨fun h => ⟨h.1, h.2.1, h.2.2⟩, fun h => ⟨h.term, h.index, h.payload⟩⟩

lemma fits_snoc {es : List Entry} {e : Entry} (hf : ∀ f ∈ es, f.Fits) (he : e.Fits) :
    ∀ f ∈ es ++ [e], f.Fits := by
  intro f hmem
  rcases List.mem_append.mp hmem with hmem | hmem
  · exact hf f hmem
  · rwa [List.mem_singleton.mp hmem]

namespace Frame

/-! ### One record -/

lemma length_encode (e : Entry) :
    (encode e).length = lengthSize + headerSize + e.payload.length := by
  simp [encode, lengthSize, headerSize]
  omega

/-- Bytes of a length, in front of those of a body. -/
lemma head_length_append {n : ℕ} (hlo : headerSize ≤ n) (hhi : n ≤ headerSize + maxPayload)
    (expected : Index) (body : Bytes) :
    head expected (bigEndian lengthSize n ++ body) = headBody expected n body := by
  have hn : ofBigEndian (bigEndian lengthSize n) = n := by
    rw [ofBigEndian_bigEndian]
    refine Nat.mod_eq_of_lt (lt_of_le_of_lt hhi ?_)
    norm_num [headerSize, maxPayload, lengthSize]
  obtain ⟨a, b, c, d, hbytes⟩ : ∃ a b c d, bigEndian lengthSize n = [a, b, c, d] :=
    ⟨_, _, _, _, rfl⟩
  rw [hbytes] at hn ⊢
  have hrange : ¬ (n < headerSize ∨ headerSize + maxPayload < n) := by omega
  simp only [List.cons_append, List.nil_append, head, hn, if_neg hrange]

/-- A record is read from the front of what begins with it. -/
lemma head_encode {e : Entry} (h : e.Fits) (rest : Bytes) :
    head e.index (encode e ++ rest) = .record e rest := by
  have hbody : encode e ++ rest = bigEndian lengthSize (headerSize + e.payload.length) ++
      (bigEndian 8 e.term ++ (bigEndian 8 e.index ++ (e.payload ++ rest))) := by
    simp [encode]
  have hlen : (bigEndian 8 e.term ++ (bigEndian 8 e.index ++ e.payload)).length =
      headerSize + e.payload.length := by
    simp [headerSize]
    omega
  have hhere : (bigEndian 8 e.term ++ (bigEndian 8 e.index ++ (e.payload ++ rest))) =
      (bigEndian 8 e.term ++ (bigEndian 8 e.index ++ e.payload)) ++ rest := by simp
  rw [hbody, head_length_append (Nat.le_add_right _ _) (Nat.add_le_add_left h.payload _), headBody,
    hhere, List.take_left' hlen, List.drop_left' hlen]
  have hterm : (bigEndian 8 e.term ++ (bigEndian 8 e.index ++ e.payload)).take 8 =
      bigEndian 8 e.term := List.take_left' (length_bigEndian _ _)
  have hindex : ((bigEndian 8 e.term ++ (bigEndian 8 e.index ++ e.payload)).drop 8).take 8 =
      bigEndian 8 e.index := by
    rw [List.drop_left' (length_bigEndian _ _), List.take_left' (length_bigEndian _ _)]
  have hpayload : (bigEndian 8 e.term ++ (bigEndian 8 e.index ++ e.payload)).drop headerSize =
      e.payload := by
    rw [← List.append_assoc]
    exact List.drop_left' (by simp [headerSize])
  simp only [hlen, hterm, hindex, hpayload, ofBigEndian_word h.term, ofBigEndian_word h.index]
  simp

/-- The entry that the body of a record stands for. -/
def entryOf (body : Bytes) : Entry :=
  ⟨ofBigEndian (body.take 8), ofBigEndian ((body.drop 8).take 8), body.drop headerSize⟩

section

variable {body : Bytes}

lemma length_take_eight (hlo : headerSize ≤ body.length) :
    (body.take 8).length = 8 ∧ ((body.drop 8).take 8).length = 8 := by
  simp only [headerSize, List.length_take, List.length_drop] at hlo ⊢
  omega

lemma encode_entryOf {a b c d : UInt8} (hlen : body.length = ofBigEndian [a, b, c, d])
    (hlo : headerSize ≤ body.length) : encode (entryOf body) = a :: b :: c :: d :: body := by
  obtain ⟨hfirst, hsecond⟩ := length_take_eight hlo
  have hlength : headerSize + (entryOf body).payload.length = ofBigEndian [a, b, c, d] := by
    rw [← hlen, entryOf, List.length_drop]
    omega
  have hfront : bigEndian lengthSize (ofBigEndian [a, b, c, d]) = [a, b, c, d] :=
    bigEndian_ofBigEndian [a, b, c, d]
  have hterm : bigEndian 8 (entryOf body).term = body.take 8 := by
    have h := bigEndian_ofBigEndian (body.take 8)
    rwa [hfirst] at h
  have hindex : bigEndian 8 (entryOf body).index = (body.drop 8).take 8 := by
    have h := bigEndian_ofBigEndian ((body.drop 8).take 8)
    rwa [hsecond] at h
  have hparts : body.take 8 ++ ((body.drop 8).take 8 ++ body.drop headerSize) = body := by
    have htwo : (body.drop 8).drop 8 = body.drop headerSize := List.drop_drop
    rw [← htwo, List.take_append_drop, List.take_append_drop]
  rw [encode, hlength, hfront, hterm, hindex]
  exact congrArg ([a, b, c, d] ++ ·) hparts

lemma fits_entryOf (hlo : headerSize ≤ body.length)
    (hhi : body.length ≤ headerSize + maxPayload) : (entryOf body).Fits := by
  obtain ⟨hfirst, hsecond⟩ := length_take_eight hlo
  refine ⟨?_, ?_, ?_⟩
  · have h := ofBigEndian_lt (body.take 8)
    rwa [hfirst] at h
  · have h := ofBigEndian_lt ((body.drop 8).take 8)
    rwa [hsecond] at h
  · rw [entryOf, List.length_drop]
    omega

end

/-- What begins with a record begins with its bytes. -/
lemma head_eq_record {expected : Index} {bytes rest : Bytes} {e : Entry}
    (h : head expected bytes = .record e rest) :
    bytes = encode e ++ rest ∧ e.Fits ∧ e.index = expected := by
  unfold head at h
  split at h
  · cases h
  · rename_i a b c d body
    dsimp only at h
    split at h
    · cases h
    · rename_i hrange
      unfold headBody at h
      dsimp only at h
      split at h
      · cases h
      · rename_i hwhole
        split at h
        · cases h
        · rename_i hindex
          obtain ⟨rfl, rfl⟩ := Head.record.inj h
          have hlen : (body.take (ofBigEndian [a, b, c, d])).length = ofBigEndian [a, b, c, d] := by
            rw [List.length_take] at hwhole ⊢
            omega
          have hlo : headerSize ≤ (body.take (ofBigEndian [a, b, c, d])).length := by omega
          have hbytes : a :: b :: c :: d :: body =
              encode (entryOf (body.take (ofBigEndian [a, b, c, d]))) ++
                body.drop (ofBigEndian [a, b, c, d]) := by
            rw [encode_entryOf hlen hlo]
            simp
          exact ⟨hbytes, fits_entryOf hlo (by omega), not_not.mp hindex⟩
  · cases h

/-- The bytes do not begin with the record that is due. -/
def Ends (expected : Index) (bytes : Bytes) : Prop :=
  ∀ e rest, head expected bytes ≠ .record e rest

lemma ends_nil (expected : Index) : Ends expected [] := by
  intro e rest
  simp [head]

lemma ends_of_short {bytes : Bytes} (h : bytes.length < lengthSize) (expected : Index) :
    Ends expected bytes := by
  intro e rest
  unfold lengthSize at h
  match bytes, h with
  | [], _ | [_], _ | [_, _], _ | [_, _, _], _ => simp [head]

/-- A part of a record is no record, whichever bytes are missing at its end. -/
lemma ends_take_encode {e : Entry} (h : e.Fits) {n : ℕ} (hn : n < (encode e).length)
    (expected : Index) : Ends expected ((encode e).take n) := by
  rcases Nat.lt_or_ge n lengthSize with hlt | hge
  · exact ends_of_short (by rw [List.length_take]; omega) expected
  · intro r rest
    have hcut : (encode e).take n = bigEndian lengthSize (headerSize + e.payload.length) ++
        (bigEndian 8 e.term ++ (bigEndian 8 e.index ++ e.payload)).take (n - lengthSize) := by
      rw [encode, List.take_append, length_bigEndian,
        List.take_of_length_le (by simpa using hge)]
    have hmissing : ((bigEndian 8 e.term ++ (bigEndian 8 e.index ++ e.payload)).take
        (n - lengthSize)).length < headerSize + e.payload.length := by
      rw [length_encode] at hn
      rw [List.length_take]
      omega
    rw [hcut, head_length_append (Nat.le_add_right _ _) (Nat.add_le_add_left h.payload _), headBody,
      List.take_of_length_le (Nat.le_of_lt hmissing)]
    simp only [if_pos hmissing]
    simp

/-! ### Records in a row -/

/-- The records with the number of bytes up to the end of each, the first one starting at a given
place. -/
def framedFrom (start : ℕ) : List Entry → List Framed
  | [] => []
  | e :: es => ⟨e, start + (encode e).length⟩ :: framedFrom (start + (encode e).length) es

/-- The records with the number of bytes up to the end of each. -/
def framed (es : List Entry) : List Framed := framedFrom 0 es

@[simp] lemma encodeAll_nil : encodeAll [] = [] := rfl

lemma encodeAll_append (es fs : List Entry) : encodeAll (es ++ fs) = encodeAll es ++ encodeAll fs :=
  List.flatMap_append

lemma encodeAll_snoc (es : List Entry) (e : Entry) :
    encodeAll (es ++ [e]) = encodeAll es ++ encode e := by
  simp [encodeAll]

lemma framed_snoc (es : List Entry) (e : Entry) :
    framed (es ++ [e]) = framed es ++ [⟨e, (encodeAll (es ++ [e])).length⟩] := by
  have key : ∀ (es : List Entry) (start : ℕ), framedFrom start (es ++ [e]) =
      framedFrom start es ++ [⟨e, start + (encodeAll (es ++ [e])).length⟩] := by
    intro es
    induction es with
    | nil => simp [framedFrom, encodeAll]
    | cons f es ih =>
      intro start
      simp [framedFrom, ih, encodeAll, Nat.add_assoc]
  simpa [framed] using key es 0

@[simp] lemma length_framed (es : List Entry) : (framed es).length = es.length := by
  induction es using List.reverseRecOn with
  | nil => rfl
  | append_singleton es e ih => simp [framed_snoc, ih]

lemma getLast?_framed (es : List Entry) :
    (framed es).getLast? = es.getLast?.map fun e => ⟨e, (encodeAll es).length⟩ := by
  induction es using List.reverseRecOn with
  | nil => rfl
  | append_singleton es e ih => simp [framed_snoc]

lemma map_entry_framed (es : List Entry) : (framed es).map (·.entry) = es := by
  induction es using List.reverseRecOn with
  | nil => rfl
  | append_singleton es e ih => simp [framed_snoc, ih]

/-- Of records in order, those up to an index are the first ones. -/
lemma takeWhile_framed {es : List Entry} (hn : Numbered es) (k : ℕ) :
    (framed es).takeWhile (fun r => r.entry.index ≤ k) = framed (es.take k) := by
  induction es using List.reverseRecOn with
  | nil => simp [framed, framedFrom]
  | append_singleton es e ih =>
    have hprefix : Numbered es := by simpa using hn.take es.length
    have hlast : e.index = es.length + 1 := hn es.length e (by simp)
    rw [framed_snoc, List.takeWhile_append, ih hprefix, length_framed, length_framed,
      List.length_take]
    rcases Nat.lt_or_ge es.length k with hlt | hge
    · have hall : (es ++ [e]).take k = es ++ [e] := List.take_of_length_le (by simpa using hlt)
      rw [if_pos (by omega), hall, framed_snoc]
      simp [hlast, hlt]
    · rw [List.take_append_of_le_length hge]
      split
      · have hk : k = es.length := by omega
        simp [hlast, hk]
      · rfl

/-- Where the next record is not there, reading stops. -/
lemma scanFrom_of_ends {expected : Index} {bytes : Bytes} (h : Ends expected bytes) (start : ℕ) :
    (scanFrom expected start bytes).records = [] ∧
      (scanFrom expected start bytes).size = start := by
  unfold scanFrom
  split
  · exact ⟨rfl, rfl⟩
  · exact ⟨rfl, rfl⟩
  · rename_i e rest heq
    exact absurd heq (h e rest)

lemma scanFrom_encode {e : Entry} (h : e.Fits) (start : ℕ) (rest : Bytes) :
    scanFrom e.index start (encode e ++ rest) =
      let tail := scanFrom (e.index + 1) (start + (encode e).length) rest
      { tail with records := ⟨e, start + (encode e).length⟩ :: tail.records } := by
  rw [scanFrom]
  split
  · rename_i heq
    rw [head_encode h] at heq
    cases heq
  · rename_i heq
    rw [head_encode h] at heq
    cases heq
  · rename_i r rest' heq
    rw [head_encode h] at heq
    obtain ⟨rfl, rfl⟩ := Head.record.inj heq
    simp only [length_encode, Nat.add_assoc]

/-- Scanning gives back the records of a log in order, and goes on with what is behind them. -/
lemma scan_encodeAll_append {es : List Entry} (hn : Numbered es) (hf : ∀ e ∈ es, e.Fits)
    (rest : Bytes) :
    scan (encodeAll es ++ rest) =
      let tail := scanFrom (es.length + 1) (encodeAll es).length rest
      { tail with records := framed es ++ tail.records } := by
  induction es using List.reverseRecOn generalizing rest with
  | nil => simp [scan, framed, framedFrom]
  | append_singleton es e ih =>
    have hprefix : Numbered es := by simpa using hn.take es.length
    have hlast : e.index = es.length + 1 := hn es.length e (by simp)
    have hfit : e.Fits := hf e (by simp)
    rw [encodeAll_snoc, List.append_assoc, ih hprefix fun f hmem => hf f (by simp [hmem]),
      ← hlast, scanFrom_encode hfit]
    simp [framed_snoc, encodeAll_snoc, hlast]

/-- Scanning stops behind the records of a log in order if the next record is not there. -/
lemma scan_of_ends {es : List Entry} (hn : Numbered es) (hf : ∀ e ∈ es, e.Fits) {rest : Bytes}
    (h : Ends (es.length + 1) rest) :
    (scan (encodeAll es ++ rest)).records = framed es ∧
      (scan (encodeAll es ++ rest)).size = (encodeAll es).length := by
  obtain ⟨hrecords, hsize⟩ := scanFrom_of_ends h (encodeAll es).length
  rw [scan_encodeAll_append hn hf]
  exact ⟨by simp [hrecords], hsize⟩

lemma records_scan {es : List Entry} (hn : Numbered es) (hf : ∀ e ∈ es, e.Fits) :
    (scan (encodeAll es)).records = framed es := by
  have h := (scan_of_ends hn hf (ends_nil _)).1
  rwa [List.append_nil] at h

/-- Whatever is behind the records of a log in order, it is records that go on with them, and then
something that is not the next one. -/
lemma exists_records {es : List Entry} (hn : Numbered es) (hf : ∀ e ∈ es, e.Fits) (bytes : Bytes) :
    ∃ fs rest, bytes = encodeAll fs ++ rest ∧ Numbered (es ++ fs) ∧ (∀ e ∈ es ++ fs, e.Fits) ∧
      Ends ((es ++ fs).length + 1) rest := by
  -- what follows the first record is shorter
  induction hsize : bytes.length using Nat.strong_induction_on generalizing es bytes with
  | _ size ih =>
    by_cases hends : Ends (es.length + 1) bytes
    · exact ⟨[], bytes, rfl, by simpa using hn, by simpa using hf, by simpa using hends⟩
    · obtain ⟨e, rest, hhead⟩ : ∃ e rest, head (es.length + 1) bytes = .record e rest := by
        simpa [Ends] using hends
      obtain ⟨hbytes, hfit, hindex⟩ := head_eq_record hhead
      have hless := length_rest_lt hhead
      obtain ⟨fs, tail, hrest, hn', hf', htail⟩ :=
        ih rest.length (by omega) (hn.snoc hindex) (fits_snoc hf hfit) rest rfl
      rw [List.append_assoc, List.singleton_append] at hn' hf' htail
      refine ⟨e :: fs, tail, ?_, hn', hf', htail⟩
      rw [hbytes, hrest, ← List.append_assoc]
      rfl

section

variable {es extra : List Entry} {tail : Bytes}

/-- A record behind those of a log is read from the front of its bytes. -/
lemma head_encodeAll_cons {x : Entry} (hn : Numbered (es ++ x :: extra))
    (hf : ∀ e ∈ es ++ x :: extra, e.Fits) :
    head (es.length + 1) (encodeAll (x :: extra) ++ tail) =
      .record x (encodeAll extra ++ tail) := by
  have hx : x.index = es.length + 1 := hn es.length x (by simp)
  have hbytes : encodeAll (x :: extra) ++ tail = encode x ++ (encodeAll extra ++ tail) :=
    List.append_assoc ..
  rw [hbytes, ← hx, head_encode (hf x (by simp))]

/-- Bytes that do not begin with the next record spell none. -/
lemma eq_nil_of_ends (hn : Numbered (es ++ extra)) (hf : ∀ e ∈ es ++ extra, e.Fits)
    (h : Ends (es.length + 1) (encodeAll extra ++ tail)) : extra = [] := by
  cases extra with
  | nil => rfl
  | cons x more => exact absurd (head_encodeAll_cons hn hf) (h x _)

/-- Of records behind those of a log, the first is the one that the bytes begin with. -/
lemma exists_cons_of_encode {g : Entry} {bytes : Bytes} (hn : Numbered (es ++ extra))
    (hf : ∀ e ∈ es ++ extra, e.Fits) (hends : Ends ((es ++ extra).length + 1) tail) (hg : g.Fits)
    (hi : g.index = es.length + 1) (h : encode g ++ bytes = encodeAll extra ++ tail) :
    ∃ more, extra = g :: more ∧ bytes = encodeAll more ++ tail := by
  have hhead : head (es.length + 1) (encodeAll extra ++ tail) = .record g bytes := by
    rw [← h, ← hi, head_encode hg]
  cases extra with
  | nil =>
    rw [List.append_nil] at hends
    exact absurd hhead (hends g bytes)
  | cons x more =>
    rw [head_encodeAll_cons hn hf] at hhead
    obtain ⟨rfl, rfl⟩ := Head.record.inj hhead
    exact ⟨more, rfl, rfl⟩

end

/-- If the payload of a record goes on behind that of a shorter one, so do the bytes. -/
lemma drop_encode (f : Entry) (bytes : Bytes) :
    (encode ⟨f.term, f.index, f.payload ++ bytes⟩).drop (encode f).length = bytes := by
  have hfront : encode ⟨f.term, f.index, f.payload ++ bytes⟩ =
      (bigEndian lengthSize (headerSize + (f.payload ++ bytes).length) ++
        (bigEndian 8 f.term ++ (bigEndian 8 f.index ++ f.payload))) ++ bytes := by
    simp [encode]
  rw [hfront, List.drop_left']
  simp [encode]

end Frame

end Quorum
