import Quorum.Proofs.Frames
import Quorum.Storage.BallotFile

/-!
Which bytes are a ballot, and what is wrong with all others.

Bytes that are long enough fall into four parts of fixed width and a rest (`BallotFile.Parts`). They
are read as a ballot if and only if they begin with its encoding, and otherwise there is one reason
why they are none (`BallotFile.Flawed`), the first of those that hold. So no ballot is guessed from
bytes that were cut or changed (`BallotFile.decode_exact`).
-/

namespace Quorum

/-- The ballot can be written to a file. -/
structure Ballot.Fits (b : Ballot) : Prop where
  term : b.term < wordLimit
  vote : ∀ candidate, b.vote = some candidate → candidate < wordLimit

instance : (b : Ballot) → Decidable b.Fits
  | ⟨term, none⟩ =>
    decidable_of_iff (term < wordLimit) ⟨fun h => ⟨h, nofun⟩, fun h => h.term⟩
  | ⟨term, some candidate⟩ =>
    decidable_of_iff (term < wordLimit ∧ candidate < wordLimit)
      ⟨fun h => ⟨h.1, fun _ hc => Option.some.inj hc ▸ h.2⟩, fun h => ⟨h.term, h.vote _ rfl⟩⟩

namespace BallotFile

variable {bytes : Bytes} {b : Ballot} {d : Damage}

/-! ### Bytes in parts -/

/-- Bytes that are long enough to be a ballot. -/
structure Parts where
  magic : Bytes
  version : Bytes
  term : Bytes
  flag : Bytes
  rest : Bytes
  length_magic : magic.length = 4
  length_version : version.length = 4
  length_term : term.length = 8
  length_flag : flag.length = 4

namespace Parts

def joined (p : Parts) : Bytes := p.magic ++ (p.version ++ (p.term ++ (p.flag ++ p.rest)))

lemma length_joined (p : Parts) : p.joined.length = fixedSize + p.rest.length := by
  simp only [joined, List.length_append, p.length_magic, p.length_version, p.length_term,
    p.length_flag, fixedSize]
  omega

lemma exists_of_length (h : fixedSize ≤ bytes.length) : ∃ p : Parts, p.joined = bytes := by
  have hlen : 20 ≤ bytes.length := h
  refine ⟨⟨bytes.take 4, (bytes.drop 4).take 4, (bytes.drop 8).take 8, (bytes.drop 16).take 4,
    bytes.drop 20, ?_, ?_, ?_, ?_⟩, ?_⟩
  · rw [List.length_take]
    omega
  · rw [List.length_take, List.length_drop]
    omega
  · rw [List.length_take, List.length_drop]
    omega
  · rw [List.length_take, List.length_drop]
    omega
  · have hnext : ∀ i k, (bytes.drop i).take k ++ bytes.drop (i + k) = bytes.drop i := by
      intro i k
      rw [← List.drop_drop, List.take_append_drop]
    calc bytes.take 4 ++ ((bytes.drop 4).take 4 ++ ((bytes.drop 8).take 8 ++
          ((bytes.drop 16).take 4 ++ bytes.drop 20)))
        = bytes.take 4 ++ ((bytes.drop 4).take 4 ++ ((bytes.drop 8).take 8 ++ bytes.drop 16)) := by
          rw [hnext 16 4]
      _ = bytes.take 4 ++ ((bytes.drop 4).take 4 ++ bytes.drop 8) := by rw [hnext 8 8]
      _ = bytes.take 4 ++ bytes.drop 4 := by rw [hnext 4 4]
      _ = bytes := List.take_append_drop 4 bytes

/-- What is read of bytes in parts. -/
lemma decode_joined (p : Parts) :
    decode p.joined =
      if p.magic ≠ BallotFile.magic then .error (.badMagic p.magic)
      else if ofBigEndian p.version ≠ BallotFile.version then
        .error (.badVersion (ofBigEndian p.version))
      else if ofBigEndian p.flag = 0 then .ok ⟨ofBigEndian p.term, none⟩
      else if ofBigEndian p.flag ≠ 1 then .error (.badFlag (ofBigEndian p.flag))
      else if p.rest.length < 8 then .error .noCandidate
      else .ok ⟨ofBigEndian p.term, some (ofBigEndian (p.rest.take 8))⟩ := by
  have hlong : ¬ p.joined.length < fixedSize := by
    rw [p.length_joined]
    omega
  have hmagic : p.joined.take 4 = p.magic := List.take_left' p.length_magic
  have hversion : (p.joined.drop 4).take 4 = p.version := by
    rw [joined, List.drop_left' p.length_magic, List.take_left' p.length_version]
  have hdrop : p.joined.drop 8 = p.term ++ (p.flag ++ p.rest) := by
    rw [joined, ← List.append_assoc]
    exact List.drop_left' (by rw [List.length_append, p.length_magic, p.length_version])
  have hterm : (p.joined.drop 8).take 8 = p.term := by
    rw [hdrop, List.take_left' p.length_term]
  have hflag : (p.joined.drop 16).take 4 = p.flag := by
    have hbehind : p.joined.drop 16 = (p.joined.drop 8).drop 8 := by rw [List.drop_drop]
    rw [hbehind, hdrop, List.drop_left' p.length_term, List.take_left' p.length_flag]
  have hrest : p.joined.drop fixedSize = p.rest := by
    have hbehind : p.joined.drop fixedSize = ((p.joined.drop 8).drop 8).drop 4 := by
      rw [List.drop_drop, List.drop_drop, fixedSize]
    rw [hbehind, hdrop, List.drop_left' p.length_term, List.drop_left' p.length_flag]
  rw [decode, if_neg hlong, hmagic]
  simp only [hversion, hterm, hflag, hrest]

lemma take_joined (p : Parts) (k : ℕ) :
    p.joined.take (fixedSize + k) = { p with rest := p.rest.take k }.joined := by
  have hfront : (p.magic ++ (p.version ++ (p.term ++ p.flag))).length = fixedSize := by
    simp only [List.length_append, p.length_magic, p.length_version, p.length_term, p.length_flag,
      fixedSize]
  have hsplit : ∀ rest, p.magic ++ (p.version ++ (p.term ++ (p.flag ++ rest))) =
      (p.magic ++ (p.version ++ (p.term ++ p.flag))) ++ rest := by simp
  rw [joined, joined, hsplit, hsplit, ← hfront, List.take_length_add_append]

/-- The parts once a byte of the magic is another. -/
def setMagic (i : ℕ) (x : UInt8) (p : Parts) : Parts :=
  { p with
    magic := p.magic.set i x
    length_magic := by rw [List.length_set, p.length_magic] }

/-- The parts once a byte of the version is another. -/
def setVersion (i : ℕ) (x : UInt8) (p : Parts) : Parts :=
  { p with
    version := p.version.set i x
    length_version := by rw [List.length_set, p.length_version] }

lemma joined_setMagic (p : Parts) {i : ℕ} (hi : i < 4) (x : UInt8) :
    (p.setMagic i x).joined = p.joined.set i x := by
  rw [joined, joined, List.set_append_left _ _ (by rwa [p.length_magic])]
  rfl

lemma joined_setVersion (p : Parts) {i : ℕ} (hi : i < 4) (x : UInt8) :
    (p.setVersion i x).joined = p.joined.set (i + 4) x := by
  rw [joined, joined, List.set_append_right _ _ (by rw [p.length_magic]; omega), p.length_magic,
    Nat.add_sub_cancel, List.set_append_left _ _ (by rwa [p.length_version])]
  rfl

/-- The parts of a ballot's encoding, with anything behind it. -/
def ofBallot (b : Ballot) (rest : Bytes) : Parts where
  magic := BallotFile.magic
  version := bigEndian 4 BallotFile.version
  term := bigEndian 8 b.term
  flag := bigEndian 4 (if b.vote.isSome then 1 else 0)
  rest := (b.vote.elim [] (bigEndian 8)) ++ rest
  length_magic := rfl
  length_version := length_bigEndian _ _
  length_term := length_bigEndian _ _
  length_flag := length_bigEndian _ _

lemma joined_ofBallot (b : Ballot) (rest : Bytes) :
    (ofBallot b rest).joined = encode b ++ rest := by
  obtain ⟨term, _ | candidate⟩ := b <;> simp [joined, ofBallot, encode]

end Parts

/-! ### What is wrong with bytes -/

/-- The reason why bytes are no ballot: what is too short is not looked at, magic goes before
version, and both before the flag. -/
inductive Flawed : Bytes → Damage → Prop
  | short {bytes : Bytes} : bytes.length < fixedSize → Flawed bytes (.short bytes.length)
  | badMagic (p : Parts) : p.magic ≠ magic → Flawed p.joined (.badMagic p.magic)
  | badVersion (p : Parts) : p.magic = magic → ofBigEndian p.version ≠ version →
      Flawed p.joined (.badVersion (ofBigEndian p.version))
  | badFlag (p : Parts) : p.magic = magic → ofBigEndian p.version = version →
      ofBigEndian p.flag ≠ 0 → ofBigEndian p.flag ≠ 1 →
      Flawed p.joined (.badFlag (ofBigEndian p.flag))
  | noCandidate (p : Parts) : p.magic = magic → ofBigEndian p.version = version →
      ofBigEndian p.flag = 1 → p.rest.length < 8 → Flawed p.joined .noCandidate

lemma decode_short (h : bytes.length < fixedSize) : decode bytes = .error (.short bytes.length) :=
  if_pos h

lemma decode_eq_error_iff : decode bytes = .error d ↔ Flawed bytes d := by
  constructor
  · intro h
    rcases Nat.lt_or_ge bytes.length fixedSize with hshort | hlong
    · rw [decode_short hshort] at h
      cases h
      exact .short hshort
    · obtain ⟨p, rfl⟩ := Parts.exists_of_length hlong
      rw [p.decode_joined] at h
      split_ifs at h with hmagic hversion hzero hflag hrest <;> cases h
      · exact .badMagic p hmagic
      · exact .badVersion p (not_not.mp hmagic) hversion
      · exact .badFlag p (not_not.mp hmagic) (not_not.mp hversion) hzero hflag
      · exact .noCandidate p (not_not.mp hmagic) (not_not.mp hversion) (not_not.mp hflag) hrest
  · intro h
    cases h with
    | short hshort => exact decode_short hshort
    | badMagic p hmagic => rw [p.decode_joined, if_pos hmagic]
    | badVersion p hmagic hversion => simp [p.decode_joined, hmagic, hversion]
    | badFlag p hmagic hversion hzero hone => simp [p.decode_joined, hmagic, hversion, hzero, hone]
    | noCandidate p hmagic hversion hflag hrest =>
      simp [p.decode_joined, hmagic, hversion, hflag, hrest]

/-! ### What is a ballot -/

lemma decode_encode_append (h : b.Fits) (rest : Bytes) : decode (encode b ++ rest) = .ok b := by
  have hversion : ofBigEndian (bigEndian 4 version) = version := by decide
  have hterm : ofBigEndian (bigEndian 8 b.term) = b.term := ofBigEndian_word h.term
  rw [← Parts.joined_ofBallot, Parts.decode_joined]
  rcases b with ⟨term, _ | candidate⟩
  · have hflag : ofBigEndian (bigEndian 4 0) = 0 := by decide
    simp [Parts.ofBallot, hversion, hterm, hflag]
  · have hflag : ofBigEndian (bigEndian 4 1) = 1 := by decide
    have hvote : ofBigEndian (bigEndian 8 candidate) = candidate :=
      ofBigEndian_word (h.vote candidate rfl)
    simp [Parts.ofBallot, hversion, hterm, hflag, hvote]

lemma decode_encode (h : b.Fits) : decode (encode b) = .ok b := by
  have hself := decode_encode_append h []
  rwa [List.append_nil] at hself

/-- Bytes of a given number are that many bytes of it. -/
lemma eq_bigEndian {width n : ℕ} (hlen : bytes.length = width) (h : ofBigEndian bytes = n) :
    bytes = bigEndian width n := by
  rw [← hlen, ← h, bigEndian_ofBigEndian]

lemma encode_isPrefix_of_decode (h : decode bytes = .ok b) : b.Fits ∧ encode b <+: bytes := by
  rcases Nat.lt_or_ge bytes.length fixedSize with hshort | hlong
  · rw [decode_short hshort] at h
    cases h
  · obtain ⟨p, rfl⟩ := Parts.exists_of_length hlong
    have hterm : ofBigEndian p.term < wordLimit := by
      have hlt := ofBigEndian_lt p.term
      rwa [p.length_term] at hlt
    have hterm' : p.term = bigEndian 8 (ofBigEndian p.term) := eq_bigEndian p.length_term rfl
    rw [p.decode_joined] at h
    split_ifs at h with hmagic hversion hflag hone hrest <;> cases h
    · have hflag' := eq_bigEndian p.length_flag hflag
      have hversion' := eq_bigEndian p.length_version (not_not.mp hversion)
      refine ⟨⟨hterm, fun candidate hc => by cases hc⟩, p.rest, ?_⟩
      rw [Parts.joined, not_not.mp hmagic, hversion', hterm', hflag']
      simp [encode, ← hterm']
    · have hflag' := eq_bigEndian p.length_flag (not_not.mp hone)
      have hversion' := eq_bigEndian p.length_version (not_not.mp hversion)
      have hlen : (p.rest.take 8).length = 8 := by
        rw [List.length_take]
        omega
      have hvote : p.rest.take 8 = bigEndian 8 (ofBigEndian (p.rest.take 8)) :=
        eq_bigEndian hlen rfl
      refine ⟨⟨hterm, fun candidate hc => ?_⟩, p.rest.drop 8, ?_⟩
      · obtain rfl := Option.some.inj hc
        have hlt := ofBigEndian_lt (p.rest.take 8)
        rwa [hlen] at hlt
      · rw [Parts.joined, not_not.mp hmagic, hversion', hflag']
        simp [encode, ← hterm', ← hvote]

/-- Bytes that are read as a ballot have the right magic and version. -/
lemma exists_parts_of_decode (h : decode bytes = .ok b) :
    ∃ p : Parts, p.joined = bytes ∧ p.magic = magic ∧ p.version = bigEndian 4 version := by
  obtain ⟨-, rest, rfl⟩ := encode_isPrefix_of_decode h
  exact ⟨.ofBallot b rest, Parts.joined_ofBallot b rest, rfl, rfl⟩

/-- Bytes are read as a ballot just if they begin with its encoding. -/
lemma decode_eq_ok_iff : decode bytes = .ok b ↔ b.Fits ∧ encode b <+: bytes := by
  constructor
  · exact encode_isPrefix_of_decode
  · rintro ⟨h, rest, rfl⟩
    exact decode_encode_append h rest

/-! ### Bytes that were changed or cut -/

lemma set_ne {xs : Bytes} {i : ℕ} {x : UInt8} (hi : i < xs.length) (hx : xs[i]? ≠ some x) :
    xs.set i x ≠ xs := by
  intro heq
  apply hx
  have hget : (xs.set i x)[i]? = some x := List.getElem?_set_self hi
  rwa [heq] at hget

/-- A ballot with a byte of the magic or the version changed is none. -/
lemma decode_set {i : ℕ} {x : UInt8} (h : decode bytes = .ok b) (hi : i < 8)
    (hx : bytes[i]? ≠ some x) :
    decode (bytes.set i x) = .error (if i < 4 then .badMagic (magic.set i x)
      else .badVersion (ofBigEndian ((bigEndian 4 version).set (i - 4) x))) := by
  obtain ⟨p, rfl, hmagic, hversion⟩ := exists_parts_of_decode h
  rcases Nat.lt_or_ge i 4 with hlt | hge
  · have hget : p.joined[i]? = p.magic[i]? := by
      rw [Parts.joined, List.getElem?_append_left (by rwa [p.length_magic])]
    have hne : p.magic.set i x ≠ p.magic := set_ne (by rwa [p.length_magic]) (hget ▸ hx)
    rw [if_pos hlt, ← p.joined_setMagic hlt, Parts.decode_joined]
    rw [hmagic] at hne
    simp [Parts.setMagic, hmagic, hne]
  · obtain ⟨k, rfl⟩ := Nat.exists_eq_add_of_le' hge
    have hk : k < 4 := by omega
    have hget : p.joined[k + 4]? = p.version[k]? := by
      rw [Parts.joined, List.getElem?_append_right (by rw [p.length_magic]; omega), p.length_magic,
        Nat.add_sub_cancel, List.getElem?_append_left (by rwa [p.length_version])]
    have hne : p.version.set k x ≠ p.version := set_ne (by rwa [p.length_version]) (hget ▸ hx)
    have hnumber : ofBigEndian (p.version.set k x) ≠ version := by
      intro heq
      apply hne
      rw [hversion]
      rw [hversion] at heq
      exact eq_bigEndian (by simp) heq
    rw [if_neg (by omega), Nat.add_sub_cancel, ← p.joined_setVersion hk, Parts.decode_joined]
    rw [hversion] at hnumber
    simp [Parts.setVersion, hmagic, hversion, hnumber]

/-- A ballot that lacks some of its last bytes is none. -/
lemma decode_take_encode {n : ℕ} (hn : n < (encode b).length) :
    decode ((encode b).take n) = .error (if n < fixedSize then .short n else .noCandidate) := by
  rcases Nat.lt_or_ge n fixedSize with hshort | hlong
  · have hlen : ((encode b).take n).length = n := by
      rw [List.length_take]
      omega
    rw [if_pos hshort, decode_short (by rwa [hlen]), hlen]
  · obtain ⟨k, rfl⟩ := Nat.exists_eq_add_of_le hlong
    have hparts : (Parts.ofBallot b []).joined = encode b := by
      rw [Parts.joined_ofBallot, List.append_nil]
    rw [← hparts, Parts.length_joined] at hn
    rw [if_neg (by omega), ← hparts, Parts.take_joined, Parts.decode_joined]
    have hversion : ofBigEndian (bigEndian 4 version) = version := by decide
    obtain ⟨term, _ | candidate⟩ := b
    · simp [Parts.ofBallot] at hn
    · have hflag : ofBigEndian (bigEndian 4 1) = 1 := by decide
      have hk : k < 8 := by simpa [Parts.ofBallot] using hn
      simp [Parts.ofBallot, hversion, hflag, hk]

/-- **Bytes are a ballot or not, and which.** They are read as a ballot if and only if they begin
with its encoding, so they are not read as two; and otherwise there is one thing wrong with them,
the first in order, which a reader of the file is told. So a ballot is read back from its encoding,
and from none with a byte of the magic or the version changed, or with some of its last bytes
missing. -/
theorem decode_exact (bytes : Bytes) :
    (∀ b, decode bytes = .ok b ↔ b.Fits ∧ encode b <+: bytes) ∧
      (∀ b b' : Ballot, b.Fits → b'.Fits → encode b <+: bytes → encode b' <+: bytes → b = b') ∧
      (∀ d, decode bytes = .error d ↔ Flawed bytes d) ∧
      (∀ (path : Files.Path) (tree : Files.Tree), tree.read path = .ok bytes →
        read path tree = (decode bytes).mapError fun d => .corrupt d.message) ∧
      (∀ b : Ballot, b.Fits → decode (encode b) = .ok b) ∧
      (∀ b i x, decode bytes = .ok b → i < 8 → bytes[i]? ≠ some x →
        decode (bytes.set i x) = .error (if i < 4 then .badMagic (magic.set i x)
          else .badVersion (ofBigEndian ((bigEndian 4 version).set (i - 4) x)))) ∧
      ∀ (b : Ballot) n, n < (encode b).length →
        decode ((encode b).take n) = .error (if n < fixedSize then .short n else .noCandidate) := by
  refine ⟨fun b => decode_eq_ok_iff, fun b b' h h' hb hb' => ?_, fun d => decode_eq_error_iff,
    fun path tree hread => ?_, fun b => decode_encode, fun b i x => decode_set,
    fun b n => decode_take_encode⟩
  · have hboth := (decode_eq_ok_iff.mpr ⟨h, hb⟩).symm.trans (decode_eq_ok_iff.mpr ⟨h', hb'⟩)
    exact Except.ok.inj hboth
  · rcases hd : decode bytes with d | b <;> simp [read, hread, hd, Except.mapError]

/-- A vote for member 3 in term 5. -/
def castVote : Ballot := ⟨5, some 3⟩

lemma castVote_fits : castVote.Fits := by decide

/-- With bytes behind it the vote is read. With the last byte of the version changed, or without the
last byte of the candidate, it is not. -/
theorem decode_exact_spoiled :
    decode (encode castVote ++ [9]) = .ok castVote ∧
      decode ((encode castVote).set 7 2) = .error (.badVersion 2) ∧
      decode ((encode castVote).take 27) = .error .noCandidate ∧
      read ["m"] [(["m"], .file (encode castVote))] = .ok castVote := by
  obtain ⟨hok, -, -, -, hself, -, -⟩ := decode_exact (encode castVote ++ [9])
  obtain ⟨-, -, -, hread, -, hset, hcut⟩ := decode_exact (encode castVote)
  have hself' := hself castVote castVote_fits
  refine ⟨(hok castVote).mpr ⟨castVote_fits, List.prefix_append _ _⟩, ?_, ?_, ?_⟩
  · exact hset castVote 7 2 hself' (by decide) (by decide)
  · exact hcut castVote 27 (by decide)
  · rw [hread ["m"] [(["m"], .file (encode castVote))] rfl, hself']
    rfl

end BallotFile

end Quorum
