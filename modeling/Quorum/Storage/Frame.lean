import Quorum.Basic

/-!
Log records as bytes, one after the other, and the reading of as many as are whole.

A record is the length of what follows in four bytes, then term and index in eight bytes each,
then the payload; all numbers have their high byte first. Records are numbered 1, 2, 3, …, and
reading stops at the first that is not the next one: what is read is the longest prefix of the
bytes that is a sequence of records.
-/

namespace Quorum

/-- A number in `width` bytes, the high byte first. What does not fit is left off. -/
def bigEndian : Nat → Nat → Bytes
  | 0, _ => []
  | width + 1, n => UInt8.ofNat (n / Nat.pow 256 width % 256) :: bigEndian width n

/-- The number that bytes stand for, the high byte first. -/
def ofBigEndian (bs : Bytes) : Nat := bs.foldl (fun n b => 256 * n + b.toNat) 0

namespace Frame

/-- Bytes of term and index. -/
def headerSize : Nat := 16

/-- Bytes of the length in front. -/
def lengthSize : Nat := 4

def maxPayload : Nat := 64 * 1024 * 1024

def encode (e : Entry) : Bytes :=
  bigEndian lengthSize (headerSize + e.payload.length) ++
    (bigEndian 8 e.term ++ (bigEndian 8 e.index ++ e.payload))

def encodeAll (es : List Entry) : Bytes := es.flatMap encode

/-- Why bytes are not the next record. -/
inductive Damage where
  | shortLength
  | badLength (n : Nat)
  | incomplete (wanted found : Nat)
  | wrongIndex (expected found : Index)
deriving DecidableEq, Repr

/-- What bytes begin with. -/
inductive Head where
  | nothing
  | damaged (d : Damage)
  | record (e : Entry) (rest : Bytes)

/-- Reads the body of a record of `n` bytes. -/
def headBody (expected : Index) (n : Nat) (body : Bytes) : Head :=
  let here := body.take n
  if here.length < n then .damaged (.incomplete n here.length)
  else
    let index := ofBigEndian ((here.drop 8).take 8)
    if index ≠ expected then .damaged (.wrongIndex expected index)
    else .record ⟨ofBigEndian (here.take 8), index, here.drop headerSize⟩ (body.drop n)

def head (expected : Index) : Bytes → Head
  | [] => .nothing
  | a :: b :: c :: d :: body =>
    let n := ofBigEndian [a, b, c, d]
    if n < headerSize ∨ headerSize + maxPayload < n then .damaged (.badLength n)
    else headBody expected n body
  | _ => .damaged .shortLength

theorem length_rest_lt {expected : Index} {bytes rest : Bytes} {e : Entry}
    (h : head expected bytes = .record e rest) : rest.length < bytes.length := by
  unfold head at h
  split at h
  · simp at h
  · simp only at h
    split at h
    · simp at h
    · unfold headBody at h
      simp only at h
      split at h
      · simp at h
      · split at h
        · simp at h
        · simp only [Head.record.injEq] at h
          simp only [← h.2, List.length_drop, List.length_cons]
          omega
  · simp at h

/-- A record and the number of bytes up to its end. -/
structure Framed where
  entry : Entry
  stop : Nat
deriving DecidableEq, Repr

/-- The records that bytes begin with, how many bytes they take, and why reading stopped there if
it was not the end. -/
structure Scan where
  records : List Framed
  size : Nat
  damage : Option Damage
deriving DecidableEq, Repr

/-- Reads on from `start`, where record number `expected` is due. -/
def scanFrom (expected : Index) (start : Nat) (bytes : Bytes) : Scan :=
  match _h : head expected bytes with
  | .nothing => ⟨[], start, none⟩
  | .damaged d => ⟨[], start, some d⟩
  | .record e rest =>
    let stop := start + lengthSize + headerSize + e.payload.length
    let tail := scanFrom (expected + 1) stop rest
    { tail with records := ⟨e, stop⟩ :: tail.records }
termination_by bytes.length
decreasing_by exact length_rest_lt _h

def scan (bytes : Bytes) : Scan := scanFrom 1 0 bytes

def Scan.entries (s : Scan) : List Entry := s.records.map (·.entry)

end Frame

end Quorum
