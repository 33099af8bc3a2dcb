import Quorum.Basic

/-!
Reading bytes as UTF-8, with the place and the kind of the first fault.

An ill-formed sequence is reported with the number of bytes that could still have begun a
character; a sequence that only the end of the input cuts short is reported as incomplete.
-/

namespace Quorum.Utf8

inductive Fault where
  /-- The next `count` bytes begin no character. -/
  | invalid (count : Nat)
  /-- The input ends inside a character. -/
  | incomplete
deriving DecidableEq, Repr

/-- A fault and how many bytes before it are well-formed. -/
structure Error where
  position : Nat
  fault : Fault
deriving DecidableEq, Repr

def Error.message (e : Error) : String :=
  match e.fault with
  | .invalid count => s!"invalid utf-8 sequence of {count} bytes from index {e.position}"
  | .incomplete => s!"incomplete utf-8 byte sequence from index {e.position}"

/-- Bytes that continue a character. -/
def isTail (b : UInt8) : Bool := 0x80 ≤ b && b ≤ 0xBF

/-- The least and the greatest second byte of a character of three bytes, by its first byte. The
bounds leave out overlong forms and surrogates. -/
def second3 (a : UInt8) : UInt8 × UInt8 :=
  if a = 0xE0 then (0xA0, 0xBF) else if a = 0xED then (0x80, 0x9F) else (0x80, 0xBF)

/-- The same for four bytes. The bounds leave out overlong forms and what is above U+10FFFF. -/
def second4 (a : UInt8) : UInt8 × UInt8 :=
  if a = 0xF0 then (0x90, 0xBF) else if a = 0xF4 then (0x80, 0x8F) else (0x80, 0xBF)

def within (range : UInt8 × UInt8) (b : UInt8) : Bool := range.1 ≤ b && b ≤ range.2

/-- The six low bits of a tail. -/
def low (b : UInt8) : Nat := b.toNat % 64

/-- The characters of `bytes`, which stand `position` bytes into the input. -/
def decodeFrom (position : Nat) : Bytes → Except Error (List Char)
  | [] => .ok []
  | a :: s =>
    if a < 0x80 then
      (Char.ofNat a.toNat :: ·) <$> decodeFrom (position + 1) s
    else if 0xC2 ≤ a && a ≤ 0xDF then
      match s with
      | [] => .error ⟨position, .incomplete⟩
      | b :: s =>
        if isTail b then
          (Char.ofNat (a.toNat % 32 * 64 + low b) :: ·) <$> decodeFrom (position + 2) s
        else .error ⟨position, .invalid 1⟩
    else if 0xE0 ≤ a && a ≤ 0xEF then
      match s with
      | [] => .error ⟨position, .incomplete⟩
      | b :: s =>
        if within (second3 a) b then
          match s with
          | [] => .error ⟨position, .incomplete⟩
          | c :: s =>
            if isTail c then
              (Char.ofNat (a.toNat % 16 * 4096 + low b * 64 + low c) :: ·) <$>
                decodeFrom (position + 3) s
            else .error ⟨position, .invalid 2⟩
        else .error ⟨position, .invalid 1⟩
    else if 0xF0 ≤ a && a ≤ 0xF4 then
      match s with
      | [] => .error ⟨position, .incomplete⟩
      | b :: s =>
        if within (second4 a) b then
          match s with
          | [] => .error ⟨position, .incomplete⟩
          | c :: s =>
            if isTail c then
              match s with
              | [] => .error ⟨position, .incomplete⟩
              | d :: s =>
                if isTail d then
                  (Char.ofNat (a.toNat % 8 * 262144 + low b * 4096 + low c * 64 + low d) :: ·) <$>
                    decodeFrom (position + 4) s
                else .error ⟨position, .invalid 3⟩
            else .error ⟨position, .invalid 2⟩
        else .error ⟨position, .invalid 1⟩
    else .error ⟨position, .invalid 1⟩

def decode (bytes : Bytes) : Except Error (List Char) := decodeFrom 0 bytes

/-- The bytes of a text. -/
def encode (cs : List Char) : Bytes := cs.flatMap String.utf8EncodeChar

end Quorum.Utf8
