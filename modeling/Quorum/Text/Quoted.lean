import Quorum.Text.Extending
import Quorum.Text.Hidden

/-!
Texts between quotes, so that every character of them can be seen.

The quote and the backslash get a backslash, four controls have a letter, and a character that is
not printed by itself is written by its code point.
-/

namespace Quorum.Text

/-- The code point lies in one of the ranges, which are in order. -/
def inRanges (n : Nat) : List (Nat × Nat) → Bool
  | [] => false
  | (first, last) :: rest => first ≤ n && (n ≤ last || inRanges n rest)

/-- The character is not printed by itself. -/
def isHidden (c : Char) : Bool :=
  inRanges c.toNat extendingRanges || inRanges c.toNat hiddenRanges

/-- The code point in braces, without leading zeros. -/
def codePointEscape (c : Char) : List Char :=
  '\\' :: 'u' :: '\x7b' :: (Nat.toDigits 16 c.toNat ++ ['\x7d'])

def quotedChar (c : Char) : List Char :=
  if c = '\x00' then ['\\', '0']
  else if c = '\t' then ['\\', 't']
  else if c = '\n' then ['\\', 'n']
  else if c = '\r' then ['\\', 'r']
  else if c = '"' then ['\\', '"']
  else if c = '\\' then ['\\', '\\']
  else if isHidden c then codePointEscape c
  else [c]

def quoted (cs : List Char) : String :=
  String.ofList ('"' :: (cs.flatMap quotedChar ++ ['"']))

end Quorum.Text
