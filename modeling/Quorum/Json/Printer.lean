import Quorum.Json.Basic
import Quorum.Text.Hex

/-!
Documents as text: without blanks, or one item a line with an indent of two for each level.
-/

namespace Quorum.Json

/-- A character inside a string literal. Controls have a letter or four hexadecimal digits. -/
def printChar (c : Char) : List Char :=
  if c = '"' then ['\\', '"']
  else if c = '\\' then ['\\', '\\']
  else if c = '\n' then ['\\', 'n']
  else if c = '\r' then ['\\', 'r']
  else if c = '\t' then ['\\', 't']
  else if c = '\x08' then ['\\', 'b']
  else if c = '\x0c' then ['\\', 'f']
  else if c.toNat < 0x20 then
    ['\\', 'u', '0', '0', Text.hexDigit (c.toNat / 16), Text.hexDigit (c.toNat % 16)]
  else [c]

/-- A literal that stands for no text is printed as one half of a surrogate pair. -/
def printText : Option String → List Char
  | none => ['"', '\\', 'u', 'd', '8', '0', '0', '"']
  | some s => '"' :: (s.toList.flatMap printChar ++ ['"'])

def printNat (n : Nat) : List Char := Nat.toDigits 10 n

mutual

def print : Json → List Char
  | .null => ['n', 'u', 'l', 'l']
  | .bool true => ['t', 'r', 'u', 'e']
  | .bool false => ['f', 'a', 'l', 's', 'e']
  | .nat n => printNat n
  | .decimal literal => literal.toList
  | .text s => printText s
  | .array [] => ['[', ']']
  | .array (x :: xs) => '[' :: (print x ++ printItems xs)
  | .object [] => ['\x7b', '\x7d']
  | .object ((k, x) :: ms) => '\x7b' :: (printText k ++ ':' :: (print x ++ printMembers ms))

/-- The items after the first and the closing bracket. -/
def printItems : List Json → List Char
  | [] => [']']
  | x :: xs => ',' :: (print x ++ printItems xs)

/-- The members after the first and the closing brace. -/
def printMembers : List (Option String × Json) → List Char
  | [] => ['\x7d']
  | (k, x) :: ms => ',' :: (printText k ++ ':' :: (print x ++ printMembers ms))

end

/-- The text without blanks. -/
def compact (j : Json) : String := String.ofList (print j)

/-- A new line at a level. -/
def newline (level : Nat) : List Char := '\n' :: List.replicate (2 * level) ' '

mutual

/-- The value as it stands at a level, the first line not indented. -/
def layout (level : Nat) : Json → List Char
  | .array [] => ['[', ']']
  | .array (x :: xs) =>
    '[' :: (newline (level + 1) ++ layout (level + 1) x ++ layoutItems level xs)
  | .object [] => ['\x7b', '\x7d']
  | .object ((k, x) :: ms) =>
    '\x7b' :: (newline (level + 1) ++ printText k ++ ':' :: ' ' ::
      (layout (level + 1) x ++ layoutMembers level ms))
  | .null => ['n', 'u', 'l', 'l']
  | .bool true => ['t', 'r', 'u', 'e']
  | .bool false => ['f', 'a', 'l', 's', 'e']
  | .nat n => printNat n
  | .decimal literal => literal.toList
  | .text s => printText s

def layoutItems (level : Nat) : List Json → List Char
  | [] => newline level ++ [']']
  | x :: xs => ',' :: (newline (level + 1) ++ layout (level + 1) x ++ layoutItems level xs)

def layoutMembers (level : Nat) : List (Option String × Json) → List Char
  | [] => newline level ++ ['\x7d']
  | (k, x) :: ms =>
    ',' :: (newline (level + 1) ++ printText k ++ ':' :: ' ' ::
      (layout (level + 1) x ++ layoutMembers level ms))

end

/-- The text with one item a line. -/
def pretty (j : Json) : String := String.ofList (layout 0 j)

end Quorum.Json
