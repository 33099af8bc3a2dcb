/-!
Spans of milliseconds as text: `0ns`, `7ms`, `1s`, `1.5s`, `61.001s`.
-/

namespace Quorum.Text

/-- Three digits after the point, less the zeros at the end. -/
def thousandths (n : Nat) : List Char :=
  let digits := [n / 100 % 10, n / 10 % 10, n % 10]
  ((digits.reverse.dropWhile (· == 0)).reverse).map Nat.digitChar

/-- The largest unit of which the span holds one whole, with the rest as a fraction. -/
def span (ms : Nat) : String :=
  if ms = 0 then "0ns"
  else if ms < 1000 then s!"{ms}ms"
  else
    let fraction := thousandths (ms % 1000)
    let point := if fraction.isEmpty then [] else ['.']
    toString (ms / 1000) ++ String.ofList (point ++ fraction) ++ "s"

end Quorum.Text
