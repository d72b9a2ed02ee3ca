import Mustache.Decimal.Read
import Mustache.Json

/-!
Numbers in JSON texts. A number without point and exponent is an integer if it fits into 64 bits,
signed or not. Every other number is a float, reckoned from the leading digits that fit into 64
bits and one multiplication or division by a power of ten; the result may be off by a last place.
-/

namespace Mustache.Json

/-- The value below which a number's digits are kept. -/
def digitBound : Nat := Nat.pow 2 64

/-- Takes digits while the number they make stays below the bound, and counts the others. -/
def keepDigits (n : Nat) : List Char → Nat × Nat
  | [] => (n, 0)
  | c :: cs =>
    let m := 10 * n + Decimal.digitValue c
    if m < digitBound then keepDigits m cs else (n, cs.length + 1)

/-- Multiplies or divides by a power of ten, a very small one in steps. `none` on overflow. -/
def scaleByTen (x : Float) (e : Int) : Option Float :=
  if e.natAbs ≤ 308 then
    let power := Float.ofScientific 1 false e.natAbs
    if 0 ≤ e then
      let y := x * power
      if y.isInf then none else some y
    else some (x / power)
  else if x == 0.0 then some x
  else if 0 ≤ e then none
  else scaleByTen (x / Float.ofScientific 1 false 308) (e + 308)
termination_by e.natAbs
decreasing_by omega

/-- The float of a number's parts, unless it is too large. -/
def floatOfParts? (l : Decimal.Literal) : Option Float := do
  let (n, dropped) := keepDigits 0 l.whole
  let (m, lost) := keepDigits n l.fraction
  let x ← scaleByTen (Float.ofScientific m false 0) (l.exponent + dropped - (l.fraction.length - lost))
  return if l.negative then -x else x

def floatOfParts (l : Decimal.Literal) : Json := (floatOfParts? l).elim illegible float

/-- A number without point and exponent. Negative zero is a float, for integers have no such
thing. -/
def ofInteger (l : Decimal.Literal) : Json :=
  let n := Decimal.ofDigits l.whole
  if l.negative then if 0 < n ∧ n ≤ Nat.pow 2 63 then int (-n) else floatOfParts l
  else if n < digitBound then int n
  else floatOfParts l

/-- The characters numbers are made of. -/
def isNumeric (c : Char) : Bool :=
  Decimal.isDigit c || c == '-' || c == '+' || c == '.' || c == 'e' || c == 'E'

/-- Reads a number: no plus sign, no zero in front, digits on both sides of a point. -/
def readNumber? (cs : List Char) : Option Json := do
  guard (cs.head? != some '+')
  let l ← Decimal.readLiteral? cs
  guard (!l.whole.isEmpty && (l.whole.head? != some '0' || l.whole.length == 1))
  guard (!('.' ∈ cs && l.fraction.isEmpty))
  return if '.' ∈ cs ∨ 'e' ∈ cs ∨ 'E' ∈ cs then floatOfParts l else ofInteger l

end Mustache.Json
