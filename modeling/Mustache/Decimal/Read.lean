/-!
Decimal text to the nearest double.
-/

namespace Mustache.Decimal

def isDigit (c : Char) : Bool := '0' ≤ c && c ≤ '9'

def digitValue (c : Char) : Nat := c.toNat - '0'.toNat

/-- The number that digits in base ten write. -/
def ofDigits (cs : List Char) : Nat := cs.foldl (fun n c => 10 * n + digitValue c) 0

/-- The double nearest to `mantissa * 10 ^ exponent`. Beyond a thousand places it is zero or
infinite whatever the digits. -/
def nearest (mantissa : Nat) (exponent : Int) : Float :=
  let places := (Nat.toDigits 10 mantissa).length + exponent
  if mantissa = 0 ∨ places < -1000 then 0.0
  else if 1000 < places then 1.0 / 0.0
  else Float.ofScientific mantissa (exponent < 0) exponent.natAbs

/-- A number in parts: the digits before and after the point, and the exponent. -/
structure Literal where
  negative : Bool
  whole : List Char
  fraction : List Char
  exponent : Int
deriving DecidableEq, Repr

def Literal.toFloat (l : Literal) : Float :=
  let x := nearest (ofDigits (l.whole ++ l.fraction)) (l.exponent - l.fraction.length)
  if l.negative then -x else x

/-- A sign, if there is one, and the rest. -/
def readSign : List Char → Bool × List Char
  | '-' :: cs => (true, cs)
  | '+' :: cs => (false, cs)
  | cs => (false, cs)

/-- An exponent up to the end of the text: its mark, perhaps a sign, and digits. -/
def readExponent? : List Char → Option Int
  | [] => some 0
  | c :: cs =>
    let (negative, digits) := readSign cs
    if (c = 'e' ∨ c = 'E') ∧ ¬ digits.isEmpty ∧ digits.all isDigit then
      some (if negative then -(ofDigits digits : Int) else ofDigits digits)
    else none

/-- Reads a literal with digits on at least one side of the point. -/
def readLiteral? (cs : List Char) : Option Literal := do
  let (negative, cs) := readSign cs
  let whole := cs.takeWhile isDigit
  let rest := cs.dropWhile isDigit
  let (fraction, rest) := match rest with
    | '.' :: cs => (cs.takeWhile isDigit, cs.dropWhile isDigit)
    | cs => ([], cs)
  guard !(whole.isEmpty && fraction.isEmpty)
  let exponent ← readExponent? rest
  return ⟨negative, whole, fraction, exponent⟩

/-- Reads the text of a double: a literal, or one of the names for what is not finite, in letters
of either case. -/
def readFloat? (text : String) : Option Float :=
  let (negative, body) := readSign text.toList
  let name := String.ofList (body.map Char.toLower)
  if name = "nan" then some (0.0 / 0.0)
  else if name = "inf" ∨ name = "infinity" then
    some (if negative then -1.0 / 0.0 else 1.0 / 0.0)
  else (readLiteral? text.toList).map Literal.toFloat

end Mustache.Decimal
