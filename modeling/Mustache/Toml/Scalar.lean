import Mustache.Json
import Mustache.Toml.Moment

/-!
Values that are one word: integers, floats, truth values, dates and times. A date or time becomes
an object with a single field of a name reserved for it.
-/

namespace Mustache.Toml

open Decimal (isDigit ofDigits readSign)

/-- Digits in groups with single underscores between them, as digits alone. -/
def ungroup? (isOne : Char → Bool) (cs : List Char) : Option (List Char) :=
  let groups := cs.splitOn '_'
  if groups.all fun g => !g.isEmpty && g.all isOne then some groups.flatten else none

/-- Decimal digits in groups, without a zero in front. -/
def wholeDigits? (cs : List Char) : Option (List Char) := do
  let digits ← ungroup? isDigit cs
  guard (digits.head? != some '0' || digits.length == 1)
  return digits

/-- Integers have 64 bits, one of them for the sign. -/
def integer? (negative : Bool) (n : Nat) : Option Json :=
  if negative then if n ≤ Nat.pow 2 63 then some (.int (-n)) else none
  else if n < Nat.pow 2 63 then some (.int n) else none

def digitOf (c : Char) : Nat := if isDigit c then c.toNat - 48 else c.toLower.toNat - 87

/-- Digits in groups to another base than ten. -/
def ofBase? (base : Nat) (cs : List Char) : Option Json := do
  let digits ← ungroup? (fun c => c.isAlphanum && digitOf c < base) cs
  integer? false (digits.foldl (fun n c => base * n + digitOf c) 0)

/-- The part of a float behind its mark: perhaps a sign, and digits in groups. -/
def exponent? (cs : List Char) : Option Int := do
  let (negative, cs) := readSign cs
  let n := ofDigits (← ungroup? isDigit cs)
  return if negative then -(n : Int) else n

/-- A number with a fraction or an exponent. One too large for a float is refused. -/
def float? (negative : Bool) (body : List Char) : Option Json := do
  let isMark (c : Char) := c == 'e' || c == 'E'
  let mantissa := body.takeWhile fun c => !isMark c
  let exponent ← match body.dropWhile fun c => !isMark c with
    | [] => some 0
    | _ :: cs => exponent? cs
  let whole ← wholeDigits? (mantissa.takeWhile (· != '.'))
  let fraction ← match mantissa.dropWhile (· != '.') with
    | [] => some []
    | _ :: cs => ungroup? isDigit cs
  guard (mantissa.length < body.length || '.' ∈ mantissa)
  let x := (Decimal.Literal.mk negative whole fraction exponent).toFloat
  guard (!x.isInf || negative)
  return .float x

/-- The names of the floats that are not finite. -/
def floatName? (negative : Bool) (body : List Char) : Option Json :=
  if body = "inf".toList then some (.float (if negative then -1.0 / 0.0 else 1.0 / 0.0))
  else if body = "nan".toList then some (.float (0.0 / 0.0))
  else none

/-- A number without a sign to a base named in front, or any number in base ten. -/
def number? (cs : List Char) : Option Json :=
  match cs with
  | '0' :: 'x' :: cs => ofBase? 16 cs
  | '0' :: 'o' :: cs => ofBase? 8 cs
  | '0' :: 'b' :: cs => ofBase? 2 cs
  | cs =>
    let (negative, body) := readSign cs
    match wholeDigits? body with
    | some digits => integer? negative (ofDigits digits)
    | none => (floatName? negative body).or (float? negative body)

/-- The name of the field that a date or time stands in. -/
def momentField : String := "$__toml_private_datetime"

def scalar? (cs : List Char) : Option Json :=
  if cs = "true".toList then some (.bool true)
  else if cs = "false".toList then some (.bool false)
  else match Moment.read? cs with
    | some text => some (.object [(momentField, .string text)])
    | none => number? cs

end Mustache.Toml
