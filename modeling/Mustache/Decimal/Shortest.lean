/-!
The shortest decimal of a binary floating-point number. A finite double is `m * 2 ^ q`; the reals
that round to it form an interval, and of the decimals in that interval the ones with the fewest
digits are wanted, and of those the nearest.

The search is exact and over natural numbers. For one, two, up to seventeen digits it takes the
two neighbours of the value on the grid of decimals with that many digits, and the first grid
with a neighbour inside the interval gives the answer.
-/

namespace Mustache.Decimal

/-- A positive binary number `mantissa * 2 ^ exponent`. -/
structure Binary where
  mantissa : Nat
  exponent : Int
deriving DecidableEq, Repr

/-- The decimal `digits * 10 ^ exponent`. -/
structure Digits where
  digits : Nat
  exponent : Int
deriving DecidableEq, Repr

/-- What the bits of a double say. -/
inductive Decoded
  | nan
  | infinite (negative : Bool)
  | zero (negative : Bool)
  | finite (negative : Bool) (value : Binary)
deriving DecidableEq, Repr

def decode (bits : UInt64) : Decoded :=
  let n := bits.toNat
  let negative := n / Nat.pow 2 63 % 2 == 1
  let exponent : Nat := n / Nat.pow 2 52 % Nat.pow 2 11
  let fraction := n % Nat.pow 2 52
  if exponent = 2047 then if fraction = 0 then .infinite negative else .nan
  else if exponent = 0 then
    if fraction = 0 then .zero negative else .finite negative ⟨fraction, -1074⟩
  else .finite negative ⟨Nat.pow 2 52 + fraction, (exponent : Int) - 1075⟩

/-- The interval of reals that round to a double, in quarters of its last place. The ends belong
to it when the mantissa is even. -/
structure Reach where
  low : Nat
  value : Nat
  high : Nat
  closed : Bool

/-- Half a place on either side, and half of that below a power of two, where the spacing of the
doubles halves. -/
def reach (b : Binary) : Reach :=
  let narrow := b.mantissa = Nat.pow 2 52 ∧ b.exponent ≠ -1074
  { low := 4 * b.mantissa - if narrow then 1 else 2
    value := 4 * b.mantissa
    high := 4 * b.mantissa + 2
    closed := b.mantissa % 2 = 0 }

/-- The exponent of the leading digit: `10 ^ k ≤ m * 2 ^ q < 10 ^ (k + 1)`. It is counted on the
value scaled up by `10 ^ 400`, which makes a positive whole number of every double. -/
def leading (b : Binary) : Int :=
  let scaled := b.mantissa * Nat.pow 2 b.exponent.toNat * Nat.pow 10 400 / Nat.pow 2 (-b.exponent).toNat
  ((Nat.toDigits 10 scaled).length : Int) - 401

/-- How many steps of the grid `10 ^ e` a quarter of the last place is, as numerator and
denominator. -/
def stepsPerQuarter (b : Binary) (e : Int) : Nat × Nat :=
  (Nat.pow 2 b.exponent.toNat * Nat.pow 10 (-e).toNat,
    4 * Nat.pow 2 (-b.exponent).toNat * Nat.pow 10 e.toNat)

/-- The grid point nearest the value among its two neighbours on the grid `10 ^ e` that round to
it. Of two at one distance the upper is taken. -/
def onGrid? (b : Binary) (e : Int) : Option Nat :=
  let r := reach b
  let (num, den) := stepsPerQuarter b e
  let below := r.value * num / den
  let inside (k : Nat) : Bool :=
    if r.closed then r.low * num ≤ k * den && k * den ≤ r.high * num
    else r.low * num < k * den && k * den < r.high * num
  let up := (below + 1) * den - r.value * num
  let down := r.value * num - below * den
  match inside below, inside (below + 1) with
  | true, true => some (if down < up then below else below + 1)
  | true, false => some below
  | false, true => some (below + 1)
  | false, false => none

/-- The first hit on grids with one digit, two digits, and so on. Seventeen always suffice. -/
def shortest (b : Binary) : Digits :=
  let k := leading b
  let grids := (List.range 17).map fun (n : Nat) => k - n
  match grids.findSome? fun e => (onGrid? b e).map fun d => (⟨d, e⟩ : Digits) with
  | some d => d
  | none => ⟨b.mantissa, b.exponent⟩

/-- Zeros in front of or behind the digits, and no exponent: the decimal written out in full. -/
def positional (d : Digits) : String :=
  let digits := Nat.toDigits 10 d.digits
  if 0 ≤ d.exponent then String.ofList (digits ++ List.replicate d.exponent.toNat '0')
  else
    let places := d.exponent.natAbs
    let padded := List.replicate (places + 1 - digits.length) '0' ++ digits
    let whole := padded.take (padded.length - places)
    let fraction := padded.drop (padded.length - places)
    let fraction := (fraction.reverse.dropWhile (· == '0')).reverse
    String.ofList (if fraction.isEmpty then whole else whole ++ '.' :: fraction)

/-- The whole number a binary number is, if it is one. -/
def whole? (b : Binary) : Option Nat :=
  if 0 ≤ b.exponent then some (b.mantissa * Nat.pow 2 b.exponent.toNat)
  else
    let unit := Nat.pow 2 b.exponent.natAbs
    if b.mantissa % unit = 0 then some (b.mantissa / unit) else none

end Mustache.Decimal
