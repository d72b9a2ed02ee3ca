import Mustache.Decimal.Read

/-!
Dates and times. A moment is kept as its text in one spelling: a capital `T` between date and
time, a capital `Z`, at most nine digits of a second and no zeros at their end, and a distance
from universal time of less than sixty minutes above whole hours.
-/

namespace Mustache.Toml.Moment

open Decimal (isDigit ofDigits)

/-- The year has a 29th of February. -/
def isLeap (year : Nat) : Bool := year % 4 = 0 && (year % 100 != 0 || year % 400 = 0)

def daysIn (year month : Nat) : Nat :=
  if month = 2 then if isLeap year then 29 else 28
  else if month ∈ [4, 6, 9, 11] then 30
  else 31

/-- Digits that write a number in a range. -/
def within (low high : Nat) (cs : List Char) : Bool :=
  cs.all isDigit && low ≤ ofDigits cs && ofDigits cs ≤ high

/-- A date in front of a text: year, month and day with hyphens between them. -/
def date? : List Char → Option (List Char × List Char)
  | a :: b :: c :: d :: '-' :: m :: m' :: '-' :: e :: e' :: rest =>
    let year := [a, b, c, d]
    if year.all isDigit && within 1 12 [m, m'] &&
        within 1 (daysIn (ofDigits year) (ofDigits [m, m'])) [e, e'] then
      some (year ++ ['-', m, m', '-', e, e'], rest)
    else none
  | _ => none

/-- A fraction of a second in front of a text, which may have none. -/
def fraction? : List Char → Option (List Char × List Char)
  | '.' :: cs =>
    let digits := ((cs.takeWhile isDigit).take 9).reverse.dropWhile (· == '0') |>.reverse
    if cs.head?.any isDigit then
      some (if digits.isEmpty then [] else '.' :: digits, cs.dropWhile isDigit)
    else none
  | cs => some ([], cs)

/-- A time of day in front of a text, with hours up to the one given. A minute may have a leap
second. -/
def time? (lastHour : Nat) : List Char → Option (List Char × List Char)
  | h :: h' :: ':' :: m :: m' :: ':' :: s :: s' :: rest => do
    guard (within 0 lastHour [h, h'] && within 0 59 [m, m'] && within 0 60 [s, s'])
    let (fraction, rest) ← fraction? rest
    return ([h, h', ':', m, m', ':', s, s'] ++ fraction, rest)
  | _ => none

def twoDigits (n : Nat) : List Char := [Nat.digitChar (n / 10), Nat.digitChar (n % 10)]

/-- A distance from universal time in minutes. None at all is a positive one. -/
def offsetText (sign : Char) (minutes : Nat) : List Char :=
  (if minutes = 0 then '+' else sign) :: twoDigits (minutes / 60) ++ ':' :: twoDigits (minutes % 60)

/-- The distance from universal time, up to the end of a text, with hours and minutes up to those
given and at most a day. -/
def offset? (lastHour lastMinute : Nat) : List Char → Option (List Char)
  | [] => some []
  | ['Z'] | ['z'] => some ['Z']
  | [sign, h, h', ':', m, m'] =>
    let minutes := 60 * ofDigits [h, h'] + ofDigits [m, m']
    if (sign = '+' ∨ sign = '-') ∧ within 0 lastHour [h, h'] ∧ within 0 lastMinute [m, m'] ∧
        minutes ≤ 24 * 60 then
      some (offsetText sign minutes)
    else none
  | _ => none

def isTimeMark (c : Char) : Bool := c == 'T' || c == 't' || c == ' '

/-- A date, a time or both, as they stand in a document; only both together may have an offset. -/
def read? (cs : List Char) : Option String :=
  match date? cs with
  | some (date, []) => some (String.ofList date)
  | some (date, t :: rest) => do
    guard (isTimeMark t)
    let (time, rest) ← time? 23 rest
    return String.ofList (date ++ 'T' :: time ++ (← offset? 23 59 rest))
  | none =>
    match time? 23 cs with
    | some (time, []) => some (String.ofList time)
    | _ => none

/-- What follows the date in a string: perhaps a time, and perhaps an offset. -/
def afterDate? : List Char → Option (List Char)
  | [] => some []
  | c :: cs =>
    if isTimeMark c then do
      let (time, rest) ← time? 24 cs
      return 'T' :: time ++ (← offset? 99 99 rest)
    else offset? 99 99 (c :: cs)

/-- A date, a time or both, as they stand in a string. Here a day may end with an hour 24, a date
alone may have an offset, and an offset may have any number of minutes. -/
def ofString? (s : String) : Option String :=
  let cs := s.toList
  if cs[2]? = some ':' then
    match time? 24 cs with
    | some (time, []) => some (String.ofList time)
    | _ => none
  else do
    let (date, rest) ← date? cs
    return String.ofList (date ++ (← afterDate? rest))

end Mustache.Toml.Moment
