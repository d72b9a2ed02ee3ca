import Mustache.Json
import Mustache.Value

/-!
Data from JSON. A number that fits into 64 bits with its sign is an integer, any other a float.
A float that is not finite stands for null, as it does when JSON is written.
-/

namespace Mustache.Value

def ofNumber (i : Int) : Value :=
  if -9223372036854775808 ≤ i ∧ i ≤ 9223372036854775807 then int i
  else
    let x := Float.ofScientific i.natAbs false 0
    float (if i < 0 then -x else x)

mutual

def ofJson : Json → Value
  | .null | .illegible => null
  | .bool b => bool b
  | .int i => ofNumber i
  | .float x => if x.isFinite then float x else null
  | .string s => string s
  | .array items => list (listOfJson items)
  | .object entries => ofEntries (entriesOfJson entries)

def listOfJson : List Json → List Value
  | [] => []
  | j :: js => ofJson j :: listOfJson js

def entriesOfJson : List (String × Json) → List (String × Value)
  | [] => []
  | (k, j) :: es => (k, ofJson j) :: entriesOfJson es

end

end Mustache.Value
