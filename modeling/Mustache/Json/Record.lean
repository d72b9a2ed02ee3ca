import Mustache.Json

/-!
Records in JSON. A record with named fields is written as an object or, with the names left out,
as an array of the fields in order. Unknown names are passed over; a name that comes twice makes
the record unreadable. What else a notation allows is a matter of its style.
-/

namespace Mustache.Json

variable {α : Type}

/-- What a notation for records leaves open. -/
structure Style where
  /-- An array may go on behind the last field. -/
  surplus : Bool
  /-- The fields of a variant may be listed, as those of a record may. -/
  listsVariants : Bool
  /-- What may stand under the name of a plain choice. -/
  isUnit : Json → Bool

/-- Arrays end with the last field, and the fields of a variant have their names. -/
def Style.strict : Style := ⟨false, false, fun | null => true | _ => false⟩

/-- The entry of a name that comes at most once. -/
def single? (name : String) (entries : List (String × α)) : Option (Option α) :=
  match entries.filter fun e => e.1 == name with
  | [] => some none
  | [(_, a)] => some (some a)
  | _ => none

/-- The named entries, in the order of the names; `none` stands for one that is missing. -/
def byName? (names : List String) (entries : List (String × α)) : Option (List (Option α)) :=
  names.mapM fun name => single? name entries

/-- At least `least` fields in order, and no more than there are names. -/
def byPosition? (names : List String) (least : Nat) (items : List α) :
    Option (List (Option α)) :=
  if least ≤ items.length ∧ items.length ≤ names.length then
    some ((items.map some) ++ List.replicate (names.length - items.length) none)
  else none

/-- The fields of a record, of which an array has to give at least the first `least`. -/
def fields? (style : Style) (names : List String) (least : Nat) :
    Json → Option (List (Option Json))
  | object entries => byName? names entries
  | array items =>
    byPosition? names least (if style.surplus then items.take names.length else items)
  | _ => none

def toString? : Json → Option String
  | string s => some s
  | _ => none

def toBool? : Json → Option Bool
  | bool b => some b
  | _ => none

/-- A number that is neither negative nor written as a float. -/
def toNat? : Json → Option Nat
  | int i => if 0 ≤ i then some i.toNat else none
  | _ => none

/-- A string, or null for none. -/
def toOptString? : Json → Option (Option String)
  | null => some none
  | string s => some (some s)
  | _ => none

/-- A plain choice: its name, or an object with nothing of note under the name. -/
def toChoice? (style : Style) : Json → Option String
  | string s => some s
  | object [(name, j)] => if style.isUnit j then some name else none
  | _ => none

/-- A field that may be missing, and then has a default. -/
def withDefault (default : α) (read : Json → Option α) : Option Json → Option α
  | some j => read j
  | none => some default

end Mustache.Json
