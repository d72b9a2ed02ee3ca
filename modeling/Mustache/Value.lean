import Mustache.Decimal.Shortest
import Mustache.Table

/-!
Render data: scalars, lists, maps, host objects and callables, with the rules templates see them
by. Lists and maps are different kinds, so a section iterates the one and enters the other
without looking inside.
-/

namespace Mustache

/-- Whether a callable takes an argument. -/
inductive Arity
  | nullary
  /-- Section callables get the section's text, filters the value piped to them. -/
  | unary
deriving DecidableEq, Repr

/-- A callable, by the number its host knows it under. What it does is the host's business. -/
structure Callable where
  id : Nat
  arity : Arity
deriving DecidableEq, Repr

/-- A value of the data a template is rendered with. Maps list their entries by ascending key,
each key once. A host object exposes names as methods, fields and keys, may give a value when
called, and says itself whether it is truthy; its number tells it from every other object. -/
inductive Value
  | null
  | bool (b : Bool)
  | int (i : Int)
  | float (x : Float)
  | string (s : String)
  | list (items : List Value)
  | map (entries : List (String × Value))
  | object (id : Nat) (method field key : String → Option Value) (result : Option Value)
      (truthy : Bool)
  | callable (c : Callable)

namespace Value

instance : Inhabited Value := ⟨null⟩

/-- A map of the given entries; of two with one key the later counts. -/
def ofEntries (entries : List (String × Value)) : Value := map (Table.ofList entries)

/-! ### Numbers -/

/-- Zero of either sign is the one float that is falsy. -/
def floatTruthy (x : Float) : Bool := x != 0.0

/-- The bound below which a whole float prints like an integer. -/
def wholeBelow : Nat := Nat.pow 10 15

/-- The shortest digits that read back, written out in full. A whole number has no point, and
negative zero keeps its sign. -/
def floatText (x : Float) : String :=
  match Decimal.decode x.toBits with
  | .nan => "NaN"
  | .infinite negative => if negative then "-inf" else "inf"
  | .zero negative => if negative then "-0" else "0"
  | .finite negative b =>
    (if negative then "-" else "") ++ Decimal.positional (Decimal.shortest b)

/-- A float as templates print it: a whole number below the bound as an integer is. -/
def floatDisplay (x : Float) : String :=
  match Decimal.decode x.toBits with
  | .zero _ => "0"
  | .finite negative b =>
    match Decimal.whole? b with
    | some n => if n < wholeBelow then (if negative then "-" else "") ++ toString n else floatText x
    | none => floatText x
  | _ => floatText x

/-! ### What templates see -/

mutual

/-- The text a value is printed as. Maps, objects and callables print nothing, lists their items
with commas between them. -/
def display : Value → String
  | null | map _ | object .. | callable _ => ""
  | bool b => if b then "true" else "false"
  | int i => toString i
  | float x => floatDisplay x
  | string s => s
  | list items => ",".intercalate (displayAll items)

def displayAll : List Value → List String
  | [] => []
  | v :: vs => display v :: displayAll vs

end

/-- Whether a section over the value shows its text. -/
def truthy : Value → Bool
  | null => false
  | bool b => b
  | int i => i != 0
  | float x => floatTruthy x
  | string s => !s.isEmpty
  | list items => !items.isEmpty
  | map entries => !entries.isEmpty
  | object _ _ _ _ _ t => t
  | callable _ => true

/-- A list index as a name: digits, perhaps with a plus sign in front, below `2 ^ 64`. -/
def index? (name : String) : Option Nat :=
  let digits := match name.toList with
    | '+' :: cs => cs
    | cs => cs
  if digits.isEmpty || !digits.all Char.isDigit then none
  else
    let n := digits.foldl (fun n c => n * 10 + (c.toNat - 48)) 0
    if n < Nat.pow 2 64 then some n else none

/-- The value that a single value holds under a name. Objects are asked for a method, then a
field, then a key; scalars hold nothing. -/
def get? (name : String) : Value → Option Value
  | map entries => entries.lookup name
  | object _ method field key _ _ => (method name).or ((field name).or (key name))
  | list items => (index? name).bind (items[·]?)
  | _ => none

/-- The name of the kind of a value. -/
def kindName : Value → String
  | null => "Null"
  | bool _ => "Bool"
  | int _ => "Int"
  | float _ => "Float"
  | string _ => "String"
  | list _ => "List"
  | map _ => "Map"
  | object .. => "Object"
  | callable _ => "Lambda"

/-! ### Equality -/

mutual

/-- Equality as templates and filters see it: by kind and content, objects and callables by
identity, and a float that is not a number equal to nothing. -/
def equals : Value → Value → Bool
  | null, null => true
  | bool a, bool b => a == b
  | int a, int b => a == b
  | float a, float b => a == b
  | string a, string b => a == b
  | list a, list b => equalsAll a b
  | map a, map b => equalsEntries a b
  | object a _ _ _ _ _, object b _ _ _ _ _ => a == b
  | callable a, callable b => a == b
  | _, _ => false

def equalsAll : List Value → List Value → Bool
  | [], [] => true
  | a :: as, b :: bs => equals a b && equalsAll as bs
  | _, _ => false

def equalsEntries : List (String × Value) → List (String × Value) → Bool
  | [], [] => true
  | (k, a) :: as, (l, b) :: bs => k == l && equals a b && equalsEntries as bs
  | _, _ => false

end

end Value

end Mustache
