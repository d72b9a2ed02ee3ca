import Mustache.Json

/-!
Tables while they are put together. A table has one header at most, a dotted key reaches into
tables that dotted keys made and no others, and what a value was given to stays as it is.
-/

namespace Mustache.Toml

/-- How a table came about. -/
inductive Origin
  /-- It has a header, or is the whole of a document or value. -/
  | header
  /-- A header of another table passed through it. -/
  | passed
  /-- A dotted key passed through it. -/
  | dotted
deriving DecidableEq, Repr

inductive Branch
  | value (j : Json)
  | table (origin : Origin) (entries : List (String × Branch))
  /-- The tables of an array, the last first. -/
  | tables (all : List (List (String × Branch)))

/-- What a table holds, by name. -/
abbrev Entries := List (String × Branch)

namespace Entries

/-- Puts a branch under a name, in the place of the one that is there. -/
def put (name : String) (b : Branch) : Entries → Entries
  | [] => [(name, b)]
  | e :: es => if e.1 = name then (name, b) :: es else e :: put name b es

/-- Changes the table at the end of a path. Of an array the last table is meant. Tables that are
missing on the way are made; a dotted key does not pass through one that has a header. -/
def alter (dotted : Bool) (change : Origin → Entries → Option Entries) :
    (path : List String) → Origin → Entries → Option Entries
  | [], origin, es => change origin es
  | name :: path, _, es => do
    let b ← match es.lookup name with
      | none =>
        let origin : Origin := if dotted then .dotted else .passed
        Branch.table origin <$> alter dotted change path origin []
      | some (.table origin sub) =>
        if dotted && origin = .header then none
        else Branch.table origin <$> alter dotted change path origin sub
      | some (.tables (last :: earlier)) =>
        (fun last => Branch.tables (last :: earlier)) <$> alter dotted change path .header last
      | some _ => none
    return put name b es

/-- Splits a path of several names into the way and the last name. -/
def lastOf? (path : List String) : Option (List String × String) :=
  path.getLast?.map fun name => (path.dropLast, name)

/-- Puts a value under a dotted key that is free. -/
def enter? (key : List String) (j : Json) (es : Entries) : Option Entries := do
  let (path, name) ← lastOf? key
  let place (origin : Origin) (es : Entries) : Option Entries :=
    if (path = [] ∨ origin = .dotted) ∧ (es.lookup name).isNone then
      some (put name (.value j) es)
    else none
  alter true place path .header es

/-- Gives a table its header. One that headers only passed through so far moves behind the others
of its table. -/
def openTable? (path : List String) (es : Entries) : Option Entries := do
  let (path, name) ← lastOf? path
  let place (_ : Origin) (es : Entries) : Option Entries :=
    match es.lookup name with
    | none => some (put name (.table .header []) es)
    | some (.table .passed sub) =>
      some ((es.filter fun e => e.1 != name) ++ [(name, .table .header sub)])
    | some _ => none
  alter false place path .header es

/-- Begins one more table of an array. -/
def openElement? (path : List String) (es : Entries) : Option Entries := do
  let (path, name) ← lastOf? path
  let place (_ : Origin) (es : Entries) : Option Entries :=
    match es.lookup name with
    | none => some (put name (.tables [[]]) es)
    | some (.tables all) => some (put name (.tables ([] :: all)) es)
    | some _ => none
  alter false place path .header es

end Entries

mutual

def Branch.toJson : Branch → Json
  | .value j => j
  | .table _ entries => .object (Branch.entriesToJson entries)
  | .tables all => .array (Branch.tablesToJson all).reverse

def Branch.entriesToJson : List (String × Branch) → List (String × Json)
  | [] => []
  | (name, b) :: es => (name, Branch.toJson b) :: Branch.entriesToJson es

def Branch.tablesToJson : List (List (String × Branch)) → List Json
  | [] => []
  | t :: ts => .object (Branch.entriesToJson t) :: Branch.tablesToJson ts

end

end Mustache.Toml
