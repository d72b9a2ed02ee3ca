import Mustache.Text.Space

/-!
Pragmas: language features that are off until an engine or a pragma tag enables them, and the
set of those in force at a place in a template.
-/

namespace Mustache

inductive Pragma
  /-- `name | filter | filter` pipes. -/
  | filters
  /-- Parent tags and the blocks they override. -/
  | blocks
  /-- Partials whose name is looked up in the data. -/
  | dynamicNames
  /-- A name that does not resolve is an error. -/
  | strictVariables
  /-- A tag whose name ends in a slash opens and closes at once. -/
  | selfClosing
deriving DecidableEq, Repr

namespace Pragma

/-- The name in a pragma tag. -/
def name : Pragma → String
  | filters => "FILTERS"
  | blocks => "BLOCKS"
  | dynamicNames => "DYNAMIC-NAMES"
  | strictVariables => "STRICT-VARIABLES"
  | selfClosing => "SELF-CLOSING"

def all : List Pragma := [filters, blocks, dynamicNames, strictVariables, selfClosing]

theorem mem_all (p : Pragma) : p ∈ all := by cases p <;> decide

def ofName? (s : String) : Option Pragma := all.find? fun p => p.name == s

end Pragma

/-- The pragmas in force at a place. -/
structure PragmaSet where
  filters : Bool
  blocks : Bool
  dynamicNames : Bool
  strictVariables : Bool
  selfClosing : Bool
deriving DecidableEq, Repr

namespace PragmaSet

def empty : PragmaSet := ⟨false, false, false, false, false⟩

instance : Inhabited PragmaSet := ⟨empty⟩

def contains (s : PragmaSet) : Pragma → Bool
  | .filters => s.filters
  | .blocks => s.blocks
  | .dynamicNames => s.dynamicNames
  | .strictVariables => s.strictVariables
  | .selfClosing => s.selfClosing

def insert (s : PragmaSet) : Pragma → PragmaSet
  | .filters => { s with filters := true }
  | .blocks => { s with blocks := true }
  | .dynamicNames => { s with dynamicNames := true }
  | .strictVariables => { s with strictVariables := true }
  | .selfClosing => { s with selfClosing := true }

@[simp] theorem contains_empty (p : Pragma) : empty.contains p = false := by cases p <;> rfl

@[simp] theorem contains_insert (s : PragmaSet) (p q : Pragma) :
    (s.insert p).contains q = (q == p || s.contains q) := by
  cases p <;> cases q <;> simp [insert, contains]

def ofList (ps : List Pragma) : PragmaSet := ps.foldl insert empty

/-- The members, in one fixed order. -/
def toList (s : PragmaSet) : List Pragma := Pragma.all.filter s.contains

/-- Adds the pragma a tag names, white space around the name aside. An unknown name adds
nothing. -/
def enable (s : PragmaSet) (name : String) : PragmaSet :=
  match Pragma.ofName? (trimmed name) with
  | some p => s.insert p
  | none => s

/-- The names of the members, with commas between them. -/
def text (s : PragmaSet) : String := ",".intercalate (s.toList.map Pragma.name)

end PragmaSet

end Mustache
