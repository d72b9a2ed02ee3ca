import Mustache.Error
import Mustache.Value

/-!
Name lookup. Sections put the value they enter on a stack of scopes, and a name is looked up from
the innermost scope outwards.
-/

namespace Mustache

/-- The scopes at a place of a render, innermost first. -/
abbrev Scopes := List Value

namespace Scopes

/-- The innermost scope, which the tag `.` names. -/
def innermost : Scopes → Value
  | [] => .null
  | v :: _ => v

/-- The value of a name in the innermost scope that has it. -/
def find? (scopes : Scopes) (name : String) : Option Value := scopes.findSome? (·.get? name)

/-- The parts of a dotted path. -/
def segments (path : String) : List String :=
  (path.toList.splitOn '.').map String.ofList

/-- Looks up the first segment in the scopes and each later one in the value found so far. -/
def findPath? (scopes : Scopes) (path : String) : Option Value :=
  match segments path with
  | [] => none
  | first :: rest => (scopes.find? first).bind fun v => rest.foldlM (fun v s => v.get? s) v

/-- The value a tag's name stands for, if any. -/
def lookup? (scopes : Scopes) (name : String) : Option Value :=
  if name = "." then some scopes.innermost
  else if '.' ∈ name.toList then scopes.findPath? name
  else scopes.find? name

/-- The value of a tag's name. One that does not resolve is null, or an error under `strict`. -/
def resolve (scopes : Scopes) (name : String) (strict : Bool) : Except Error Value :=
  match scopes.lookup? name with
  | some v => .ok v
  | none => if strict then .error (.unknownVariable name) else .ok .null

end Scopes

end Mustache
