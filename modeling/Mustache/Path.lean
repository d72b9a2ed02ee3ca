/-!
Paths as texts: names with slashes between them. Taking a path apart is a matter of the text
alone; what it leads to is for a file system to say.
-/

namespace Mustache.Path

/-- The pieces between the slashes, empty ones included. -/
def pieces (path : String) : List String := (path.toList.splitOn '/').map String.ofList

def isAbsolute (path : String) : Bool := path.toList.head? == some '/'

/-- The pieces that name something: no empty ones, and a dot only in front. -/
def components (path : String) : List String :=
  match (pieces path).filter (· != "") with
  | [] => []
  | p :: ps => if isAbsolute path then (p :: ps).filter (· != ".") else p :: ps.filter (· != ".")

/-- One path behind the other. An absolute one stands for itself. -/
def join (base path : String) : String :=
  if isAbsolute path ∨ base = "" then path
  else if base.toList.getLast? = some '/' then base ++ path
  else base ++ "/" ++ path

/-- The path without its last component; there is none for a path without components. -/
def parent? (path : String) : Option String :=
  match (components path).reverse with
  | [] => none
  | _ :: r => some ((if isAbsolute path then "/" else "") ++ "/".intercalate r.reverse)

/-- The last component, unless it leads upwards or stays. -/
def fileName? (path : String) : Option String :=
  match (components path).getLast? with
  | some name => if name = ".." ∨ name = "." then none else some name
  | none => none

/-- What follows the last dot of the file name. A dot in front does not count. -/
def extension? (path : String) : Option String := do
  let name ← fileName? path
  let cs := name.toList.reverse
  let after := cs.takeWhile (· != '.')
  guard (after.length + 1 < cs.length)
  return String.ofList after.reverse

end Mustache.Path
