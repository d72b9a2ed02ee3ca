import Mustache.Toml.Statement

/-!
Reading TOML. A document is read as JSON: its tables become objects, dates and times objects with
a field of a reserved name.
-/

namespace Mustache.Toml

/-- A document so far, and the table its next keys belong to. -/
structure Document where
  root : Entries
  current : List String

def Document.add? (d : Document) : Statement → Option Document
  | .table path => do return ⟨← d.root.openTable? path, path⟩
  | .element path => do return ⟨← d.root.openElement? path, path⟩
  | .entry key j => do
    let root ← Entries.alter false (fun _ es => es.enter? key j) d.current .header d.root
    return { d with root }

/-- A mark in front of a text that tells how it is encoded is no part of it. -/
def dropMark : List Char → List Char
  | c :: cs => if c.toNat = 0xFEFF then cs else c :: cs
  | [] => []

def read? (text : String) : Option Json := do
  let d ← (← statements? (dropMark text.toList)).foldlM Document.add? ⟨[], []⟩
  return .object (Branch.entriesToJson d.root)

end Mustache.Toml
