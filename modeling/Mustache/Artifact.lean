import Mustache.Json.Read
import Mustache.Json.Record
import Mustache.Node

/-!
Parsed templates as they are stored, and the JSON form of tokens, trees and artifacts. What is
written reads back; of what others wrote, fields that are not known are passed over.
-/

namespace Mustache

/-- A parsed template: the name it was first compiled under, the key it is stored under, its
source and its tree. -/
structure Artifact where
  name : String
  key : String
  source : String
  tree : List Node

namespace Delimiters

def toJson (d : Delimiters) : Json :=
  .object [("open", .string d.opening), ("close", .string d.closing)]

def ofJson? (j : Json) : Option Delimiters := do
  match ← j.fields? .strict ["open", "close"] 2 with
  | [some o, some c] => return ⟨← o.toString?, ← c.toString?⟩
  | _ => none

end Delimiters

namespace Token

def toJson (t : Token) : Json :=
  .object
    [("kind", .string t.kind.name), ("value", .string t.value), ("line", .nat t.line),
      ("start", .nat t.start), ("end", .nat t.stop), ("delimiters", t.delimiters.toJson),
      ("indent", .opt .string t.indent)]

end Token

namespace Node

/-! ### Writing -/

mutual

def toJson : Node → Json
  | .text t => .object [("Text", .object [("text", .string t)])]
  | .interpolation name escape line =>
    .object [("Variable", .object
      [("name", .string name), ("escape", .bool escape), ("line", .nat line)])]
  | .sectionNode name inverted children start stop delimiters line =>
    .object [("Section", .object
      [("name", .string name), ("inverted", .bool inverted), ("children", .array (listToJson children)),
        ("start", .nat start), ("end", .nat stop), ("delimiters", delimiters.toJson),
        ("line", .nat line)])]
  | .partialNode name dynamic indent line =>
    .object [("Partial", .object
      [("name", .string name), ("dynamic", .bool dynamic), ("indent", .opt .string indent),
        ("line", .nat line)])]
  | .parent name indent blocks line =>
    .object [("Parent", .object
      [("name", .string name), ("indent", .opt .string indent),
        ("blocks", .array (listToJson blocks)), ("line", .nat line)])]
  | .block name children indent line =>
    .object [("Block", .object
      [("name", .string name), ("children", .array (listToJson children)),
        ("indent", .opt .string indent), ("line", .nat line)])]
  | .pragma name line =>
    .object [("Pragma", .object [("name", .string name), ("line", .nat line)])]

def listToJson : List Node → List Json
  | [] => []
  | n :: ns => toJson n :: listToJson ns

end

/-! ### Reading -/

/-- A field of a node: its JSON, and the nodes in it if it is a list of nodes. -/
structure Field where
  json : Json
  nodes? : Option (List Node)

/-- The fields of a node, by name or in order. -/
inductive Body
  | named (entries : List (String × Field))
  | listed (items : List Field)

/-- Picks fields of a body. A list gives all of them. -/
def Body.pick? (names : List String) : Body → Option (List (Option Field))
  | named entries => Json.byName? names entries
  | listed items => Json.byPosition? names names.length items

/-- A field that has to be there. -/
def required (read : Json → Option α) : Option Field → Option α
  | some f => read f.json
  | none => none

/-- A string or nothing; nothing too when the field is missing. -/
def optional : Option Field → Option (Option String)
  | some f => f.json.toOptString?
  | none => some none

def requiredNodes : Option Field → Option (List Node)
  | some f => f.nodes?
  | none => none

/-- A node of a kind from its fields. -/
def ofBody? (kind : String) (body : Body) : Option Node :=
  match kind with
  | "Text" => do
    match ← body.pick? ["text"] with
    | [t] => return .text (← required Json.toString? t)
    | _ => none
  | "Variable" => do
    match ← body.pick? ["name", "escape", "line"] with
    | [name, escape, line] =>
      return .interpolation (← required Json.toString? name) (← required Json.toBool? escape)
        (← required Json.toNat? line)
    | _ => none
  | "Section" => do
    match ← body.pick? ["name", "inverted", "children", "start", "end", "delimiters", "line"] with
    | [name, inverted, children, start, stop, delimiters, line] =>
      return .sectionNode (← required Json.toString? name) (← required Json.toBool? inverted)
        (← requiredNodes children) (← required Json.toNat? start) (← required Json.toNat? stop)
        (← required Delimiters.ofJson? delimiters) (← required Json.toNat? line)
    | _ => none
  | "Partial" => do
    match ← body.pick? ["name", "dynamic", "indent", "line"] with
    | [name, dynamic, indent, line] =>
      return .partialNode (← required Json.toString? name) (← required Json.toBool? dynamic)
        (← optional indent) (← required Json.toNat? line)
    | _ => none
  | "Parent" => do
    match ← body.pick? ["name", "indent", "blocks", "line"] with
    | [name, indent, blocks, line] =>
      return .parent (← required Json.toString? name) (← optional indent)
        (← requiredNodes blocks) (← required Json.toNat? line)
    | _ => none
  | "Block" => do
    match ← body.pick? ["name", "children", "indent", "line"] with
    | [name, children, indent, line] =>
      return .block (← required Json.toString? name) (← requiredNodes children)
        (← optional indent) (← required Json.toNat? line)
    | _ => none
  | "Pragma" => do
    match ← body.pick? ["name", "line"] with
    | [name, line] =>
      return .pragma (← required Json.toString? name) (← required Json.toNat? line)
    | _ => none
  | _ => none

section

variable (style : Json.Style)

mutual

def ofJson? : Json → Option Node
  | .object [(kind, .object entries)] => ofBody? kind (.named (entryFields entries))
  | .object [(kind, .array items)] =>
    if style.listsVariants then ofBody? kind (.listed (itemFields items)) else none
  | _ => none

def listOfJson? : Json → Option (List Node)
  | .array items => itemsOfJson? items
  | _ => none

def itemsOfJson? : List Json → Option (List Node)
  | [] => some []
  | j :: js => do return (← ofJson? j) :: (← itemsOfJson? js)

def entryFields : List (String × Json) → List (String × Field)
  | [] => []
  | (k, j) :: es => (k, ⟨j, listOfJson? j⟩) :: entryFields es

def itemFields : List Json → List Field
  | [] => []
  | j :: js => ⟨j, listOfJson? j⟩ :: itemFields js

end

end

end Node

namespace Artifact

def toJson (a : Artifact) : Json :=
  .object
    [("name", .string a.name), ("key", .string a.key), ("source", .string a.source),
      ("tree", .array (Node.listToJson a.tree))]

def ofJson? (style : Json.Style) (j : Json) : Option Artifact := do
  match ← j.fields? style ["name", "key", "source", "tree"] 4 with
  | [some name, some key, some source, some tree] =>
    return ⟨← name.toString?, ← key.toString?, ← source.toString?, ← Node.listOfJson? style tree⟩
  | _ => none

/-- The text an artifact is stored as. -/
def text (a : Artifact) : String := a.toJson.compact

/-- In a stored artifact the fields of a node may be listed. -/
def textStyle : Json.Style := { Json.Style.strict with listsVariants := true }

/-- Fields that are passed over need not be legible. -/
def ofText? (text : String) : Option Artifact := (Json.parse? text).bind (ofJson? textStyle)

end Artifact

end Mustache
