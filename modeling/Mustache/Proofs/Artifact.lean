import Mustache.Artifact
import Mustache.Proofs.Json.Compact

/-!
A stored artifact reads back as it was, if the numbers of its tree fit into 64 bits and the tree is
no deeper than the reader goes. Main statement: `Artifact.ofText?_text`.
-/

namespace Mustache

/-! ### Parts -/

namespace Json

@[simp] theorem toString?_string (s : String) : (string s).toString? = some s := rfl

@[simp] theorem toBool?_bool (b : Bool) : (bool b).toBool? = some b := rfl

@[simp] theorem toNat?_nat (n : Nat) : (nat n).toNat? = some n := by
  simp [nat, toNat?]

@[simp] theorem toOptString?_opt (s : Option String) : (opt string s).toOptString? = some s := by
  cases s <;> rfl

end Json

@[simp] theorem Delimiters.ofJson?_toJson (d : Delimiters) : ofJson? d.toJson = some d := by
  simp [ofJson?, toJson, Json.fields?, Json.byName?, Json.single?]

/-! ### Trees -/

namespace Node

variable {style : Json.Style}

@[simp] theorem required_some {α : Type} (read : Json → Option α) (f : Field) :
    required read (some f) = read f.json := rfl

@[simp] theorem optional_some (f : Field) : optional (some f) = f.json.toOptString? := rfl

@[simp] theorem requiredNodes_some (f : Field) : requiredNodes (some f) = f.nodes? := rfl

@[simp] theorem listOfJson?_array (items : List Json) :
    listOfJson? style (.array items) = itemsOfJson? style items := rfl

@[simp] theorem ofJson?_named (kind : String) (entries : List (String × Json)) :
    ofJson? style (.object [(kind, .object entries)]) =
      ofBody? kind (.named (entryFields style entries)) := rfl

@[simp] theorem pick?_named (names : List String) (entries : List (String × Field)) :
    (Body.named entries).pick? names = Json.byName? names entries := rfl

mutual

/-- A node reads back from its one entry, and the nodes in it from theirs. -/
theorem ofJson?_toJson (n : Node) : ofJson? style n.toJson = some n := by
  cases n with
  | sectionNode name inverted children start stop delimiters line =>
    have hchildren := itemsOfJson?_listToJson children
    simp [toJson, ofBody?, entryFields, Json.byName?, Json.single?, hchildren]
  | parent name indent blocks line =>
    have hblocks := itemsOfJson?_listToJson blocks
    simp [toJson, ofBody?, entryFields, Json.byName?, Json.single?, hblocks]
  | block name children indent line =>
    have hchildren := itemsOfJson?_listToJson children
    simp [toJson, ofBody?, entryFields, Json.byName?, Json.single?, hchildren]
  | _ => simp [toJson, ofBody?, entryFields, Json.byName?, Json.single?]

theorem itemsOfJson?_listToJson (ns : List Node) :
    itemsOfJson? style (listToJson ns) = some ns := by
  cases ns with
  | nil => rfl
  | cons n ns => simp [listToJson, itemsOfJson?, ofJson?_toJson n, itemsOfJson?_listToJson ns]

end

end Node

/-! ### Artifacts -/

namespace Artifact

theorem ofJson?_toJson {style : Json.Style} (a : Artifact) : ofJson? style a.toJson = some a := by
  simp [ofJson?, toJson, Json.fields?, Json.byName?, Json.single?, Node.itemsOfJson?_listToJson]

/-- The text of the artifact can be read: its numbers fit into 64 bits, as those of the lines and
places in a source do, and its tree is not too deep. -/
structure Legible (a : Artifact) : Prop where
  plain : a.toJson.isPlain
  shallow : a.toJson.depth ≤ Json.maxDepth

/-- **A legible artifact is what is read from its text.** -/
theorem ofText?_text {a : Artifact} (h : a.Legible) : ofText? a.text = some a := by
  unfold ofText? text
  rw [Json.parse?_compact h.plain h.shallow, Option.bind_some]
  exact ofJson?_toJson a

end Artifact

end Mustache
