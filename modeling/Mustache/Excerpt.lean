import Mustache.Text.Line
import Mustache.Text.Slice

/-!
Excerpts of a source for error messages: a few numbered lines around a place, with a caret under
the column.
-/

namespace Mustache

/-- A place in a source, and the lines around it that are shown. Lines and columns count
from 1. -/
structure Excerpt where
  lines : List String
  line : Nat
  column : Nat
  first : Nat
  last : Nat
deriving DecidableEq, Repr

namespace Excerpt

/-- The lines of a source without their line ends. -/
def sourceLines (source : String) : List String :=
  (Text.splitLines source.toList).map fun l => String.ofList (Text.chomp l)

/-- The place at `line` and `column`, with two lines on either side as far as there are any. -/
def around (source : String) (line column : Nat) : Excerpt :=
  let lines := sourceLines source
  { lines, line, column, first := max (line - 2) 1, last := min (line + 2) lines.length }

/-- The text before a byte offset; all of it when the offset is past the end. -/
def textBefore (source : String) (offset : Nat) : List Char :=
  match Text.splitAtByte? offset source.toList with
  | some (before, _) => before
  | none => source.toList

/-- The place of a byte offset. -/
def atOffset (source : String) (offset : Nat) : Excerpt :=
  let before := textBefore source offset
  around source (Text.newlines before + 1) ((Text.lastLine before).length + 1)

/-- A number, right-aligned in four columns. -/
def gutter (n : Nat) : String :=
  let digits := toString n
  String.ofList (List.replicate (4 - digits.length) ' ') ++ digits

/-- The line under a source line that points at a column. -/
def caret (column : Nat) : String :=
  "     | " ++ String.ofList (List.replicate (column - 1) ' ') ++ "^\n"

/-- The shown lines, numbered from `n`. -/
def numbered (line column : Nat) : Nat → List String → List String
  | _, [] => []
  | n, l :: ls =>
    (gutter n ++ " | " ++ l ++ "\n" ++ if n = line then caret column else "") ::
      numbered line column (n + 1) ls

/-- The excerpt as it stands in a message. There is no line 0, so nothing is shown from there. -/
def snippet (e : Excerpt) : String :=
  if e.first = 0 then ""
  else String.join (numbered e.line e.column e.first
    ((e.lines.drop (e.first - 1)).take (e.last + 1 - e.first)))

end Excerpt

end Mustache
