import Mustache.Text.Line
import Mustache.Text.Search

/-!
Moving text to another indent, line by line.
-/

namespace Mustache.Reindent

/-- Nothing but line ends. -/
def isEmptyLine (line : List Char) : Bool := line.all fun c => c == '\r' || c == '\n'

/-- Puts `indent` in the place of `strip` at the head of a line. Empty lines get none. -/
def moveLine (strip indent line : List Char) : List Char :=
  let bare := Text.stripStart strip line
  if isEmptyLine bare then bare else indent ++ bare

/-- Moves the lines of a text. The first is moved only if it begins a line of the output too. -/
def move (strip indent : List Char) (firstLine : Bool) (text : List Char) : List Char :=
  match Text.splitLines text with
  | [] => []
  | l :: ls =>
    moveLine strip (if firstLine then indent else []) l ++ ls.flatMap (moveLine strip indent)

end Mustache.Reindent
