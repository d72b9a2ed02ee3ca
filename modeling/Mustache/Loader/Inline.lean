import Mustache.Loader
import Mustache.Text.Line
import Mustache.Text.Word

/-!
Several templates in one text. Each is introduced by a header line, two at signs and a name, and
goes on to the next header or to the end. What stands before the first header is no template.
-/

namespace Mustache.Inline

def isBlank (c : Char) : Bool := c == ' ' || c == '\t'

def isNameChar (c : Char) : Bool := Text.isWord c || c == '.' || c == '-' || c == '/'

/-- The name in a header line. The line has to end in a newline, and blanks have to stand between
the at signs and the name. -/
def header? : List Char → Option String
  | '@' :: '@' :: cs =>
    let name := cs.dropWhile isBlank
    let rest := (name.dropWhile isNameChar).dropWhile isBlank
    if name.length < cs.length ∧ (name.head?.any isNameChar) ∧
        (rest = ['\n'] ∨ rest = ['\r', '\n']) then
      some (String.ofList (name.takeWhile isNameChar))
    else none
  | _ => none

/-- The templates of some lines, each with its name, and the text in front of them. -/
def sections : List (List Char) → List Char × List (String × String)
  | [] => ([], [])
  | l :: ls =>
    let (body, rest) := sections ls
    match header? l with
    | some name => ([], (name, String.ofList body) :: rest)
    | none => (l ++ body, rest)

/-- The templates of a text; of two with one name the later counts. -/
def templates (text : String) : Table String :=
  Table.ofList (sections (Text.splitLines text.toList)).2

end Mustache.Inline
