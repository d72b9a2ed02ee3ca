import Mustache.Text.Quoted
import Mustache.Token

/-!
Tokens as a table to be read by people: line, kind, value and indent.
-/

namespace Mustache

namespace Text

def padLeft (width : Nat) (s : String) : String :=
  String.ofList (List.replicate (width - s.length) ' ') ++ s

def padRight (width : Nat) (s : String) : String :=
  s ++ String.ofList (List.replicate (width - s.length) ' ')

end Text

namespace Token

/-- The line of a token. -/
def listing (t : Token) : String :=
  let indent := match t.indent with
    | some i => "  indent=" ++ Text.quoted i
    | none => ""
  Text.padLeft 4 (toString t.line) ++ "  " ++ Text.padRight 15 t.kind.name ++ " " ++
    Text.quoted t.value ++ indent ++ "\n"

def listings (ts : List Token) : String := String.join (ts.map listing)

end Token

end Mustache
