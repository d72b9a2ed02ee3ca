import Mustache.Text.Space

/-!
Delimiter pairs: the two strings between which a tag stands. A pair is written as its two halves
with a blank between them, and that is also the body of a delimiter-change tag.
-/

namespace Mustache

/-- The strings that open and close a tag. -/
structure Delimiters where
  opening : String
  closing : String
deriving DecidableEq, Repr

namespace Delimiters

/-- The pair every template starts with unless its engine says otherwise. -/
def standard : Delimiters := ⟨"\x7b\x7b", "\x7d\x7d"⟩

instance : Inhabited Delimiters := ⟨standard⟩

/-- Reads the body of a delimiter-change tag: two words, none of which has an equals sign. -/
def parse? (body : List Char) : Option Delimiters :=
  match Text.words body with
  | [o, c] => if '=' ∈ o ∨ '=' ∈ c then none else some ⟨String.ofList o, String.ofList c⟩
  | _ => none

/-- The two halves with a blank between them. -/
def text (d : Delimiters) : String := d.opening ++ " " ++ d.closing

/-- The delimiter-change tag, written in the pair `active`, after which `d` is in force. -/
def switchFrom (d active : Delimiters) : String :=
  active.opening ++ "= " ++ d.text ++ " =" ++ active.closing

end Delimiters

end Mustache
