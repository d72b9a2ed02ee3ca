/-!
Escaping of interpolated text. The built-in escape encodes the characters that matter in HTML;
an engine may bring a function of its own instead.
-/

namespace Mustache

/-- Which quote characters the HTML escape encodes. -/
inductive QuoteMode
  /-- The double quote. -/
  | compat
  /-- Both quotes. -/
  | quotes
  | noQuotes
deriving DecidableEq, Repr, Inhabited

namespace QuoteMode

/-- The name in configurations. -/
def name : QuoteMode → String
  | compat => "compat"
  | quotes => "quotes"
  | noQuotes => "no_quotes"

def all : List QuoteMode := [compat, quotes, noQuotes]

def ofName? (s : String) : Option QuoteMode := all.find? fun m => m.name == s

end QuoteMode

namespace Html

/-- The entity a character is written as, if the mode encodes it. -/
def entity? (mode : QuoteMode) : Char → Option (List Char)
  | '&' => some "&amp;".toList
  | '<' => some "&lt;".toList
  | '>' => some "&gt;".toList
  | '"' => if mode = .noQuotes then none else some "&quot;".toList
  | '\'' => if mode = .quotes then some "&#039;".toList else none
  | _ => none

def escapeChar (mode : QuoteMode) (c : Char) : List Char := (entity? mode c).getD [c]

def escapeChars (mode : QuoteMode) (cs : List Char) : List Char := cs.flatMap (escapeChar mode)

/-- Encodes `&`, `<`, `>` and the quotes that the mode names. -/
def escape (mode : QuoteMode) (text : String) : String :=
  String.ofList (escapeChars mode text.toList)

end Html

/-- What an escaped interpolation does to its text. -/
inductive Escape
  | html (mode : QuoteMode)
  | custom (f : String → String)

namespace Escape

instance : Inhabited Escape := ⟨html .compat⟩

def apply : Escape → String → String
  | html mode, text => Html.escape mode text
  | custom f, text => f text

/-- The name that keys of compiled templates carry; custom functions have none of their own. -/
def keyName : Escape → String
  | html mode => "html:" ++ mode.name
  | custom _ => "custom"

end Escape

end Mustache
