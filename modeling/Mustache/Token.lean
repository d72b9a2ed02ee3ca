import Mustache.Delimiters

/-!
Tokens: the pieces a template's source falls into, texts and tags. A token knows its place in the
source, the delimiters in force there and, for a tag that stands alone on its line and pulls in
other text, the white space in front of it.
-/

namespace Mustache

inductive TokenKind
  | text
  /-- An interpolation whose text is escaped. -/
  | escaped
  | unescaped
  | sectionTag
  | inverted
  | close
  | partialTag
  /-- A partial whose name is looked up in the data. -/
  | dynamicPartial
  | parent
  | block
  | comment
  | delimiters
  | pragma
deriving DecidableEq, Repr

namespace TokenKind

def name : TokenKind → String
  | text => "Text"
  | escaped => "Escaped"
  | unescaped => "Unescaped"
  | sectionTag => "Section"
  | inverted => "Inverted"
  | close => "Close"
  | partialTag => "Partial"
  | dynamicPartial => "DynamicPartial"
  | parent => "Parent"
  | block => "Block"
  | comment => "Comment"
  | delimiters => "Delimiters"
  | pragma => "Pragma"

/-- The kind of tag that a character right after the opening delimiter makes. Every other
character begins the name of an escaped interpolation. -/
def ofSigil? : Char → Option TokenKind
  | '#' => some sectionTag
  | '^' => some inverted
  | '/' => some close
  | '>' => some partialTag
  | '<' => some parent
  | '$' => some block
  | '!' => some comment
  | '=' => some delimiters
  | '%' => some pragma
  | '{' | '&' => some unescaped
  | _ => none

/-- Tags that print nothing in their own place. Alone on a line they take the line's white space
with them. -/
def canStandAlone : TokenKind → Bool
  | text | escaped | unescaped => false
  | _ => true

/-- Tags that put other text in their place and keep the white space in front as its indent. -/
def takesIndent : TokenKind → Bool
  | partialTag | dynamicPartial | parent | block => true
  | _ => false

end TokenKind

/-- A piece of a source. `value` is the text itself, or what a tag holds between sigil and
closing delimiter. It covers the bytes from `start` up to `stop`; lines count from 1. -/
structure Token where
  kind : TokenKind
  value : String
  line : Nat
  start : Nat
  stop : Nat
  delimiters : Delimiters
  indent : Option String
deriving DecidableEq, Repr

namespace Token

def isText (t : Token) : Bool := t.kind = .text

def isBlankText (t : Token) : Bool := t.isText && Text.isBlank t.value.toList

/-- A text token ends its line when it ends in a newline; a newline within a tag ends nothing. -/
def endsLine (t : Token) : Bool := t.isText && t.value.toList.getLast? == some '\n'

end Token

end Mustache
