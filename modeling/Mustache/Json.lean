import Mustache.Decimal.Shortest

/-!
JSON documents and how they are written, on one line or indented.
-/

namespace Mustache

/-- A JSON document. The entries of an object stand in the order of the text, repeated keys
included. -/
inductive Json
  | null
  | bool (b : Bool)
  | int (i : Int)
  | float (x : Float)
  | string (s : String)
  | array (items : List Json)
  | object (entries : List (String × Json))
  /-- Text of the right form for which there is no value: a number out of range, a string with half
  of a pair of code units, an array or object that lies too deep. -/
  | illegible
deriving Inhabited

namespace Json

/-! ### Look-up -/

/-- The last entry of a key: repeated keys overwrite. -/
def find? (key : String) : Json → Option Json
  | object entries => entries.reverse.lookup key
  | _ => none

def opt (f : α → Json) : Option α → Json
  | some a => f a
  | none => null

def nat (n : Nat) : Json := int n

/-! ### Legibility -/

mutual

/-- No part of the document is illegible. -/
def isLegible : Json → Bool
  | illegible => false
  | array items => areLegible items
  | object entries => haveLegible entries
  | _ => true

def areLegible : List Json → Bool
  | [] => true
  | j :: js => isLegible j && areLegible js

def haveLegible : List (String × Json) → Bool
  | [] => true
  | (_, j) :: es => isLegible j && haveLegible es

end

/-! ### Strings -/

def hexDigit (n : Nat) : Char := (Nat.digitChar n)

/-- A character as it stands between the quotes of a string. -/
def quoteChar (c : Char) : List Char :=
  if c = '"' then ['\\', '"']
  else if c = '\\' then ['\\', '\\']
  else if c = '\n' then ['\\', 'n']
  else if c = '\r' then ['\\', 'r']
  else if c = '\t' then ['\\', 't']
  else if c.toNat = 8 then ['\\', 'b']
  else if c.toNat = 12 then ['\\', 'f']
  else if c.toNat < 32 then
    ['\\', 'u', '0', '0', hexDigit (c.toNat / 16), hexDigit (c.toNat % 16)]
  else [c]

def quote (s : String) : List Char := '"' :: s.toList.flatMap quoteChar ++ ['"']

/-! ### Numbers -/

/-- Digits with a point or an exponent, so that a float reads back as one: positional from
`1e-5` up to `1e16`, scientific outside. -/
def floatDigits (d : Decimal.Digits) : List Char :=
  let digits := Nat.toDigits 10 d.digits
  let point := (digits.length : Int) + d.exponent
  if -5 < point ∧ point ≤ 16 then
    let text := (Decimal.positional d).toList
    if '.' ∈ text then text else text ++ ['.', '0']
  else
    let significant := (digits.reverse.dropWhile (· == '0')).reverse
    let mantissa := match significant with
      | c :: c' :: cs => c :: '.' :: c' :: cs
      | cs => cs
    mantissa ++ 'e' :: (toString (point - 1)).toList

/-- A float that is not finite has no number in JSON. -/
def floatText (x : Float) : List Char :=
  match Decimal.decode x.toBits with
  | .nan | .infinite _ => "null".toList
  | .zero negative => (if negative then "-0.0" else "0.0").toList
  | .finite negative b =>
    (if negative then ['-'] else []) ++ floatDigits (Decimal.shortest b)

/-! ### Documents -/

/-- Texts with commas between them. -/
def commas : List (List Char) → List Char
  | [] => []
  | [t] => t
  | t :: ts => t ++ ',' :: commas ts

mutual

def compactChars : Json → List Char
  | null | illegible => "null".toList
  | bool b => (if b then "true" else "false").toList
  | int i => (toString i).toList
  | float x => floatText x
  | string s => quote s
  | array items => '[' :: commas (compactItems items) ++ [']']
  | object entries => '{' :: commas (compactEntries entries) ++ ['}']

def compactItems : List Json → List (List Char)
  | [] => []
  | j :: js => compactChars j :: compactItems js

def compactEntries : List (String × Json) → List (List Char)
  | [] => []
  | (k, j) :: es => (quote k ++ ':' :: compactChars j) :: compactEntries es

end

/-- The document on one line. -/
def compact (j : Json) : String := String.ofList (compactChars j)

/-- The items of an array or object between its brackets, each on a line of its own. -/
def indented (depth : Nat) (left right : Char) (items : List (List Char)) : List Char :=
  let line (n : Nat) := '\n' :: List.replicate (2 * n) ' '
  if items.isEmpty then [left, right]
  else left :: commas (items.map (line (depth + 1) ++ ·)) ++ line depth ++ [right]

mutual

def prettyChars (depth : Nat) : Json → List Char
  | array items => indented depth '[' ']' (prettyItems (depth + 1) items)
  | object entries => indented depth '{' '}' (prettyEntries (depth + 1) entries)
  | j => compactChars j

def prettyItems (depth : Nat) : List Json → List (List Char)
  | [] => []
  | j :: js => prettyChars depth j :: prettyItems depth js

def prettyEntries (depth : Nat) : List (String × Json) → List (List Char)
  | [] => []
  | (k, j) :: es => (quote k ++ ':' :: ' ' :: prettyChars depth j) :: prettyEntries depth es

end

/-- The document with two blanks of indent for each level. -/
def pretty (j : Json) : String := String.ofList (prettyChars 0 j)

end Json

end Mustache
