import Mustache.Json.Number

/-!
Reading JSON. A text is cut into lexemes, and a machine with a stack of the arrays and objects
that are open puts the document together. What has the right form but no value is illegible, and
so are an array or object more than 127 levels deep and an object with an illegible key.
-/

namespace Mustache.Json

/-! ### Lexemes -/

inductive Lexeme
  | beginArray | endArray | beginObject | endObject | comma | colon
  /-- A string, if it is legible. -/
  | string (s : Option String)
  /-- A number or one of the three names. -/
  | scalar (j : Json)

def hexValue? (c : Char) : Option Nat :=
  if '0' ≤ c ∧ c ≤ '9' then some (c.toNat - '0'.toNat)
  else if 'a' ≤ c ∧ c ≤ 'f' then some (c.toNat - 'a'.toNat + 10)
  else if 'A' ≤ c ∧ c ≤ 'F' then some (c.toNat - 'A'.toNat + 10)
  else none

/-- The number that hexadecimal digits write. -/
def hex? (cs : List Char) : Option Nat :=
  cs.foldlM (fun n c => (hexValue? c).map (16 * n + ·)) 0

/-- The character that a letter after a backslash stands for. -/
def escaped? : Char → Option Char
  | '"' => some '"'
  | '\\' => some '\\'
  | '/' => some '/'
  | 'b' => some (Char.ofNat 8)
  | 'f' => some (Char.ofNat 12)
  | 'n' => some '\n'
  | 'r' => some '\r'
  | 't' => some '\t'
  | _ => none

/-- A piece of a string: a character, or a code unit written by its number. -/
inductive Piece
  | char (c : Char)
  | unit (n : Nat)
deriving DecidableEq, Repr

/-- The pieces up to the closing quote, and the rest. -/
def readPieces : List Char → Option (List Piece × List Char)
  | [] => none
  | '"' :: rest => some ([], rest)
  | '\\' :: 'u' :: a :: b :: c :: d :: rest => do
    let n ← hex? [a, b, c, d]
    (readPieces rest).map fun (ps, r) => (.unit n :: ps, r)
  | '\\' :: e :: rest => do
    let c ← escaped? e
    (readPieces rest).map fun (ps, r) => (.char c :: ps, r)
  | c :: rest =>
    if c.toNat < 32 ∨ c = '\\' then none
    else (readPieces rest).map fun (ps, r) => (.char c :: ps, r)

theorem length_lt_of_readPieces {cs rest : List Char} {ps : List Piece}
    (h : readPieces cs = some (ps, rest)) : rest.length < cs.length := by
  fun_induction readPieces cs generalizing ps <;>
    simp [Option.bind_eq_some_iff] at h <;> grind [List.length_cons]

def isHigh (n : Nat) : Bool := 0xD800 ≤ n && n ≤ 0xDBFF

def isLow (n : Nat) : Bool := 0xDC00 ≤ n && n ≤ 0xDFFF

/-- The characters of the pieces. A unit of the upper planes' range counts only with its
partner. -/
def joinPieces? : List Piece → Option (List Char)
  | [] => some []
  | .char c :: ps => (joinPieces? ps).map (c :: ·)
  | .unit h :: .unit l :: ps =>
    if isHigh h && isLow l then
      (joinPieces? ps).map (Char.ofNat (0x10000 + (h - 0xD800) * 0x400 + (l - 0xDC00)) :: ·)
    else if isHigh h || isLow h then none
    else (joinPieces? (.unit l :: ps)).map (Char.ofNat h :: ·)
  | .unit h :: ps =>
    if isHigh h || isLow h then none else (joinPieces? ps).map (Char.ofNat h :: ·)

/-- The string up to its closing quote, if it has no half of a pair, and the rest. -/
def readString (cs : List Char) : Option (Option String × List Char) :=
  (readPieces cs).map fun (ps, rest) => ((joinPieces? ps).map String.ofList, rest)

theorem length_lt_of_readString {cs rest : List Char} {s : Option String}
    (h : readString cs = some (s, rest)) : rest.length < cs.length := by
  simp only [readString, Option.map_eq_some_iff, Prod.mk.injEq, Prod.exists] at h
  obtain ⟨ps, r, hr, _, rfl⟩ := h
  exact length_lt_of_readPieces hr

def isBlank (c : Char) : Bool := c == ' ' || c == '\n' || c == '\t' || c == '\r'

/-- The letters of a name and what follows. -/
def name? (cs : List Char) : Option Json :=
  if cs = "null".toList then some null
  else if cs = "true".toList then some (bool true)
  else if cs = "false".toList then some (bool false)
  else none

def isLetter (c : Char) : Bool := 'a' ≤ c && c ≤ 'z'

/-- The punctuation mark a character is. -/
def mark? : Char → Option Lexeme
  | '[' => some .beginArray
  | ']' => some .endArray
  | '{' => some .beginObject
  | '}' => some .endObject
  | ',' => some .comma
  | ':' => some .colon
  | _ => none

/-- The lexeme at the head of a text that does not begin with a blank. -/
def lexeme? (c : Char) (cs : List Char) : Option (Lexeme × List Char) :=
  match mark? c with
  | some m => some (m, cs)
  | none =>
    if c = '"' then (readString cs).map fun (s, rest) => (.string s, rest)
    else if isNumeric c then
      (readNumber? (c :: cs.takeWhile isNumeric)).map fun j => (.scalar j, cs.dropWhile isNumeric)
    else (name? (c :: cs.takeWhile isLetter)).map fun j => (.scalar j, cs.dropWhile isLetter)

theorem length_le_of_lexeme? {c : Char} {cs rest : List Char} {l : Lexeme}
    (h : lexeme? c cs = some (l, rest)) : rest.length ≤ cs.length := by
  unfold lexeme? at h
  split at h
  · simp_all
  · split at h
    · simp only [Option.map_eq_some_iff, Prod.mk.injEq, Prod.exists] at h
      obtain ⟨s, r, hr, -, rfl⟩ := h
      exact Nat.le_of_lt (length_lt_of_readString hr)
    · split at h <;> simp only [Option.map_eq_some_iff, Prod.mk.injEq] at h <;>
        obtain ⟨_, _, _, rfl⟩ := h <;> exact (List.dropWhile_sublist _).length_le

/-- The lexemes of a text. -/
def lexemes? (cs : List Char) : Option (List Lexeme) :=
  match cs with
  | [] => some []
  | c :: cs =>
    if isBlank c then lexemes? cs
    else
      match _h : lexeme? c cs with
      | some (l, rest) => (lexemes? rest).map (l :: ·)
      | none => none
termination_by cs.length
decreasing_by
  · simp
  · have := length_le_of_lexeme? _h
    simp only [List.length_cons]
    omega

/-! ### Documents -/

/-- An array or object that is open, with what it holds so far, the last first. An object also
has the key of the value being read. -/
inductive Frame
  | array (items : List Json)
  | object (entries : List (String × Json)) (key : String)
  /-- An array or object that will be illegible. -/
  | illegible (isObject : Bool)

/-- What may come next. -/
inductive Expect
  | value
  | valueOrEnd
  | key
  | keyOrEnd
  | colon
  | commaOrEnd

inductive Machine
  | reading (stack : List Frame) (expect : Expect)
  | done (j : Json)

/-- How many arrays and objects may be open at once, lest the innermost be illegible. -/
def maxDepth : Nat := 127

/-- A value is complete. -/
def supply (j : Json) : List Frame → Machine
  | [] => .done j
  | .array items :: stack => .reading (.array (j :: items) :: stack) .commaOrEnd
  | .object entries key :: stack => .reading (.object ((key, j) :: entries) key :: stack) .commaOrEnd
  | .illegible isObject :: stack => .reading (.illegible isObject :: stack) .commaOrEnd

def openArray (stack : List Frame) : Machine :=
  .reading ((if stack.length < maxDepth then .array [] else .illegible false) :: stack) .valueOrEnd

def openObject (stack : List Frame) : Machine :=
  .reading ((if stack.length < maxDepth then .object [] "" else .illegible true) :: stack) .keyOrEnd

/-- A lexeme where a value is due. -/
def startValue? (stack : List Frame) : Lexeme → Option Machine
  | .scalar j => some (supply j stack)
  | .string s => some (supply (s.elim illegible string) stack)
  | .beginArray => some (openArray stack)
  | .beginObject => some (openObject stack)
  | _ => none

def close? : List Frame → Lexeme → Option Machine
  | .array items :: stack, .endArray => some (supply (array items.reverse) stack)
  | .object entries _ :: stack, .endObject => some (supply (object entries.reverse) stack)
  | .illegible false :: stack, .endArray => some (supply illegible stack)
  | .illegible true :: stack, .endObject => some (supply illegible stack)
  | _, _ => none

/-- A key, after which a colon is due. -/
def putKey? (key : Option String) : List Frame → Option Machine
  | .object entries _ :: stack =>
    some (.reading (key.elim (.illegible true) (.object entries) :: stack) .colon)
  | .illegible true :: stack => some (.reading (.illegible true :: stack) .colon)
  | _ => none

/-- What is due behind a comma. -/
def goOn? (stack : List Frame) : Option Machine :=
  match stack with
  | [] => none
  | .array _ :: _ | .illegible false :: _ => some (.reading stack .value)
  | .object _ _ :: _ | .illegible true :: _ => some (.reading stack .key)

def step? : Machine → Lexeme → Option Machine
  | .done _, _ => none
  | .reading stack .value, l => startValue? stack l
  | .reading stack .valueOrEnd, l => (close? stack l).or (startValue? stack l)
  | .reading stack .key, .string s => putKey? s stack
  | .reading stack .keyOrEnd, .string s => putKey? s stack
  | .reading stack .keyOrEnd, l => close? stack l
  | .reading stack .colon, .colon => some (.reading stack .value)
  | .reading stack .commaOrEnd, .comma => goOn? stack
  | .reading stack .commaOrEnd, l => close? stack l
  | _, _ => none

/-- The document of a text, parts of which may be illegible. -/
def parse? (text : String) : Option Json := do
  let ls ← lexemes? text.toList
  match ← ls.foldlM step? (.reading [] .value) with
  | .done j => some j
  | .reading _ _ => none

/-- The document of a text that is legible throughout. -/
def read? (text : String) : Option Json := (parse? text).filter isLegible

end Mustache.Json
