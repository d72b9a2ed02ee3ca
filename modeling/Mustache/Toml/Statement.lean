import Mustache.Toml.Branch
import Mustache.Toml.Scalar
import Mustache.Toml.Text

/-!
The statements of a document: headers, and keys with their values. A text is cut into lexemes, and
a machine with a stack of the arrays and tables that are open puts the statements together.
-/

namespace Mustache.Toml

/-! ### Lexemes -/

inductive Lexeme
  /-- What keys without quotes and values without quotes are made of, a dot included. -/
  | word (cs : List Char)
  | quoted (s : String) (overLines : Bool)
  /-- A bracket, a brace, a comma or an equals sign. -/
  | mark (c : Char)
  | blank
  | newline
deriving DecidableEq, Repr

/-- A newline is one character; a carriage return stands in front of one. -/
def unifyNewlines? : List Char → Option (List Char)
  | [] => some []
  | '\r' :: '\n' :: cs => (unifyNewlines? cs).map ('\n' :: ·)
  | c :: cs => if c = '\r' then none else (unifyNewlines? cs).map (c :: ·)

def isMark (c : Char) : Bool := c ∈ ['[', ']', '{', '}', ',', '=']

def isWordChar (c : Char) : Bool := c.isAlphanum || c ∈ ['_', '-', '+', ':', '.']

/-- How many more characters belong to a date that goes on with a time after a blank. -/
def timeBehind (word rest : List Char) : Nat :=
  match Moment.date? word, rest with
  | some (_, []), ' ' :: a :: b :: ':' :: more =>
    if Decimal.isDigit a && Decimal.isDigit b then 4 + (more.takeWhile isWordChar).length else 0
  | _, _ => 0

/-- The lexeme at the head of a text, if there is one, and what follows. A comment is none. -/
def lexeme? (c : Char) (cs : List Char) : Option (Option Lexeme × List Char) :=
  if c = '\n' then some (some .newline, cs)
  else if isBlank c then some (some .blank, cs.dropWhile isBlank)
  else if isMark c then some (some (.mark c), cs)
  else if c = '#' then
    if (cs.takeWhile (· != '\n')).all isPlain then some (none, cs.dropWhile (· != '\n')) else none
  else if c = '"' ∨ c = '\'' then
    (readQuoted c cs).map fun q => (some (.quoted (String.ofList q.content) q.overLines), q.rest)
  else if isWordChar c then
    let rest := cs.dropWhile isWordChar
    let word := c :: cs.takeWhile isWordChar
    let more := timeBehind word rest
    some (some (.word (word ++ rest.take more)), rest.drop more)
  else none

theorem length_le_of_lexeme? {c : Char} {cs rest : List Char} {l : Option Lexeme}
    (h : lexeme? c cs = some (l, rest)) : rest.length ≤ cs.length := by
  have hd (p : Char → Bool) : (cs.dropWhile p).length ≤ cs.length :=
    (List.dropWhile_sublist _).length_le
  simp only [lexeme?] at h
  repeat' split at h
  all_goals simp only [Option.some.injEq, Prod.mk.injEq, reduceCtorEq, Option.map_eq_some_iff] at h
  · grind
  · grind
  · grind
  · grind
  · obtain ⟨q, hq, _, rfl⟩ := h
    exact Nat.le_of_lt (length_lt_of_readQuoted hq)
  · obtain ⟨_, rfl⟩ := h
    have := hd isWordChar
    simp only [List.length_drop]
    omega

/-- The lexemes of a text. -/
def lexemes? (cs : List Char) : Option (List Lexeme) :=
  match cs with
  | [] => some []
  | c :: cs =>
    match _h : lexeme? c cs with
    | some (l, rest) => (lexemes? rest).map (l.toList ++ ·)
    | none => none
termination_by cs.length
decreasing_by
  have := length_le_of_lexeme? _h
  simp only [List.length_cons]
  omega

/-! ### Keys -/

/-- How deep arrays, tables and dotted keys may go. -/
def maxDepth : Nat := 79

def isKeyChar (c : Char) : Bool := c.isAlphanum || c == '_' || c == '-'

/-- A part of a key: a name, or the dot between two of them. -/
inductive KeyPart
  | name (s : String)
  | dot
deriving DecidableEq, Repr

/-- The parts of a word. -/
def wordParts? (cs : List Char) : Option (List KeyPart) := do
  let names ← (cs.splitOn '.').mapM fun n =>
    if n.all isKeyChar then some (if n.isEmpty then [] else [KeyPart.name (String.ofList n)]) else none
  return [KeyPart.dot].intercalate names

def keyParts? : Lexeme → Option (List KeyPart)
  | .word cs => wordParts? cs
  | .quoted s false => some [.name s]
  | .blank => some []
  | _ => none

/-- The names of a key, which dots keep apart. -/
def namesOf? : List KeyPart → Option (List String)
  | [.name s] => some [s]
  | .name s :: .dot :: ps => (namesOf? ps).map (s :: ·)
  | _ => none

/-- The key that some lexemes make. -/
def key? (ls : List Lexeme) : Option (List String) := do
  let names ← namesOf? (← ls.mapM keyParts?).flatten
  guard (names.length ≤ maxDepth)
  return names

/-! ### Statements -/

inductive Statement
  /-- The header of a table. -/
  | table (path : List String)
  /-- The header of one more table of an array. -/
  | element (path : List String)
  | entry (key : List String) (value : Json)

/-- What is open: the line of a key, an array or a table in braces, the last two with what they
hold so far. A table also has the key of the value being read. -/
inductive Frame
  | line (key : List String)
  | array (items : List Json)
  | table (entries : Entries) (key : List String)

inductive Mode
  | line
  /-- Behind the first bracket of a line. -/
  | opened
  /-- In a header of one bracket or two, with the lexemes so far, the last first. -/
  | header (twice : Bool) (ls : List Lexeme)
  /-- Between the two brackets that close a header. -/
  | closing (path : List String)
  /-- In a key, with the lexemes so far, the last first. -/
  | key (ls : List Lexeme)
  /-- Behind an opening brace. -/
  | keyOrEnd
  | value
  | afterValue
  /-- Behind a statement. -/
  | ended

structure Machine where
  /-- The last statement first. -/
  statements : List Statement
  stack : List Frame
  mode : Mode

namespace Machine

def start : Machine := ⟨[], [], .line⟩

def finish (m : Machine) (s : Statement) : Machine := ⟨s :: m.statements, [], .ended⟩

/-- A value is complete. -/
def supply? (m : Machine) (j : Json) : List Frame → Option Machine
  | [.line key] => some (m.finish (.entry key j))
  | .array items :: stack => some { m with stack := .array (j :: items) :: stack, mode := .afterValue }
  | .table entries key :: stack => do
    let entries ← Entries.enter? key j entries
    return { m with stack := .table entries key :: stack, mode := .afterValue }
  | _ => none

/-- Opens an array or table unless too many are open. -/
def open? (m : Machine) (f : Frame) (mode : Mode) : Option Machine :=
  if m.stack.length ≤ maxDepth then some { m with stack := f :: m.stack, mode } else none

/-- A lexeme where a value is due. -/
def startValue? (m : Machine) : Lexeme → Option Machine
  | .word cs => do m.supply? (← scalar? cs) m.stack
  | .quoted s _ => m.supply? (.string s) m.stack
  | .mark c =>
    if c = '[' then m.open? (.array []) .value
    else if c = '{' then m.open? (.table [] []) .keyOrEnd
    else none
  | _ => none

/-- Closes the array or table on top. -/
def close? (m : Machine) (c : Char) : Option Machine :=
  match m.stack with
  | .array items :: stack =>
    if c = ']' then m.supply? (.array items.reverse) stack else none
  | .table entries _ :: stack =>
    if c = '}' then m.supply? (.object (Branch.entriesToJson entries)) stack else none
  | _ => none

/-- An array may go over several lines. -/
def inArray (m : Machine) : Bool :=
  match m.stack with
  | .array _ :: _ => true
  | _ => false

/-- The equals sign behind a key. -/
def startEntry? (m : Machine) (key : List String) : Option Machine :=
  match m.stack with
  | .table entries _ :: stack => some { m with stack := .table entries key :: stack, mode := .value }
  | [] => some { m with stack := [.line key], mode := .value }
  | _ => none

/-- A comma behind a value. -/
def goOn? (m : Machine) : Option Machine :=
  match m.stack with
  | .array _ :: _ => some { m with mode := .value }
  | .table _ _ :: _ => some { m with mode := .key [] }
  | _ => none

def inHeader? (m : Machine) (twice : Bool) (ls : List Lexeme) (l : Lexeme) : Option Machine :=
  if l = .mark ']' then do
    let path ← key? ls.reverse
    return if twice then { m with mode := .closing path } else m.finish (.table path)
  else some { m with mode := .header twice (l :: ls) }

def step? (m : Machine) (l : Lexeme) : Option Machine :=
  match m.mode with
  | .line =>
    if l = .blank ∨ l = .newline then some m
    else if l = .mark '[' then some { m with mode := .opened }
    else some { m with mode := .key [l] }
  | .opened =>
    if l = .mark '[' then some { m with mode := .header true [] } else m.inHeader? false [] l
  | .header twice ls => m.inHeader? twice ls l
  | .closing path => if l = .mark ']' then some (m.finish (.element path)) else none
  | .key ls =>
    if l = .mark '=' then do m.startEntry? (← key? ls.reverse)
    else some { m with mode := .key (l :: ls) }
  | .keyOrEnd =>
    if l = .blank then some m
    else if l = .mark '}' then m.close? '}'
    else some { m with mode := .key [l] }
  | .value =>
    if l = .blank ∨ (l = .newline ∧ m.inArray) then some m
    else if l = .mark ']' then m.close? ']'
    else m.startValue? l
  | .afterValue =>
    if l = .blank ∨ (l = .newline ∧ m.inArray) then some m
    else match l with
      | .mark c => if c = ',' then m.goOn? else m.close? c
      | _ => none
  | .ended =>
    if l = .blank then some m else if l = .newline then some { m with mode := .line } else none

/-- The statements, if the text may end here. -/
def result? (m : Machine) : Option (List Statement) :=
  match m.mode with
  | .line | .ended => some m.statements.reverse
  | _ => none

end Machine

/-- The statements of a text. -/
def statements? (cs : List Char) : Option (List Statement) := do
  let m ← (← lexemes? (← unifyNewlines? cs)).foldlM Machine.step? Machine.start
  m.result?

end Mustache.Toml
