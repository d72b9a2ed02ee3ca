import Mustache.Json.Read

/-!
Strings. There are four kinds: in double quotes with escapes or in single quotes without, and
each of them on one line in single or on several lines in triple quotes. The readers here start
behind the opening quotes and give the content and what follows the closing ones.
-/

namespace Mustache.Toml

/-- A character that strings and comments take as it is. Of the control characters that is the
tab alone. -/
def isPlain (c : Char) : Bool := c == '\t' || (32 ≤ c.toNat && c.toNat != 127)

def isBlank (c : Char) : Bool := c == ' ' || c == '\t'

/-- The character of a number that is one. -/
def ofCode? (n : Nat) : Option Char :=
  if n.isValidChar then some (Char.ofNat n) else none

/-- The character that a letter after a backslash stands for. -/
def escaped? : Char → Option Char
  | '"' => some '"'
  | '\\' => some '\\'
  | 'b' => some (Char.ofNat 8)
  | 'f' => some (Char.ofNat 12)
  | 'n' => some '\n'
  | 'r' => some '\r'
  | 't' => some '\t'
  | _ => none

/-- The number of hexadecimal digits that a letter after a backslash asks for. -/
def codeDigits : Char → Nat
  | 'u' => 4
  | 'U' => 8
  | _ => 0

/-- The character of the escape whose letter is given, and what follows it. -/
def readEscape (letter : Char) (cs : List Char) : Option (Char × List Char) :=
  let n := codeDigits letter
  if n = 0 then (escaped? letter).map fun c => (c, cs)
  else if n ≤ cs.length then ((Json.hex? (cs.take n)).bind ofCode?).map fun c => (c, cs.drop n)
  else none

theorem length_le_of_readEscape {letter c : Char} {cs rest : List Char}
    (h : readEscape letter cs = some (c, rest)) : rest.length ≤ cs.length := by
  simp only [readEscape] at h
  split at h
  · simp only [Option.map_eq_some_iff, Prod.mk.injEq] at h
    grind
  · split at h
    · simp only [Option.map_eq_some_iff, Prod.mk.injEq] at h
      obtain ⟨_, _, _, rfl⟩ := h
      simp
    · simp at h

/-- What follows a backslash at the end of a line: the first character that is not white space.
`none` if something else stands between the backslash and the end of the line. -/
def joinedLine? (cs : List Char) : Option (List Char) :=
  match cs.dropWhile isBlank with
  | '\n' :: rest => some (rest.dropWhile fun c => isBlank c || c == '\n')
  | _ => none

theorem length_le_of_joinedLine? {cs rest : List Char} (h : joinedLine? cs = some rest) :
    rest.length ≤ cs.length := by
  unfold joinedLine? at h
  split at h
  · rename_i r hr
    have h1 := (List.dropWhile_sublist (l := cs) isBlank).length_le
    have h2 := (List.dropWhile_sublist (l := r) fun c => isBlank c || c == '\n').length_le
    rw [hr] at h1
    simp only [Option.some.injEq] at h
    subst h
    simp only [List.length_cons] at h1
    omega
  · simp at h

/-- The quotes of a text over several lines that stand right in front of its closing ones: up to
two of those that follow the first three. -/
def quotesAtEnd (quote : Char) (rest : List Char) : List Char :=
  (rest.take 2).takeWhile (· == quote)

/-- Reads a string with escapes on one line. -/
def readBasic (cs : List Char) : Option (List Char × List Char) :=
  match cs with
  | '"' :: rest => some ([], rest)
  | '\\' :: letter :: rest =>
    match _h : readEscape letter rest with
    | some (c, rest) => (readBasic rest).map fun (s, r) => (c :: s, r)
    | none => none
  | c :: rest =>
    if isPlain c && c != '\\' then (readBasic rest).map fun (s, r) => (c :: s, r) else none
  | [] => none
termination_by cs.length
decreasing_by
  · have := length_le_of_readEscape _h
    simp only [List.length_cons]
    omega
  · simp

theorem length_lt_of_readBasic {cs s rest : List Char} (h : readBasic cs = some (s, rest)) :
    rest.length < cs.length := by
  fun_induction readBasic cs generalizing s <;> simp at h <;>
    grind [→ length_le_of_readEscape]

/-- Reads a string with escapes over several lines. -/
def readBasicLines (cs : List Char) : Option (List Char × List Char) :=
  match cs with
  | '"' :: '"' :: '"' :: rest =>
    let more := quotesAtEnd '"' rest
    some (more, rest.drop more.length)
  | '\\' :: letter :: rest =>
    match _h : joinedLine? (letter :: rest), _h' : readEscape letter rest with
    | some rest, _ => readBasicLines rest
    | none, some (c, rest) => (readBasicLines rest).map fun (s, r) => (c :: s, r)
    | none, none => none
  | c :: rest =>
    if (isPlain c && c != '\\') || c == '\n' then
      (readBasicLines rest).map fun (s, r) => (c :: s, r)
    else none
  | [] => none
termination_by cs.length
decreasing_by
  · have := length_le_of_joinedLine? _h
    simp only [List.length_cons] at this ⊢
    omega
  · have := length_le_of_readEscape _h'
    simp only [List.length_cons]
    omega
  · simp

theorem length_lt_of_readBasicLines {cs s rest : List Char}
    (h : readBasicLines cs = some (s, rest)) : rest.length < cs.length := by
  fun_induction readBasicLines cs generalizing s <;> simp at h ⊢ <;>
    grind [→ length_le_of_readEscape, → length_le_of_joinedLine?]

/-- Reads a string without escapes on one line. -/
def readLiteral : List Char → Option (List Char × List Char)
  | [] => none
  | '\'' :: rest => some ([], rest)
  | c :: rest =>
    if isPlain c then (readLiteral rest).map fun (s, r) => (c :: s, r) else none

theorem length_lt_of_readLiteral {cs s rest : List Char} (h : readLiteral cs = some (s, rest)) :
    rest.length < cs.length := by
  fun_induction readLiteral cs generalizing s <;> simp at h <;> grind

/-- Reads a string without escapes over several lines. -/
def readLiteralLines : List Char → Option (List Char × List Char)
  | [] => none
  | '\'' :: '\'' :: '\'' :: rest =>
    let more := quotesAtEnd '\'' rest
    some (more, rest.drop more.length)
  | c :: rest =>
    if isPlain c || c == '\n' then (readLiteralLines rest).map fun (s, r) => (c :: s, r) else none

theorem length_lt_of_readLiteralLines {cs s rest : List Char}
    (h : readLiteralLines cs = some (s, rest)) : rest.length < cs.length := by
  fun_induction readLiteralLines cs generalizing s <;> simp at h <;> grind

/-- The newline right behind opening triple quotes does not count. -/
def dropNewline : List Char → List Char
  | '\n' :: rest => rest
  | cs => cs

theorem length_dropNewline_le (cs : List Char) : (dropNewline cs).length ≤ cs.length := by
  fun_cases dropNewline cs <;> simp

/-- A string as it was read: its content, and whether it stood in triple quotes. -/
structure Quoted where
  content : List Char
  overLines : Bool
  rest : List Char

/-- Reads the string of either quote, the text having come up to behind its first quote. -/
def readQuoted (quote : Char) (cs : List Char) : Option Quoted :=
  let basic := quote == '"'
  if cs.take 2 == [quote, quote] then
    let lines := dropNewline (cs.drop 2)
    (if basic then readBasicLines lines else readLiteralLines lines).map fun (s, r) => ⟨s, true, r⟩
  else (if basic then readBasic cs else readLiteral cs).map fun (s, r) => ⟨s, false, r⟩

theorem length_lt_of_readQuoted {quote : Char} {cs : List Char} {q : Quoted}
    (h : readQuoted quote cs = some q) : q.rest.length < cs.length := by
  have hd := length_dropNewline_le (cs.drop 2)
  simp only [List.length_drop] at hd
  simp only [readQuoted] at h
  split at h <;> split at h <;>
    simp only [Option.map_eq_some_iff, Prod.exists] at h <;> obtain ⟨s, r, hr, rfl⟩ := h
  · have := length_lt_of_readBasicLines hr
    dsimp only
    omega
  · have := length_lt_of_readLiteralLines hr
    dsimp only
    omega
  · exact length_lt_of_readBasic hr
  · exact length_lt_of_readLiteral hr

end Mustache.Toml
