/-!
Lines of a text. A line runs up to and with its newline; the last one may lack it. Nothing is
lost: the lines put together are the text.
-/

namespace Mustache.Text

/-- The lines of a text, each with its newline. -/
def splitLines : List Char → List (List Char)
  | [] => []
  | c :: cs =>
    if c = '\n' then [c] :: splitLines cs
    else match splitLines cs with
      | [] => [[c]]
      | l :: ls => (c :: l) :: ls

theorem flatten_splitLines (cs : List Char) : (splitLines cs).flatten = cs := by
  induction cs with
  | nil => rfl
  | cons c cs ih =>
    unfold splitLines
    split
    · simp [ih]
    · split
      · rename_i h
        rw [h] at ih
        simp at ih
        simp [ih]
      · rename_i h
        rw [h] at ih
        simpa using ih

/-- A line without its line end, a newline or a carriage return and a newline. -/
def chomp (line : List Char) : List Char :=
  match line.reverse with
  | '\n' :: '\r' :: r => r.reverse
  | '\n' :: r => r.reverse
  | _ => line

/-- The number of newlines. -/
def newlines (cs : List Char) : Nat := cs.count '\n'

/-- The characters after the last newline. -/
def lastLine (cs : List Char) : List Char := (cs.reverse.takeWhile (· != '\n')).reverse

/-- The spaces and tabs a text starts with. -/
def leadingBlanks (cs : List Char) : List Char := cs.takeWhile fun c => c == ' ' || c == '\t'

end Mustache.Text
