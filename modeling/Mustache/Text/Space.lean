/-!
White space and trimming. A character is white when it has the Unicode property White_Space;
names in tags, delimiter pairs and standalone lines are all read with this one class.
-/

namespace Mustache.Text

/-- The Unicode property White_Space. -/
def isSpace (c : Char) : Bool :=
  let n := c.toNat
  (9 ≤ n && n ≤ 13) || n == 32 || n == 0x85 || n == 0xA0 || n == 0x1680 ||
  (0x2000 ≤ n && n ≤ 0x200A) || n == 0x2028 || n == 0x2029 || n == 0x202F || n == 0x205F ||
  n == 0x3000

/-- Nothing but white space. -/
def isBlank (cs : List Char) : Bool := cs.all isSpace

def trimStart (cs : List Char) : List Char := cs.dropWhile isSpace

def trimEnd (cs : List Char) : List Char := (cs.reverse.dropWhile isSpace).reverse

def trim (cs : List Char) : List Char := trimEnd (trimStart cs)

/-- The maximal runs of characters that are not white. -/
def words (cs : List Char) : List (List Char) :=
  (cs.splitBy fun a b => isSpace a == isSpace b).filter fun w => !isBlank w

end Mustache.Text

namespace Mustache

/-- The text without the white space at both ends. -/
def trimmed (s : String) : String := String.ofList (Text.trim s.toList)

/-- The text without the white space at its end. -/
def trimmedEnd (s : String) : String := String.ofList (Text.trimEnd s.toList)

end Mustache
