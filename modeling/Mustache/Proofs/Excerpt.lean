import Mathlib.Data.List.GetD
import Mathlib.Data.List.Range
import Mustache.Excerpt
import Mustache.Proofs.Text.Line
import Mustache.Proofs.Text.Slice

/-!
What the text of an excerpt shows: some lines of the source, one after the other and each with its
number, and a caret right below one of them. The caret stands below the column it points at as long
as the line number has its four columns. Main statement: `pointsAt_around`.
-/

namespace Mustache.Excerpt

/-! ### Lines of a message -/

/-- Line `n` of a source as a message shows it. -/
def shown (source : String) (n : Nat) : String :=
  gutter n ++ " | " ++ (sourceLines source).getD (n - 1) "" ++ "\n"

/-- So many lines of a source from line `first` on, as a message shows them. -/
def shownFrom (source : String) (first count : Nat) : List String :=
  (List.range' first count).map (shown source)

/-- The column of a message's line that a column of line `n` of the source is shown in. -/
def shownColumn (n column : Nat) : Nat := (gutter n ++ " | ").length + column

/-- The column that the caret stands in. -/
def caretColumn (column : Nat) : Nat := ((caret column).toList.takeWhile (· != '^')).length + 1

/-- The text shows lines of the source, among them line `line` and at most two on either side of
it, and right below it a caret for `column`, which is a column of that line or the one behind. -/
structure PointsAt (source : String) (line column : Nat) (text : String) : Prop where
  line_pos : 1 ≤ line
  line_le : line ≤ (sourceLines source).length
  column_pos : 1 ≤ column
  column_le : column ≤ ((sourceLines source).getD (line - 1) "").length + 1
  lines : ∃ above below, above ≤ 2 ∧ below ≤ 2 ∧ above < line ∧
    line + below ≤ (sourceLines source).length ∧
    Text.splitLines text.toList = (shownFrom source (line - above) (above + 1) ++
      caret column :: shownFrom source (line + 1) below).map String.toList

/-! ### The caret -/

theorem toList_gutter (n : Nat) : (gutter n).toList =
    List.replicate (4 - (Nat.toDigits 10 n).length) ' ' ++ Nat.toDigits 10 n := by
  unfold gutter
  rw [Nat.toString_eq_ofList_toDigits]
  simp only [String.toList_append, String.toList_ofList, ← String.length_toList]

theorem length_gutter (n : Nat) : (gutter n).length = max 4 (Nat.toDigits 10 n).length := by
  rw [← String.length_toList, toList_gutter, List.length_append, List.length_replicate]
  omega

theorem caretColumn_eq {column : Nat} (h : 1 ≤ column) : caretColumn column = 7 + column := by
  have htext : (caret column).toList =
      (' ' :: ' ' :: ' ' :: ' ' :: ' ' :: '|' :: ' ' :: List.replicate (column - 1) ' ') ++
        ['^', '\n'] := by
    simp [caret]
  have htake : (caret column).toList.takeWhile (· != '^') =
      ' ' :: ' ' :: ' ' :: ' ' :: ' ' :: '|' :: ' ' :: List.replicate (column - 1) ' ' := by
    rw [htext, List.takeWhile_append_of_pos]
    · simp
    · simp
  unfold caretColumn
  rw [htake]
  simp only [List.length_cons, List.length_replicate]
  omega

/-- The caret stands below its column if the number of the line has at most four digits. -/
theorem caretColumn_eq_shownColumn_iff {column : Nat} (h : 1 ≤ column) (n : Nat) :
    caretColumn column = shownColumn n column ↔ n < 10000 := by
  have hdigits := Nat.length_toDigits_le_iff (b := 10) (n := n) (k := 4) (by decide) (by decide)
  have hgutter := length_gutter n
  have hbar : (gutter n ++ " | ").length = (gutter n).length + 3 := by
    rw [String.length_append]
    rfl
  rw [caretColumn_eq h, shownColumn, hbar, hgutter]
  rw [show (10000 : Nat) = 10 ^ 4 from rfl, ← hdigits]
  omega

/-! ### The shown lines -/

theorem shownFrom_concat (source : String) (first count : Nat) :
    shownFrom source first (count + 1) =
      shownFrom source first count ++ [shown source (first + count)] := by
  simp [shownFrom, List.range'_concat]

theorem numbered_eq {source : String} (line column : Nat) {first count : Nat} (hfirst : 1 ≤ first)
    (hcount : first + count ≤ (sourceLines source).length + 1) :
    numbered line column first (((sourceLines source).drop (first - 1)).take count) =
      (List.range' first count).map fun n =>
        shown source n ++ if n = line then caret column else "" := by
  induction count generalizing first with
  | zero => rfl
  | succ count ih =>
    have hlt : first - 1 < (sourceLines source).length := by omega
    have hnext : first - 1 + 1 = first + 1 - 1 := by omega
    rw [List.drop_eq_getElem_cons hlt, List.take_succ_cons, numbered, hnext,
      ih (by omega) (by omega), List.range'_succ, List.map_cons, shown,
      List.getD_eq_getElem _ _ hlt]

theorem length_sourceLines (source : String) :
    (sourceLines source).length = (Text.splitLines source.toList).length := List.length_map _

theorem getD_sourceLines {source : String} {n : Nat}
    (h : n < (Text.splitLines source.toList).length) :
    (sourceLines source).getD n "" =
      String.ofList (Text.chomp (Text.splitLines source.toList)[n]) := by
  rw [List.getD_eq_getElem _ _ (by rwa [length_sourceLines])]
  simp [sourceLines]

theorem newline_notMem_sourceLine (source : String) (n : Nat) :
    '\n' ∉ ((sourceLines source).getD n "").toList := by
  by_cases h : n < (Text.splitLines source.toList).length
  · rw [getD_sourceLines h, String.toList_ofList]
    exact Text.newline_notMem_chomp
      (Text.newline_notMem_dropLast_of_mem_splitLines (List.getElem_mem h))
  · rw [List.getD_eq_default _ _ (by rw [length_sourceLines]; omega)]
    exact List.not_mem_nil

theorem newline_notMem_gutter (n : Nat) : '\n' ∉ (gutter n).toList := by
  rw [toList_gutter, List.mem_append, not_or]
  refine ⟨fun hmem => absurd (List.eq_of_mem_replicate hmem) (by decide), fun hmem => ?_⟩
  exact absurd (Nat.isDigit_of_mem_toDigits (by decide) (by decide) hmem) (by decide)

theorem isEndedLine_shown (source : String) (n : Nat) :
    Text.IsEndedLine (shown source n).toList := by
  refine ⟨(gutter n ++ " | " ++ (sourceLines source).getD (n - 1) "").toList, ?_, ?_⟩
  · simp only [String.toList_append, List.mem_append, not_or]
    exact ⟨⟨newline_notMem_gutter n, by decide⟩, newline_notMem_sourceLine source (n - 1)⟩
  · rw [shown, String.toList_append]
    rfl

theorem isEndedLine_caret (column : Nat) : Text.IsEndedLine (caret column).toList := by
  refine ⟨("     | " ++ String.ofList (List.replicate (column - 1) ' ') ++ "^").toList, ?_, ?_⟩
  · simp [List.mem_replicate]
  · simp [caret]

/-- **An excerpt around a line of the source points at it.** -/
theorem pointsAt_around {source : String} {line column : Nat} (hline : 1 ≤ line)
    (hle : line ≤ (sourceLines source).length) (hcolumn : 1 ≤ column)
    (hcolumn' : column ≤ ((sourceLines source).getD (line - 1) "").length + 1) :
    PointsAt source line column (around source line column).snippet := by
  refine ⟨hline, hle, hcolumn, hcolumn', min 2 (line - 1),
    min 2 ((sourceLines source).length - line), by omega, by omega, by omega, by omega, ?_⟩
  generalize habove : min 2 (line - 1) = above
  generalize hbelow : min 2 ((sourceLines source).length - line) = below
  have hfirst : max (line - 2) 1 = line - above := by omega
  have hlast : min (line + 2) (sourceLines source).length + 1 - (line - above) =
      above + 1 + below := by omega
  have hrange : List.range' (line - above) (above + 1 + below) =
      List.range' (line - above) above ++ [line] ++ List.range' (line + 1) below := by
    have hline' : line - above + 1 * above = line := by omega
    have hnext : line - above + 1 * (above + 1) = line + 1 := by omega
    rw [← List.range'_append, List.range'_concat, hline', hnext]
  have hsnippet : (around source line column).snippet =
      String.join ((List.range' (line - above) (above + 1 + below)).map fun n =>
        shown source n ++ if n = line then caret column else "") := by
    unfold snippet around
    simp only [hfirst, hlast]
    rw [if_neg (by omega), numbered_eq line column (by omega) (by omega)]
  have hother : ∀ {first count : Nat}, (∀ n ∈ List.range' first count, n ≠ line) →
      (List.range' first count).map
        (fun n => shown source n ++ if n = line then caret column else "") =
      shownFrom source first count := by
    intro first count hne
    refine List.map_congr_left fun n hn => ?_
    rw [if_neg (hne n hn), String.append_empty]
  have habove' : ∀ n ∈ List.range' (line - above) above, n ≠ line := by
    intro n hn
    rw [List.mem_range'_1] at hn
    omega
  have hbelow' : ∀ n ∈ List.range' (line + 1) below, n ≠ line := by
    intro n hn
    rw [List.mem_range'_1] at hn
    omega
  have htext : (around source line column).snippet.toList =
      ((shownFrom source (line - above) (above + 1) ++
        caret column :: shownFrom source (line + 1) below).map String.toList).flatten := by
    rw [hsnippet, hrange, List.map_append, List.map_append, hother habove', hother hbelow',
      String.toList_join, shownFrom_concat, Nat.sub_add_cancel (by omega), ← List.flatMap_def]
    simp
  rw [htext]
  refine Text.splitLines_flatten fun l hl => ?_
  obtain ⟨s, hs, rfl⟩ := List.mem_map.mp hl
  rcases List.mem_append.mp hs with hs | hs
  · obtain ⟨n, -, rfl⟩ := List.mem_map.mp hs
    exact isEndedLine_shown source n
  · rcases List.mem_cons.mp hs with rfl | hs
    · exact isEndedLine_caret column
    · obtain ⟨n, -, rfl⟩ := List.mem_map.mp hs
      exact isEndedLine_shown source n

/-! ### Places in a source -/

section

variable {source : String} {before rest : List Char} (hsource : source.toList = before ++ rest)
include hsource

theorem atOffset_eq : atOffset source (Text.byteLength before) =
    around source (Text.newlines before + 1) ((Text.lastLine before).length + 1) := by
  unfold atOffset textBefore
  rw [hsource, Text.splitAtByte?_byteLength]

/-- The source line that a place lies on. -/
theorem exists_sourceLine (hrest : rest ≠ []) :
    Text.newlines before + 1 ≤ (sourceLines source).length ∧
      ∃ line below, Text.splitLines rest = line :: below ∧
        (sourceLines source).getD (Text.newlines before) "" =
          String.ofList (Text.chomp (Text.lastLine before ++ line)) := by
  obtain ⟨above, line, below, hlines, hlength, hbelow⟩ := Text.exists_splitLines_append before hrest
  rw [← hsource] at hlines
  have hlt : Text.newlines before < (Text.splitLines source.toList).length := by
    rw [hlines, ← hlength, List.length_append, List.length_cons]
    omega
  refine ⟨by rwa [length_sourceLines], line, below, hbelow, ?_⟩
  rw [getD_sourceLines hlt, ← List.getD_eq_getElem _ [] hlt, hlines, ← hlength]
  simp

/-- An excerpt around the line of a place points at the start of this line. -/
theorem pointsAt_line (hrest : rest ≠ []) : PointsAt source (Text.newlines before + 1) 1
    (around source (Text.newlines before + 1) 1).snippet :=
  pointsAt_around (Nat.succ_pos _) (exists_sourceLine hsource hrest).1 (Nat.le_refl 1)
    (Nat.le_add_left 1 _)

end

/-- An excerpt at a place in front of a character other than a newline points at the place. -/
theorem pointsAt_place {source : String} {before rest : List Char} {c : Char} (hc : c ≠ '\n')
    (hsource : source.toList = before ++ c :: rest) :
    PointsAt source (Text.newlines before + 1) ((Text.lastLine before).length + 1)
      (atOffset source (Text.byteLength before)).snippet := by
  rw [atOffset_eq hsource]
  obtain ⟨hle, line, below, hline, htext⟩ := exists_sourceLine hsource (List.cons_ne_nil c rest)
  refine pointsAt_around (Nat.succ_pos _) hle (Nat.succ_pos _) ?_
  have hfirst : ∃ tail, line = c :: tail := by
    rw [Text.splitLines, if_neg hc] at hline
    split at hline
    · exact ⟨[], (List.cons.inj hline).1.symm⟩
    · exact ⟨_, (List.cons.inj hline).1.symm⟩
  obtain ⟨tail, rfl⟩ := hfirst
  have hfront := (Text.isPrefix_chomp (Text.lastLine before) hc tail).length_le
  rw [Nat.add_sub_cancel, htext, ← String.length_toList, String.toList_ofList]
  omega

end Mustache.Excerpt
