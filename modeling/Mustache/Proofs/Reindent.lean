import Mustache.Proofs.Text.Line
import Mustache.Reindent

/-!
Moving text to another indent. A text is moved line by line, and a line that is not empty gains the
new indent for the old one. A text that has only gained an indent has the lines it had, and losing
that indent gives it back. Main statement: `move_undone`.
-/

namespace Mustache.Reindent

open Text

variable {strip indent line text : List Char}

/-! ### One line -/

theorem isEmptyLine_iff : isEmptyLine line = true ↔ ∀ c ∈ line, c = '\r' ∨ c = '\n' := by
  simp [isEmptyLine]

/-- A line that is moved by what it begins with goes on as it did. -/
theorem moveLine_of_isPrefix (h : strip <+: line) :
    moveLine strip indent line = if isEmptyLine (line.drop strip.length) then line.drop strip.length
      else indent ++ line.drop strip.length := by
  unfold moveLine stripStart
  rw [if_pos (List.isPrefixOf_iff_prefix.mpr h)]

theorem moveLine_of_not_isPrefix (h : ¬ strip <+: line) :
    moveLine strip indent line = if isEmptyLine line then line else indent ++ line := by
  unfold moveLine stripStart
  rw [if_neg (mt List.isPrefixOf_iff_prefix.mp h)]

theorem moveLine_nil : moveLine [] indent line = if isEmptyLine line then line else indent ++ line :=
  moveLine_of_isPrefix List.nil_prefix

theorem eq_nil_of_isEmptyLine_append (hstrip : ∀ c ∈ strip, isEmptyLine [c] = false)
    {rest : List Char} (h : isEmptyLine (strip ++ rest) = true) : strip = [] := by
  cases strip with
  | nil => rfl
  | cons c cs =>
    have hc := hstrip c List.mem_cons_self
    unfold isEmptyLine at h hc
    rw [List.cons_append, List.all_cons, Bool.and_eq_true] at h
    rw [List.all_cons, List.all_nil, Bool.and_true] at hc
    rw [hc] at h
    exact absurd h.1 Bool.false_ne_true

/-- A line is left alone if it is empty, if its own indent is the one it is moved to, or if it lacks
the indent to lose and has none to gain. -/
theorem moveLine_eq_self_iff (hstrip : ∀ c ∈ strip, isEmptyLine [c] = false) :
    moveLine strip indent line = line ↔ isEmptyLine line = true ∨
      (strip = indent ∧ indent <+: line ∧ isEmptyLine (line.drop indent.length) = false) ∨
      (indent = [] ∧ ¬ strip <+: line) := by
  by_cases hfront : strip <+: line
  · rw [moveLine_of_isPrefix hfront]
    obtain ⟨rest, rfl⟩ := hfront
    have hnil : isEmptyLine (strip ++ rest) = true → strip = [] :=
      eq_nil_of_isEmptyLine_append hstrip
    rw [List.drop_left]
    cases hrest : isEmptyLine rest with
    | true =>
      rw [if_pos rfl]
      constructor
      · intro h
        obtain rfl := List.self_eq_append_left.mp h
        exact .inl hrest
      · rintro (hempty | ⟨rfl, -, hother⟩ | ⟨-, hother⟩)
        · rw [hnil hempty, List.nil_append]
        · rw [List.drop_left, hrest] at hother
          cases hother
        · exact absurd (List.prefix_append strip rest) hother
    | false =>
      rw [if_neg Bool.false_ne_true, List.append_left_inj]
      constructor
      · rintro rfl
        exact .inr (.inl ⟨rfl, List.prefix_append indent rest, by rw [List.drop_left, hrest]⟩)
      · rintro (hempty | ⟨rfl, -, -⟩ | ⟨-, hother⟩)
        · rw [hnil hempty, List.nil_append, hrest] at hempty
          cases hempty
        · rfl
        · exact absurd (List.prefix_append strip rest) hother
  · rw [moveLine_of_not_isPrefix hfront]
    cases hline : isEmptyLine line with
    | true => exact ⟨fun _ => .inl rfl, fun _ => rfl⟩
    | false =>
      rw [if_neg Bool.false_ne_true, List.append_left_eq_self]
      constructor
      · exact fun h => .inr (.inr ⟨h, hfront⟩)
      · rintro (hempty | ⟨rfl, hother, -⟩ | ⟨h, -⟩)
        · cases hempty
        · exact absurd hother hfront
        · exact h

/-- A line of which nothing is left was what it begins with. -/
theorem eq_of_moveLine_eq_nil (hline : line ≠ []) (h : moveLine strip indent line = []) :
    line = strip := by
  by_cases hfront : strip <+: line
  · rw [moveLine_of_isPrefix hfront] at h
    obtain ⟨rest, rfl⟩ := hfront
    rw [List.drop_left] at h
    have hrest : rest = [] := by
      split at h
      · exact h
      · exact (List.append_eq_nil_iff.mp h).2
    rw [hrest, List.append_nil]
  · rw [moveLine_of_not_isPrefix hfront] at h
    split at h
    · exact absurd h hline
    · exact absurd (List.append_eq_nil_iff.mp h).2 hline

theorem mem_of_mem_moveLine {c : Char} (h : c ∈ moveLine strip indent line) :
    c ∈ indent ∨ c ∈ line := by
  have hstrip : ∀ c ∈ stripStart strip line, c ∈ line := by
    intro c hc
    unfold stripStart at hc
    split at hc
    · exact List.mem_of_mem_drop hc
    · exact hc
  unfold moveLine at h
  dsimp only at h
  split at h
  · exact Or.inr (hstrip c h)
  · exact (List.mem_append.mp h).imp_right (hstrip c)

theorem isEndedLine_moveLine (hstrip : '\n' ∉ strip) (hindent : '\n' ∉ indent)
    (h : IsEndedLine line) : IsEndedLine (moveLine strip indent line) := by
  have hplaced : ∀ {bare : List Char}, IsEndedLine bare →
      IsEndedLine (if isEmptyLine bare then bare else indent ++ bare) := by
    rintro _ ⟨cs, hcs, rfl⟩
    split
    · exact ⟨cs, hcs, rfl⟩
    · exact ⟨indent ++ cs, by simp [hindent, hcs], (List.append_assoc _ _ _).symm⟩
  by_cases hfront : strip <+: line
  · rw [moveLine_of_isPrefix hfront]
    obtain ⟨cs, hcs, rfl⟩ := h
    refine hplaced ?_
    rcases List.prefix_concat_iff.mp hfront with rfl | hfront
    · exact absurd (List.mem_append_right cs (List.mem_singleton_self '\n')) hstrip
    · obtain ⟨rest, rfl⟩ := hfront
      rw [List.append_assoc, List.drop_left]
      exact ⟨rest, fun hmem => hcs (List.mem_append_right strip hmem), rfl⟩
  · rw [moveLine_of_not_isPrefix hfront]
    exact hplaced h

/-- A line that gains an indent and loses it again. -/
theorem moveLine_moveLine (hindent : ∀ c ∈ indent, isEmptyLine [c] = false) (line : List Char) :
    moveLine indent [] (moveLine [] indent line) = line := by
  rw [moveLine_nil]
  cases hempty : isEmptyLine line with
  | true => exact (moveLine_eq_self_iff hindent).mpr (.inl hempty)
  | false =>
    rw [if_neg Bool.false_ne_true, moveLine_of_isPrefix (List.prefix_append indent line),
      List.drop_left, List.nil_append, ite_self]

/-! ### All lines -/

theorem move_eq_flatMap : move strip indent true text =
    (splitLines text).flatMap (moveLine strip indent) := by
  unfold move
  cases splitLines text <;> rfl

/-- Moving a text adds no characters but those of the indent. -/
theorem mem_of_mem_move {first : Bool} {c : Char} (h : c ∈ move strip indent first text) :
    c ∈ indent ∨ c ∈ text := by
  have hline : ∀ l ∈ splitLines text, ∀ c ∈ l, c ∈ text := by
    intro l hl c hc
    rw [← flatten_splitLines text]
    exact List.mem_flatten_of_mem hl hc
  unfold move at h
  split at h
  · cases h
  · rename_i l ls hsplit
    rw [hsplit] at hline
    rcases List.mem_append.mp h with hfirst | hrest
    · rcases mem_of_mem_moveLine hfirst with hindent | hl
      · split at hindent
        · exact Or.inl hindent
        · cases hindent
      · exact Or.inr (hline l List.mem_cons_self c hl)
    · obtain ⟨l', hl', hc⟩ := List.mem_flatMap.mp hrest
      exact (mem_of_mem_moveLine hc).imp_right (hline l' (List.mem_cons_of_mem l hl') c)

theorem move_append_of_isEndedLine (hline : IsEndedLine line) (rest : List Char) :
    move strip indent true (line ++ rest) =
      moveLine strip indent line ++ move strip indent true rest := by
  rw [move_eq_flatMap, move_eq_flatMap, splitLines_append_of_isEndedLine hline, List.flatMap_cons]

/-- The lines of a text that gained an indent are the lines that gained it. -/
theorem splitLines_move (hindent : '\n' ∉ indent) (text : List Char) :
    splitLines (move [] indent true text) = (splitLines text).map (moveLine [] indent) := by
  induction text using lines_induction with
  | nil => rfl
  | unended line hne hline =>
    -- an empty text has no lines, so the moved line must not come to nothing
    have hmoved : moveLine [] indent line ≠ [] ∧ '\n' ∉ moveLine [] indent line := by
      rw [moveLine_nil]
      split
      · exact ⟨hne, hline⟩
      · simp [hne, hline, hindent]
    rw [move_eq_flatMap, splitLines_of_notMem hne hline, List.flatMap_singleton,
      splitLines_of_notMem hmoved.1 hmoved.2, List.map_singleton]
  | ended line rest hline ih =>
    have hmoved : IsEndedLine (moveLine [] indent line) :=
      isEndedLine_moveLine List.not_mem_nil hindent hline
    rw [move_append_of_isEndedLine hline, splitLines_append_of_isEndedLine hmoved, ih,
      splitLines_append_of_isEndedLine hline, List.map_cons]

/-- **A text that gains an indent can lose it again.** It has as many lines as before, those that
are empty are unchanged, the others have the indent in front, and without it they are the text. -/
theorem move_undone (hindent : ∀ c ∈ indent, c = ' ' ∨ c = '\t') (text : List Char) :
    let moved := move [] indent true text
    (splitLines moved).length = (splitLines text).length ∧
      (∀ (i : Nat) line, (splitLines text)[i]? = some line →
        ((∀ c ∈ line, c = '\r' ∨ c = '\n') → (splitLines moved)[i]? = some line) ∧
        (¬ (∀ c ∈ line, c = '\r' ∨ c = '\n') → (splitLines moved)[i]? = some (indent ++ line))) ∧
      move indent [] true moved = text := by
  intro moved
  have hblank : ∀ c ∈ indent, isEmptyLine [c] = false := by
    intro c hc
    rcases hindent c hc with rfl | rfl <;> rfl
  have hnewline : '\n' ∉ indent := by
    intro hmem
    rcases hindent _ hmem with h | h <;> cases h
  have hlines : splitLines moved = (splitLines text).map (moveLine [] indent) :=
    splitLines_move hnewline text
  refine ⟨by rw [hlines, List.length_map], fun i line hline => ?_, ?_⟩
  · have hmoved : (splitLines moved)[i]? =
        some (if isEmptyLine line then line else indent ++ line) := by
      rw [hlines, List.getElem?_map, hline, Option.map_some, moveLine_nil]
    rw [← isEmptyLine_iff, hmoved]
    exact ⟨fun hempty => by rw [if_pos hempty], fun hother => by rw [if_neg hother]⟩
  · rw [move_eq_flatMap, hlines, List.flatMap_map, List.flatMap_def,
      (List.map_congr_left fun line _ => moveLine_moveLine hblank line).trans (List.map_id' _),
      flatten_splitLines]

/-- A text with an empty line, one that begins with the indent already, and carriage returns. -/
theorem move_undone_inset :
    let moved := move [] "  ".toList true "a\r\n\r\n  b".toList
    (splitLines moved)[1]? = some "\r\n".toList ∧ (splitLines moved)[2]? = some "    b".toList ∧
      move "  ".toList [] true moved = "a\r\n\r\n  b".toList := by
  have hindent : ∀ c ∈ "  ".toList, c = ' ' ∨ c = '\t' := by simp
  obtain ⟨-, hlines, hback⟩ := move_undone hindent "a\r\n\r\n  b".toList
  exact ⟨(hlines 1 "\r\n".toList (by decide)).1 (by simp),
    (hlines 2 "  b".toList (by decide)).2 (by simp), hback⟩

end Mustache.Reindent
