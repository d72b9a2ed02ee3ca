import Mathlib.Data.List.Basic
import Mathlib.Data.List.TakeWhile
import Mustache.Text.Line

/-!
Lines of a text. What holds of all lines is shown line by line, with a case of its own for a last
one that does not end: `lines_induction`. A place between two characters lies on the line behind as
many others as there are newlines in front of it, and on that line behind the characters after the
last of them. Main statement: `exists_splitLines_append`.
-/

namespace Mustache.Text

variable {cs l : List Char}

/-- Characters of a kind in front of one of another kind, or of nothing. -/
theorem takeWhile_behind {p : Char → Bool} {cs rest : List Char} (hcs : ∀ c ∈ cs, p c)
    (hrest : ∀ c ∈ rest.head?, ¬ p c) :
    (cs ++ rest).takeWhile p = cs ∧ (cs ++ rest).dropWhile p = rest := by
  rw [List.takeWhile_append_of_pos hcs, List.dropWhile_append_of_pos hcs]
  cases rest with
  | nil => simp
  | cons c rest => simp [hrest c rfl]

/-! ### The last line -/

theorem lastLine_of_notMem (h : '\n' ∉ cs) : lastLine cs = cs := by
  have hall : cs.reverse.takeWhile (· != '\n') = cs.reverse := by
    refine List.takeWhile_eq_self_iff.mpr fun c hc => ?_
    rw [bne_iff_ne]
    rintro rfl
    exact h (List.mem_reverse.mp hc)
  rw [lastLine, hall, List.reverse_reverse]

theorem lastLine_newline (cs : List Char) : lastLine ('\n' :: cs) = lastLine cs := by
  unfold lastLine
  rw [List.reverse_cons, List.takeWhile_append]
  split
  · rename_i hall
    rw [List.takeWhile_cons_of_neg (by decide), List.append_nil,
      (List.takeWhile_prefix _).eq_of_length hall]
  · rfl

theorem lastLine_cons_of_mem (h : '\n' ∈ cs) (c : Char) : lastLine (c :: cs) = lastLine cs := by
  unfold lastLine
  rw [List.reverse_cons, List.takeWhile_append, if_neg]
  intro hall
  have hsame := (List.takeWhile_prefix (· != '\n')).eq_of_length hall
  have hnewline := List.takeWhile_eq_self_iff.mp hsame '\n' (List.mem_reverse.mpr h)
  exact absurd hnewline (by decide)

theorem newline_notMem_leadingBlanks (cs : List Char) : '\n' ∉ leadingBlanks cs := by
  intro hmem
  have hblank := List.mem_takeWhile_imp hmem
  cases hblank

/-! ### All lines -/

theorem splitLines_ne_nil (h : cs ≠ []) : splitLines cs ≠ [] := by
  intro hnil
  have hflatten := flatten_splitLines cs
  rw [hnil] at hflatten
  exact h hflatten.symm

/-- A line that ends, and has no other newline. -/
def IsEndedLine (line : List Char) : Prop := ∃ cs, '\n' ∉ cs ∧ line = cs ++ ['\n']

theorem splitLines_append_newline {cs : List Char} (h : '\n' ∉ cs) (rest : List Char) :
    splitLines (cs ++ '\n' :: rest) = (cs ++ ['\n']) :: splitLines rest := by
  induction cs with
  | nil => rw [List.nil_append, splitLines, if_pos rfl, List.nil_append]
  | cons c cs ih =>
    obtain ⟨hc, hcs⟩ := not_or.mp (mt List.mem_cons.mpr h)
    rw [List.cons_append, splitLines, if_neg (Ne.symm hc), ih hcs]
    rfl

theorem splitLines_append_of_isEndedLine {line : List Char} (h : IsEndedLine line)
    (rest : List Char) : splitLines (line ++ rest) = line :: splitLines rest := by
  obtain ⟨cs, hcs, rfl⟩ := h
  rw [List.append_assoc, List.singleton_append, splitLines_append_newline hcs]

theorem splitLines_of_notMem {line : List Char} (hne : line ≠ []) (h : '\n' ∉ line) :
    splitLines line = [line] := by
  induction line with
  | nil => exact absurd rfl hne
  | cons c cs ih =>
    obtain ⟨hc, hcs⟩ := not_or.mp (mt List.mem_cons.mpr h)
    rw [splitLines, if_neg (Ne.symm hc)]
    by_cases hnil : cs = []
    · rw [hnil, splitLines]
    · rw [ih hnil hcs]

/-- A text is empty, a line that does not end, or a line that ends and the text behind it. -/
@[elab_as_elim]
theorem lines_induction {motive : List Char → Prop} (nil : motive [])
    (unended : ∀ line, line ≠ [] → '\n' ∉ line → motive line)
    (ended : ∀ line rest, IsEndedLine line → motive rest → motive (line ++ rest))
    (text : List Char) : motive text := by
  by_cases hmem : '\n' ∈ text
  · obtain ⟨front, rest, htext, hfront⟩ := List.eq_append_cons_of_mem hmem
    have hshorter : rest.length < text.length := by simp [htext]; omega
    have hrest : motive rest := lines_induction nil unended ended rest
    have hline : IsEndedLine (front ++ ['\n']) := ⟨front, hfront, rfl⟩
    simpa [htext] using ended _ rest hline hrest
  · by_cases hne : text = []
    · exact hne ▸ nil
    · exact unended text hne hmem
termination_by text.length

theorem splitLines_flatten {lines : List (List Char)} (h : ∀ line ∈ lines, IsEndedLine line) :
    splitLines lines.flatten = lines := by
  induction lines with
  | nil => rfl
  | cons line lines ih =>
    obtain ⟨hline, hlines⟩ := List.forall_mem_cons.mp h
    rw [List.flatten_cons, splitLines_append_of_isEndedLine hline, ih hlines]

theorem ne_nil_of_mem_splitLines (h : l ∈ splitLines cs) : l ≠ [] := by
  induction cs using lines_induction with
  | nil => cases h
  | unended line hne hline =>
    rw [splitLines_of_notMem hne hline] at h
    exact List.mem_singleton.mp h ▸ hne
  | ended line rest hline ih =>
    rw [splitLines_append_of_isEndedLine hline] at h
    rcases List.mem_cons.mp h with rfl | h
    · obtain ⟨front, -, rfl⟩ := hline
      simp
    · exact ih h

/-- A line has a newline at most at its end. -/
theorem newline_notMem_dropLast_of_mem_splitLines (h : l ∈ splitLines cs) : '\n' ∉ l.dropLast := by
  induction cs using lines_induction with
  | nil => cases h
  | unended line hne hline =>
    rw [splitLines_of_notMem hne hline] at h
    rw [List.mem_singleton.mp h]
    exact fun hmem => hline (List.dropLast_subset _ hmem)
  | ended line rest hline ih =>
    rw [splitLines_append_of_isEndedLine hline] at h
    rcases List.mem_cons.mp h with rfl | h
    · obtain ⟨front, hfront, rfl⟩ := hline
      rwa [List.dropLast_concat]
    · exact ih h

/-- A line that another one follows ends. -/
theorem isEndedLine_of_splitLines {lines : List (List Char)} (hlines : lines ≠ [])
    (h : splitLines cs = l :: lines) : IsEndedLine l := by
  cases cs using lines_induction with
  | nil => cases h
  | unended line hne hline =>
    rw [splitLines_of_notMem hne hline] at h
    exact absurd (List.cons.inj h).2.symm hlines
  | ended line rest hline _ =>
    rw [splitLines_append_of_isEndedLine hline] at h
    exact (List.cons.inj h).1 ▸ hline

theorem getLast?_flatten {lines : List (List Char)} (hne : lines ≠ [])
    (h : ∀ line ∈ lines, IsEndedLine line) : lines.flatten.getLast? = some '\n' := by
  induction lines with
  | nil => exact absurd rfl hne
  | cons line lines ih =>
    obtain ⟨⟨cs, -, rfl⟩, hlines⟩ := List.forall_mem_cons.mp h
    rw [List.flatten_cons]
    cases lines with
    | nil => simp
    | cons l ls =>
      have hrest := ih (List.cons_ne_nil l ls) hlines
      rw [List.getLast?_append, hrest]
      rfl

/-- The lines of a text that ends its last line all end. -/
theorem isEndedLine_of_mem_splitLines {text line : List Char} (h : text.getLast? = some '\n')
    (hline : line ∈ splitLines text) : IsEndedLine line := by
  induction text using lines_induction with
  | nil => cases h
  | unended front hne hfront => exact absurd (List.mem_of_getLast? h) hfront
  | ended front rest hfront ih =>
    rw [splitLines_append_of_isEndedLine hfront] at hline
    rcases List.mem_cons.mp hline with rfl | hline
    · exact hfront
    · have hrest : rest ≠ [] := by
        rintro rfl
        cases hline
      rw [List.getLast?_append_of_ne_nil _ hrest] at h
      exact ih h hline

/-- **A place between two characters lies on the line that its count of newlines tells, behind
what comes after the last of them.** -/
theorem exists_splitLines_append (before : List Char) {rest : List Char} (h : rest ≠ []) :
    ∃ above line below, splitLines (before ++ rest) = above ++ (lastLine before ++ line) :: below ∧
      above.length = newlines before ∧ splitLines rest = line :: below := by
  induction before with
  | nil =>
    obtain ⟨line, below, hlines⟩ := List.exists_cons_of_ne_nil (splitLines_ne_nil h)
    exact ⟨[], line, below, hlines, rfl, hlines⟩
  | cons c cs ih =>
    obtain ⟨above, line, below, hlines, hlength, hrest⟩ := ih
    rw [List.cons_append, splitLines]
    by_cases hc : c = '\n'
    · subst hc
      refine ⟨['\n'] :: above, line, below, ?_, ?_, hrest⟩
      · rw [if_pos rfl, hlines, lastLine_newline]
        rfl
      · rw [List.length_cons, hlength, newlines, newlines, List.count_cons_self]
    · rw [if_neg hc, hlines]
      have hnewlines : newlines (c :: cs) = newlines cs := List.count_cons_of_ne hc
      cases above with
      | nil =>
        have hnone : '\n' ∉ cs := List.count_eq_zero.mp hlength.symm
        refine ⟨[], line, below, ?_, hnewlines.symm ▸ hlength, hrest⟩
        rw [lastLine_of_notMem hnone, lastLine_of_notMem (by simp [hnone, Ne.symm hc])]
        rfl
      | cons a above =>
        have hsome : '\n' ∈ cs := List.count_pos_iff.mp (by
          change 0 < newlines cs
          rw [← hlength]
          exact Nat.succ_pos _)
        refine ⟨(c :: a) :: above, line, below, ?_, hnewlines.symm ▸ hlength, hrest⟩
        rw [lastLine_cons_of_mem hsome]
        rfl

/-! ### Line ends -/

/-- A line end is a newline, perhaps with a carriage return in front, and a line without one has
no newline at its end. -/
theorem chomp_cases (l : List Char) : l = chomp l ++ ['\r', '\n'] ∨ l = chomp l ++ ['\n'] ∨
    l = chomp l ∧ l.getLast? ≠ some '\n' := by
  unfold chomp
  split
  · rename_i r hreverse
    left
    rw [← List.reverse_reverse l, hreverse]
    simp
  · rename_i r _ hreverse
    right
    left
    rw [← List.reverse_reverse l, hreverse]
    simp
  · rename_i hcr hnl
    right
    right
    refine ⟨rfl, fun hlast => ?_⟩
    rw [List.getLast?_eq_head?_reverse] at hlast
    obtain ⟨r, hr⟩ := List.head?_eq_some_iff.mp hlast
    exact hnl r hr

theorem newline_notMem_chomp (h : '\n' ∉ l.dropLast) : '\n' ∉ chomp l := by
  rcases chomp_cases l with hl | hl | ⟨hl, hlast⟩
  · rw [hl, List.dropLast_append_of_ne_nil (by simp)] at h
    exact fun hmem => h (List.mem_append_left _ hmem)
  · rwa [hl, List.dropLast_concat] at h
  · rw [← hl]
    intro hmem
    rcases List.mem_append.mp
      ((List.dropLast_concat_getLast (List.ne_nil_of_mem hmem)).symm ▸ hmem) with hfront | hc
    · exact h hfront
    · rw [List.getLast?_eq_some_getLast (List.ne_nil_of_mem hmem)] at hlast
      exact hlast (congrArg some (List.mem_singleton.mp hc).symm)

/-- What stands in front of a character other than a newline is no part of the line end. -/
theorem isPrefix_chomp (front : List Char) {c : Char} (hc : c ≠ '\n') (line : List Char) :
    front <+: chomp (front ++ c :: line) := by
  have hfront : front <+: front ++ c :: line := List.prefix_append front (c :: line)
  have hchomp : chomp (front ++ c :: line) <+: front ++ c :: line := by
    rcases chomp_cases (front ++ c :: line) with hl | hl | ⟨hl, -⟩
    · exact ⟨_, hl.symm⟩
    · exact ⟨_, hl.symm⟩
    · exact hl ▸ List.prefix_rfl
  refine List.prefix_of_prefix_length_le hfront hchomp ?_
  have hlength : (front ++ c :: line).length = front.length + (line.length + 1) :=
    List.length_append
  rcases chomp_cases (front ++ c :: line) with hl | hl | ⟨hl, -⟩
  · have hline : line ≠ [] := by
      rintro rfl
      have hlast := congrArg List.getLast? hl
      simp [hc] at hlast
    have := List.length_pos_iff.mpr hline
    have hchomped : (front ++ c :: line).length = (chomp (front ++ c :: line)).length + 2 :=
      (congrArg List.length hl).trans List.length_append
    omega
  · have hchomped : (front ++ c :: line).length = (chomp (front ++ c :: line)).length + 1 :=
      (congrArg List.length hl).trans List.length_append
    omega
  · rw [← hl]
    omega

end Mustache.Text
