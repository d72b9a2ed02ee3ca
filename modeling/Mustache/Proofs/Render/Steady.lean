import Mustache.Proofs.Reindent
import Mustache.Proofs.Render.Onto

/-!
Text that stays as it is where a standalone block puts it. An override loses the indent of its first
line, and what is left of each line gains the indent of the block. Main statement:
`placeOverride_eq_append_iff`.
-/

namespace Mustache

namespace Reindent

open Text

/-- The line is empty, or goes on behind this indent. -/
def KeepsIndent (indent line : List Char) : Prop :=
  isEmptyLine line = true ∨ indent <+: line ∧ isEmptyLine (line.drop indent.length) = false

/-- This indent is that of the text and of each of its lines that is not empty, if there are any. -/
def Steady (indent text : List Char) : Prop :=
  (∀ line ∈ splitLines text, isEmptyLine line = true) ∨
    leadingBlanks text = indent ∧ ∀ line ∈ splitLines text, KeepsIndent indent line

instance (indent line : List Char) : Decidable (KeepsIndent indent line) :=
  inferInstanceAs (Decidable (_ ∨ _))

instance (indent text : List Char) : Decidable (Steady indent text) :=
  inferInstanceAs (Decidable (_ ∨ _))

variable {indent line text : List Char}

theorem leadingBlanks_not_isEmptyLine (text : List Char) :
    ∀ c ∈ leadingBlanks text, isEmptyLine [c] = false := by
  intro c hc
  have hblank := List.mem_takeWhile_imp hc
  rcases Bool.or_eq_true_iff.mp hblank with h | h
  · rw [beq_iff_eq.mp h]
    rfl
  · rw [beq_iff_eq.mp h]
    rfl

/-- The blanks at the beginning of a text are in its first line. -/
theorem leadingBlanks_isPrefix_of_splitLines {lines : List (List Char)}
    (hline : IsEndedLine line) (h : splitLines text = line :: lines) :
    leadingBlanks text <+: line := by
  have hflatten := flatten_splitLines text
  rw [h, List.flatten_cons] at hflatten
  refine (List.prefix_or_prefix_of_prefix (List.takeWhile_prefix _)
    ⟨lines.flatten, hflatten⟩).resolve_right fun hwithin => ?_
  obtain ⟨cs, -, rfl⟩ := hline
  exact newline_notMem_leadingBlanks text
    (hwithin.subset (List.mem_append_right cs (List.mem_singleton_self '\n')))

theorem isEndedLine_of_mem_moved (hindent : '\n' ∉ indent)
    (hlines : ∀ line ∈ splitLines text, IsEndedLine line) :
    ∀ line ∈ (splitLines text).map (moveLine (leadingBlanks text) indent), IsEndedLine line := by
  intro _ hmem
  obtain ⟨line, hline, rfl⟩ := List.mem_map.mp hmem
  exact isEndedLine_moveLine (newline_notMem_leadingBlanks text) hindent (hlines line hline)

/-- Moving a text does not take the newline at its end. -/
theorem getLast?_move (hindent : '\n' ∉ indent) (hends : text.getLast? = some '\n') :
    (move (leadingBlanks text) indent true text).getLast? = some '\n' := by
  rw [move_eq_flatMap, List.flatMap_def]
  refine getLast?_flatten (fun hnil => ?_) (isEndedLine_of_mem_moved hindent fun line =>
    isEndedLine_of_mem_splitLines hends)
  have hflatten := flatten_splitLines text
  rw [List.map_eq_nil_iff.mp hnil] at hflatten
  rw [← hflatten] at hends
  cases hends

theorem move_of_steady (h : Steady indent text) :
    move (leadingBlanks text) indent true text = text := by
  have hlinewise : ∀ line ∈ splitLines text,
      moveLine (leadingBlanks text) indent line = line := by
    intro line hline
    refine (moveLine_eq_self_iff (leadingBlanks_not_isEmptyLine text)).mpr ?_
    rcases h with hempty | ⟨hown, hkeeps⟩
    · exact .inl (hempty line hline)
    · exact (hkeeps line hline).imp_right fun h => .inl ⟨hown, h⟩
  rw [move_eq_flatMap, List.flatMap_def, (List.map_congr_left hlinewise).trans (List.map_id' _),
    flatten_splitLines]

/-- **A text is left alone exactly if it is steady**, when its lines all end and it is moved from its
own indent to another one. -/
theorem move_eq_self_iff (hindent : '\n' ∉ indent)
    (hends : text = [] ∨ text.getLast? = some '\n') :
    move (leadingBlanks text) indent true text = text ↔ Steady indent text := by
  refine ⟨fun h => ?_, move_of_steady⟩
  have hlines : ∀ line ∈ splitLines text, IsEndedLine line := by
    intro line hline
    rcases hends with rfl | hends
    · cases hline
    · exact isEndedLine_of_mem_splitLines hends hline
  -- the lines of the moved text are the moved lines
  have hself : ∀ line ∈ splitLines text, isEmptyLine line = true ∨
      (leadingBlanks text = indent ∧ indent <+: line ∧
        isEmptyLine (line.drop indent.length) = false) ∨
      (indent = [] ∧ ¬ leadingBlanks text <+: line) := by
    rw [move_eq_flatMap, List.flatMap_def] at h
    have hsplit := splitLines_flatten (isEndedLine_of_mem_moved hindent hlines)
    rw [h] at hsplit
    intro line hline
    exact (moveLine_eq_self_iff (leadingBlanks_not_isEmptyLine text)).mp
      (List.map_inj_left.mp (hsplit.symm.trans (List.map_id _).symm) line hline)
  by_cases hempty : ∀ line ∈ splitLines text, isEmptyLine line = true
  · exact .inl hempty
  · obtain ⟨line, hline, hother⟩ := not_forall₂.mp hempty
    obtain ⟨first, rest, hfirst⟩ := List.exists_cons_of_ne_nil (List.ne_nil_of_mem hline)
    have hmem : first ∈ splitLines text := hfirst ▸ List.mem_cons_self
    have hfront := leadingBlanks_isPrefix_of_splitLines (hlines first hmem) hfirst
    have hown : leadingBlanks text = indent ∨ leadingBlanks text = [] := by
      rcases hself first hmem with hnone | ⟨hown, -⟩ | ⟨-, hlacks⟩
      · obtain ⟨more, hmore⟩ := hfront
        rw [← hmore] at hnone
        exact .inr (eq_nil_of_isEmptyLine_append (leadingBlanks_not_isEmptyLine text) hnone)
      · exact .inl hown
      · exact absurd hfront hlacks
    have hkeeps : ∀ l ∈ splitLines text, isEmptyLine l = true ∨ leadingBlanks text = indent ∧
        indent <+: l ∧ isEmptyLine (l.drop indent.length) = false := by
      intro l hl
      refine (hself l hl).imp_right fun hmoved => hmoved.resolve_right ?_
      rintro ⟨hnil, hlacks⟩
      rw [hnil, or_self] at hown
      rw [hown] at hlacks
      exact hlacks List.nil_prefix
    exact .inr ⟨((hkeeps line hline).resolve_left hother).1,
      fun l hl => (hkeeps l hl).imp_right And.right⟩

end Reindent

namespace Render

theorem placeOverride_eq (site body out : String) :
    let moved := String.ofList
      (Reindent.move (Text.leadingBlanks body.toList) site.toList true body.toList)
    placeOverride (some site) true "" body out =
      if body.toList.isEmpty ∨ Template.endsInNewline (out ++ moved) then out ++ moved
      else out ++ moved ++ "\n" := by
  unfold placeOverride
  simp only [String.empty_append, if_true]

theorem placeOverride_of_steady {site body : String}
    (hended : body = "" ∨ Template.endsInNewline body = true)
    (hsteady : Reindent.Steady site.toList body.toList) (out : String) :
    placeOverride (some site) true "" body out = out ++ body := by
  rw [placeOverride_eq, Reindent.move_of_steady hsteady, String.ofList_toList]
  refine if_pos ?_
  by_cases hbody : body = ""
  · exact .inl (List.isEmpty_iff.mpr (String.toList_eq_nil_iff.mpr hbody))
  · exact .inr ((endsInNewline_append_of_ne hbody out).trans (hended.resolve_left hbody))

/-- **An override comes out as it is exactly if its text is steady**, where a standalone block puts
it. -/
theorem placeOverride_eq_append_iff {site body : String} (hsite : '\n' ∉ site.toList)
    (out : String) :
    placeOverride (some site) true "" body out = out ++ body ↔
      (body = "" ∨ Template.endsInNewline body = true) ∧
        Reindent.Steady site.toList body.toList := by
  refine ⟨fun h => ?_, fun h => placeOverride_of_steady h.1 h.2 out⟩
  rw [placeOverride_eq] at h
  by_cases hbody : body = ""
  · subst hbody
    exact ⟨.inl rfl, .inl fun _ hline => nomatch hline⟩
  split at h
  · rename_i hended
    rw [h, endsInNewline_append_of_ne hbody] at hended
    have hended := hended.resolve_left fun hnil =>
      hbody (String.toList_eq_nil_iff.mp (List.isEmpty_iff.mp hnil))
    have hsame := congrArg String.toList ((String.append_right_inj out).mp h)
    rw [String.toList_ofList] at hsame
    exact ⟨.inr hended,
      (Reindent.move_eq_self_iff hsite (.inr (beq_iff_eq.mp hended))).mp hsame⟩
  · rename_i hopen
    -- what is moved keeps the newline at its end, so none is added
    rw [String.append_assoc, String.append_right_inj] at h
    have hlast : body.toList.getLast? = some '\n' := by
      rw [← h, String.toList_append]
      exact List.getLast?_concat
    have hkept := Reindent.getLast?_move hsite hlast
    generalize Reindent.move (Text.leadingBlanks body.toList) site.toList true body.toList =
      moved at hopen hkept
    have hnonempty : String.ofList moved ≠ "" := by
      intro hnil
      obtain rfl : moved = [] := String.ofList_inj.mp hnil
      cases hkept
    refine absurd (Or.inr ?_) hopen
    rw [endsInNewline_append_of_ne hnonempty]
    exact beq_iff_eq.mpr (by rwa [String.toList_ofList])

end Render

end Mustache
