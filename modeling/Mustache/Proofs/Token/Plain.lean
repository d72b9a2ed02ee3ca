import Mustache.Proofs.Token.Placed

/-!
Sources without tags. A source in which the opening delimiter stands nowhere is cut into texts
alone, and none of its lines gives up anything. If it is a single line, that is one text. Main
statement: `exists_scan_of_not_contains`.
-/

namespace Mustache

namespace Text

theorem contains_cons (pattern : List Char) (c : Char) (cs : List Char) :
    contains pattern (c :: cs) = (pattern.isPrefixOf (c :: cs) || contains pattern cs) := by
  unfold contains
  rw [cutAt?]
  split
  · rename_i h
    rw [h, Bool.true_or, Option.isSome_some]
  · rename_i h
    rw [Bool.eq_false_iff.mpr h, Bool.false_or, Option.isSome_map]

theorem not_contains_of_append {pattern cs more : List Char}
    (h : contains pattern (cs ++ more) = false) : contains pattern more = false := by
  induction cs with
  | nil => exact h
  | cons c cs ih =>
    rw [List.cons_append, contains_cons, Bool.or_eq_false_iff] at h
    exact ih h.2

end Text

namespace Token

theorem takeText_ne_nil {opening cs : List Char} (h : Text.contains opening cs = false)
    (hcs : cs ≠ []) : (takeText opening cs).1 ≠ [] := by
  intro hnil
  have hstands := takeText_eq_nil hcs hnil
  cases cs with
  | nil => exact hcs rfl
  | cons c cs =>
    rw [Text.contains_cons, Bool.or_eq_false_iff] at h
    rw [standsAt, h.1, Bool.and_false] at hstands
    cases hstands

/-- A source without the opening delimiter falls into texts, which are all there is to it. -/
theorem exists_pieces_of_not_contains {d : Delimiters} (p : Place) (cs : List Char)
    (h : Text.contains d.opening.toList cs = false) :
    ∃ ts, pieces d p cs = .ok ts ∧ (∀ t ∈ ts, t.isText = true) ∧
      ts.flatMap (fun t => t.value.toList) = cs := by
  by_cases hcs : cs = []
  · subst hcs
    exact ⟨[], by rw [pieces], fun t ht => (List.not_mem_nil ht).elim, rfl⟩
  · have happ := takeText_append d.opening.toList cs
    have hne := takeText_ne_nil h hcs
    have hrest : Text.contains d.opening.toList (takeText d.opening.toList cs).2 = false := by
      rw [← happ] at h
      exact Text.not_contains_of_append h
    have hlt : (takeText d.opening.toList cs).2.length < cs.length := by
      have hlength := congrArg List.length happ
      have hpos := List.length_pos_iff.mpr hne
      rw [List.length_append] at hlength
      omega
    obtain ⟨ts, hts, htext, hall⟩ :=
      exists_pieces_of_not_contains (p.advance (takeText d.opening.toList cs).1) _ hrest
    refine ⟨ofText d p (takeText d.opening.toList cs).1 :: ts, ?_, ?_, ?_⟩
    · rw [pieces_of_takeText hne rfl, hts]
      rfl
    · exact List.forall_mem_cons.mpr ⟨rfl, htext⟩
    · rw [List.flatMap_cons, hall]
      change (String.ofList (takeText d.opening.toList cs).1).toList ++ _ = cs
      rw [String.toList_ofList, happ]
termination_by cs.length

theorem settle_of_texts {ts : List Token} (h : ∀ t ∈ ts, t.isText = true) : settle ts = ts := by
  have hlines : ∀ line ∈ splitLines ts, settleLine line = line := by
    intro line hline
    have hnone : (line.any fun t => !t.isText) = false := by
      refine List.any_eq_false.mpr fun t ht => ?_
      have hmem : t ∈ ts := by
        rw [← flatten_splitLines ts]
        exact List.mem_flatten_of_mem hline ht
      rw [h t hmem]
      decide
    rw [settleLine, if_neg]
    rw [standsAlone, hnone, Bool.false_and]
    decide
  unfold settle
  rw [List.flatMap_def, List.map_congr_left hlines, List.map_id', flatten_splitLines]

/-- **A source without tags scans to its own text**, cut into lines. -/
theorem exists_scan_of_not_contains {d : Delimiters} {source : String}
    (h : Text.contains d.opening.toList source.toList = false) :
    ∃ ts, scan d source = .ok ts ∧ (∀ t ∈ ts, t.isText = true) ∧
      ts.flatMap (fun t => t.value.toList) = source.toList := by
  obtain ⟨ts, hts, htext, hall⟩ := exists_pieces_of_not_contains ⟨0, 1⟩ source.toList h
  refine ⟨ts, ?_, htext, hall⟩
  rw [scan, hts]
  exact congrArg Except.ok (settle_of_texts htext)

/-! ### One line -/

theorem takeText_of_not_contains {opening cs : List Char} (h : Text.contains opening cs = false)
    (hline : '\n' ∉ cs) : takeText opening cs = (cs, []) := by
  induction cs with
  | nil => rfl
  | cons c cs ih =>
    rw [List.mem_cons, not_or] at hline
    rw [Text.contains_cons, Bool.or_eq_false_iff] at h
    rw [takeText, if_neg (by simp [standsAt, h.1]), if_neg (Ne.symm hline.1), ih h.2 hline.2]

/-- A line without tags is one text. -/
theorem scan_of_not_contains {d : Delimiters} {source : String}
    (h : Text.contains d.opening.toList source.toList = false) (hline : '\n' ∉ source.toList)
    (hne : source.toList ≠ []) : scan d source = .ok [ofText d ⟨0, 1⟩ source.toList] := by
  have hpieces : pieces d ⟨0, 1⟩ source.toList = .ok [ofText d ⟨0, 1⟩ source.toList] := by
    rw [pieces_of_takeText hne (takeText_of_not_contains h hline), pieces]
    rfl
  rw [scan, hpieces]
  exact congrArg Except.ok (settle_of_texts (List.forall_mem_singleton.mpr rfl))

end Token

end Mustache
