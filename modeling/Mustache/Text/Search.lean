/-!
Where one text stands within another.
-/

namespace Mustache.Text

/-- The text in front of the first place where `pattern` stands, and the text behind it. -/
def cutAt? (pattern : List Char) : List Char → Option (List Char × List Char)
  | [] => if pattern.isEmpty then some ([], []) else none
  | c :: cs =>
    if pattern.isPrefixOf (c :: cs) then some ([], (c :: cs).drop pattern.length)
    else (cutAt? pattern cs).map fun (before, after) => (c :: before, after)

theorem cutAt?_append {pattern cs before after : List Char}
    (h : cutAt? pattern cs = some (before, after)) : before ++ pattern ++ after = cs := by
  induction cs generalizing before with
  | nil =>
    simp only [cutAt?] at h
    split at h <;> simp_all
  | cons c cs ih =>
    simp only [cutAt?] at h
    split at h
    · rename_i hp
      obtain ⟨t, ht⟩ := List.isPrefixOf_iff_prefix.mp hp
      simp only [Option.some.injEq, Prod.mk.injEq] at h
      obtain ⟨rfl, rfl⟩ := h
      simp [← ht]
    · simp only [Option.map_eq_some_iff, Prod.exists, Prod.mk.injEq] at h
      obtain ⟨b, a, hba, rfl, rfl⟩ := h
      simp [← ih hba]

/-- The pattern stands somewhere in the text. -/
def contains (pattern cs : List Char) : Bool := (cutAt? pattern cs).isSome

/-- The text behind `start` if it begins with it, and all of it otherwise. -/
def stripStart (start cs : List Char) : List Char :=
  if start.isPrefixOf cs then cs.drop start.length else cs

end Mustache.Text
