import Mustache.Text.Slice

/-!
Cuts and slices by byte offsets. A cut succeeds exactly between two characters, and a slice is
the middle of a text whose ends have the lengths that its offsets say.
-/

namespace Mustache.Text

/-! ### Lengths -/

theorem byteLength_pos {cs : List Char} (h : cs ≠ []) : 0 < byteLength cs := by
  cases cs with
  | nil => exact absurd rfl h
  | cons c cs =>
    have := c.utf8Size_pos
    simp only [byteLength_cons]
    omega

/-! ### Cuts -/

theorem splitAtByte?_byteLength (a b : List Char) :
    splitAtByte? (byteLength a) (a ++ b) = some (a, b) := by
  induction a with
  | nil => cases b <;> rfl
  | cons c a ih =>
    obtain ⟨n, hn⟩ : ∃ n, byteLength (c :: a) = n + 1 :=
      Nat.exists_eq_add_one.mpr (byteLength_pos (by simp))
    have hc : c.utf8Size ≤ n + 1 := by
      rw [← hn, byteLength_cons]
      omega
    have hrest : n + 1 - c.utf8Size = byteLength a := by
      rw [← hn, byteLength_cons]
      omega
    rw [hn, List.cons_append, splitAtByte?, if_pos hc, hrest, ih]
    rfl

/-- A slice is the middle of the text. -/
theorem sliceBytes?_append (before body after : List Char) :
    sliceBytes? (byteLength before) (byteLength before + byteLength body)
      (before ++ body ++ after) = some body := by
  have hlen : byteLength before + byteLength body - byteLength before = byteLength body := by omega
  have hguard : (guard (byteLength before ≤ byteLength before + byteLength body) : Option Unit) =
      some () := if_pos (Nat.le_add_right _ _)
  unfold sliceBytes?
  rw [hguard, List.append_assoc]
  simp [splitAtByte?_byteLength, hlen]

theorem splitAtByte?_append (before cs : List Char) (i : Nat) :
    splitAtByte? (byteLength before + i) (before ++ cs) =
      (splitAtByte? i cs).map fun p => (before ++ p.1, p.2) := by
  induction before with
  | nil => simp
  | cons c before ih =>
    have hsize := c.utf8Size_pos
    obtain ⟨k, hk⟩ : ∃ k, byteLength (c :: before) + i = k + 1 :=
      Nat.exists_eq_add_one.mpr (by simp only [byteLength_cons]; omega)
    have hfits : c.utf8Size ≤ k + 1 := by
      simp only [byteLength_cons] at hk
      omega
    have hrest : k + 1 - c.utf8Size = byteLength before + i := by
      simp only [byteLength_cons] at hk
      omega
    rw [hk, List.cons_append, splitAtByte?, if_pos hfits, hrest, ih, Option.map_map]
    rfl

/-- A slice of a text is one of every text that ends in it, further back. -/
theorem sliceBytes?_behind (before cs : List Char) (start stop : Nat) :
    sliceBytes? (start + byteLength before) (stop + byteLength before) (before ++ cs) =
      sliceBytes? start stop cs := by
  unfold sliceBytes?
  rw [Nat.add_comm start, splitAtByte?_append]
  have hlen : stop + byteLength before - (byteLength before + start) = stop - start := by omega
  have hguard : (guard (byteLength before + start ≤ stop + byteLength before) : Option Unit) =
      guard (start ≤ stop) := by
    by_cases hle : start ≤ stop
    · exact (if_pos (by omega)).trans (if_pos hle).symm
    · exact (if_neg (by omega)).trans (if_neg hle).symm
  rw [hguard, hlen]
  cases splitAtByte? start cs <;> rfl

/-! ### Bytes and characters -/

/-- The character that the byte at an offset is part of. -/
def charAtByte? : Nat → List Char → Option Char
  | _, [] => none
  | i, c :: cs => if i < c.utf8Size then some c else charAtByte? (i - c.utf8Size) cs

theorem charAtByte?_append_left {a : List Char} (b : List Char) {i : Nat} (h : i < byteLength a) :
    charAtByte? i (a ++ b) = charAtByte? i a := by
  induction a generalizing i with
  | nil => simp at h
  | cons c a ih =>
    simp only [List.cons_append, charAtByte?]
    split
    · rfl
    · simp only [byteLength_cons] at h
      exact ih (by omega)

theorem charAtByte?_append_right (a b : List Char) (i : Nat) :
    charAtByte? (byteLength a + i) (a ++ b) = charAtByte? i b := by
  induction a with
  | nil => simp
  | cons c a ih =>
    have hge : ¬ byteLength (c :: a) + i < c.utf8Size := by
      simp only [byteLength_cons]
      omega
    have hrest : byteLength (c :: a) + i - c.utf8Size = byteLength a + i := by
      simp only [byteLength_cons]
      omega
    rw [List.cons_append, charAtByte?, if_neg hge, hrest, ih]

theorem charAtByte?_head (c : Char) (cs : List Char) : charAtByte? 0 (c :: cs) = some c := by
  simp [charAtByte?, c.utf8Size_pos]

/-- The character at a byte stands in the text, and the byte is one of its own. -/
theorem exists_of_charAtByte? {i : Nat} {cs : List Char} {c : Char}
    (h : charAtByte? i cs = some c) :
    ∃ a b, cs = a ++ c :: b ∧ byteLength a ≤ i ∧ i < byteLength a + c.utf8Size := by
  induction cs generalizing i with
  | nil => simp [charAtByte?] at h
  | cons d cs ih =>
    simp only [charAtByte?] at h
    split at h
    · obtain rfl := Option.some.inj h
      exact ⟨[], cs, rfl, by simp, by simpa⟩
    · obtain ⟨a, b, rfl, h1, h2⟩ := ih h
      refine ⟨d :: a, b, rfl, ?_, ?_⟩ <;> simp only [byteLength_cons] <;> omega

theorem lt_of_charAtByte? {i : Nat} {cs : List Char} {c : Char}
    (h : charAtByte? i cs = some c) : i < byteLength cs := by
  obtain ⟨a, b, rfl, -, hlt⟩ := exists_of_charAtByte? h
  simp only [byteLength_append, byteLength_cons]
  omega

theorem exists_charAtByte? {i : Nat} {cs : List Char} (h : i < byteLength cs) :
    ∃ c, charAtByte? i cs = some c := by
  induction cs generalizing i with
  | nil => simp at h
  | cons d cs ih =>
    simp only [charAtByte?]
    split
    · exact ⟨d, rfl⟩
    · simp only [byteLength_cons] at h
      exact ih (by omega)

end Mustache.Text
