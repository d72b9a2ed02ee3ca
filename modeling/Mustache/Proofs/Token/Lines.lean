import Mathlib.Data.List.Induction
import Mustache.Proofs.Token.Tiling

/-!
Lines of tokens, and what becomes of a line that stands alone: its texts go, and a tag that puts
other text in its place keeps the text since the tag before as its indent. Every tag of a source
is still there when its lines are settled.
-/

namespace Mustache.Token

/-! ### Splitting into lines -/

theorem flatten_splitLines (ts : List Token) : (splitLines ts).flatten = ts := by
  induction ts with
  | nil => rfl
  | cons t ts ih =>
    unfold splitLines
    split
    · simp [ih]
    · split
      · rename_i hnil
        rw [hnil] at ih
        simp [← ih]
      · rename_i l ls hcons
        rw [hcons] at ih
        simpa using ih

/-- Only the last token of a line may end it, and it does unless there is no further line. -/
theorem exists_last_of_splitLines {ts : List Token} {before after : List (List Token)}
    {line : List Token} (h : splitLines ts = before ++ line :: after) :
    ∃ front last, line = front ++ [last] ∧ (∀ t ∈ front, t.endsLine = false) ∧
      (after = [] ∨ last.endsLine = true) := by
  induction ts generalizing before line after with
  | nil => simp [splitLines] at h
  | cons t ts ih =>
    unfold splitLines at h
    split at h
    · rename_i ht
      cases before with
      | nil =>
        obtain ⟨rfl, rfl⟩ := List.cons.inj h
        exact ⟨[], t, rfl, by simp, .inr ht⟩
      | cons b bs => exact ih (List.cons.inj h).2
    · rename_i ht
      split at h
      · cases before with
        | nil =>
          obtain ⟨rfl, rfl⟩ := List.cons.inj h
          exact ⟨[], t, rfl, by simp, .inl rfl⟩
        | cons b bs => simp at h
      · rename_i l ls hcons
        cases before with
        | nil =>
          -- the token joins the first line of the rest
          obtain ⟨rfl, rfl⟩ := List.cons.inj h
          obtain ⟨front, last, rfl, hfront, hlast⟩ := @ih [] ls l hcons
          refine ⟨t :: front, last, rfl, ?_, hlast⟩
          simpa [ht] using hfront
        | cons b bs =>
          obtain ⟨rfl, hls⟩ := List.cons.inj h
          exact @ih (l :: bs) after line (by rw [hcons, hls]; rfl)

/-! ### Texts that are dropped -/

/-- The text behind the last tag of some tokens; all of it, with `indent` in front, if there is
no tag. -/
def trailing (indent : String) : List Token → String
  | [] => indent
  | t :: ts => trailing (if t.isText then indent ++ t.value else "") ts

theorem trailing_concat (indent : String) (ts : List Token) (t : Token) :
    trailing indent (ts ++ [t]) = if t.isText then trailing indent ts ++ t.value else "" := by
  induction ts generalizing indent with
  | nil => rfl
  | cons u us ih => exact ih _

/-- A tag of a line that stands alone, with the text in front of it. -/
def settled (t : Token) (indent : String) : Token :=
  if t.kind.takesIndent then { t with indent := some indent } else t

@[simp] theorem isText_settled (t : Token) (indent : String) :
    (t.settled indent).isText = t.isText := by
  unfold settled
  split <;> rfl

@[simp] theorem kind_settled (t : Token) (indent : String) :
    (t.settled indent).kind = t.kind := by
  unfold settled
  split <;> rfl

theorem indent_settled (t : Token) (indent : String) :
    (t.settled indent).indent = if t.kind.takesIndent then some indent else t.indent := by
  unfold settled
  split <;> rfl

theorem dropTexts_cons_tag {t : Token} (ht : t.isText = false) (indent : String)
    (ts : List Token) : dropTexts indent (t :: ts) = t.settled indent :: dropTexts "" ts := by
  cases hk : t.kind.takesIndent <;> simp [dropTexts, settled, ht, hk]

theorem mem_dropTexts {indent : String} {ts : List Token} {u : Token} :
    u ∈ dropTexts indent ts ↔ ∃ before t after, ts = before ++ t :: after ∧ t.isText = false ∧
      u = t.settled (trailing indent before) := by
  induction ts generalizing indent with
  | nil => simp [dropTexts]
  | cons t ts ih =>
    cases ht : t.isText with
    | true =>
      have hdrop : dropTexts indent (t :: ts) = dropTexts (indent ++ t.value) ts := by
        simp [dropTexts, ht]
      rw [hdrop, ih]
      constructor
      · rintro ⟨before, v, after, rfl, hv, rfl⟩
        exact ⟨t :: before, v, after, rfl, hv, by simp [trailing, ht]⟩
      · rintro ⟨before, v, after, heq, hv, rfl⟩
        cases before with
        | nil =>
          obtain ⟨rfl, -⟩ := List.cons.inj heq
          simp [ht] at hv
        | cons b before =>
          obtain ⟨rfl, rfl⟩ := List.cons.inj heq
          exact ⟨before, v, after, rfl, hv, by simp [trailing, ht]⟩
    | false =>
      rw [dropTexts_cons_tag ht, List.mem_cons, ih]
      constructor
      · rintro (rfl | ⟨before, v, after, rfl, hv, rfl⟩)
        · exact ⟨[], t, ts, rfl, ht, rfl⟩
        · exact ⟨t :: before, v, after, rfl, hv, by simp [trailing, ht]⟩
      · rintro ⟨before, v, after, heq, hv, rfl⟩
        cases before with
        | nil =>
          obtain ⟨rfl, rfl⟩ := List.cons.inj heq
          exact .inl rfl
        | cons b before =>
          obtain ⟨rfl, rfl⟩ := List.cons.inj heq
          exact .inr ⟨before, v, after, rfl, hv, by simp [trailing, ht]⟩

/-- Where a token lies. -/
def span (t : Token) : Nat × Nat := (t.start, t.stop)

theorem span_settled (t : Token) (indent : String) : (t.settled indent).span = t.span := by
  unfold settled
  split <;> rfl

theorem dropTexts_span_sublist (indent : String) (ts : List Token) :
    ((dropTexts indent ts).map span).Sublist (ts.map span) := by
  induction ts generalizing indent with
  | nil => simp [dropTexts]
  | cons t ts ih =>
    cases ht : t.isText with
    | true =>
      simp only [dropTexts, ht, if_true, List.map_cons]
      exact (ih _).cons _
    | false =>
      rw [dropTexts_cons_tag ht, List.map_cons, List.map_cons, span_settled]
      exact (ih _).cons_cons _

/-- The text in front of a tag begins where the tag before it stops, or else with the line. -/
theorem Tiling.trailing_eq {n : Nat} {cs : List Char} {ts : List Token} (h : Tiling n cs ts) :
    ∃ front gap, cs = front ++ gap ∧ trailing "" ts = String.ofList gap ∧
      (front = [] ∨ ∃ t ∈ ts, t.isText = false ∧ t.stop = n + Text.byteLength front) ∧
      ∀ t ∈ ts, t.isText = false → t.stop ≤ n + Text.byteLength front := by
  induction ts using List.reverseRecOn generalizing cs with
  | nil =>
    cases h
    exact ⟨[], [], rfl, rfl, .inl rfl, by simp⟩
  | append_singleton ts t ih =>
    obtain ⟨as, bs, rfl, has, hbs⟩ := append_iff.mp h
    cases hbs with
    | @cons _ _ lexeme rest _ hfits hrest =>
      cases hrest
      rw [List.append_nil, trailing_concat]
      cases ht : t.isText with
      | true =>
        obtain ⟨front, gap, rfl, hgap, hfront, htags⟩ := ih has
        refine ⟨front, gap ++ lexeme, by simp, ?_, ?_, ?_⟩
        · rw [if_pos rfl, hgap, hfits.value_eq ht, String.ofList_append]
        · rcases hfront with hnil | ⟨u, hu, hutag, hustop⟩
          · exact .inl hnil
          · exact .inr ⟨u, by simp [hu], hutag, hustop⟩
        · intro u hu hutag
          rcases List.mem_append.mp hu with hu | hu
          · exact htags u hu hutag
          · simp only [List.mem_singleton] at hu
            subst hu
            simp [ht] at hutag
      | false =>
        have hstop : t.stop = n + Text.byteLength (as ++ lexeme) := by
          rw [hfits.stop_eq, Text.byteLength_append, Nat.add_assoc]
        refine ⟨as ++ lexeme, [], by simp, by simp, .inr ⟨t, by simp, ht, hstop⟩, ?_⟩
        intro u hu hutag
        have := (h.bounds hu).2.2
        simpa using this

/-! ### Settled lines -/

/-- A token of the settled lines is a token of a line that does not stand alone, or a tag of one
that does. -/
theorem mem_settle {ts : List Token} {u : Token} :
    u ∈ settle ts ↔ ∃ before line after, splitLines ts = before ++ line :: after ∧
      (standsAlone line = false ∧ u ∈ line ∨ standsAlone line = true ∧
        ∃ front t back, line = front ++ t :: back ∧ t.isText = false ∧
          u = t.settled (trailing "" front)) := by
  simp only [settle, List.mem_flatMap]
  constructor
  · rintro ⟨line, hline, hu⟩
    obtain ⟨before, after, hsplit⟩ := List.append_of_mem hline
    refine ⟨before, line, after, hsplit, ?_⟩
    unfold settleLine at hu
    split at hu
    · rename_i halone
      exact .inr ⟨halone, mem_dropTexts.mp hu⟩
    · rename_i halone
      exact .inl ⟨by simpa using halone, hu⟩
  · rintro ⟨before, line, after, hsplit, h⟩
    refine ⟨line, by simp [hsplit], ?_⟩
    unfold settleLine
    rcases h with ⟨halone, hu⟩ | ⟨halone, h⟩
    · simpa [halone] using hu
    · simpa [halone] using mem_dropTexts.mpr h

theorem settle_span_sublist (ts : List Token) :
    ((settle ts).map span).Sublist (ts.map span) := by
  have hlines : ∀ ls : List (List Token),
      ((ls.flatMap settleLine).map span).Sublist (ls.flatten.map span) := by
    intro ls
    induction ls with
    | nil => simp
    | cons l ls ih =>
      simp only [List.flatMap_cons, List.flatten_cons, List.map_append]
      refine List.Sublist.append ?_ ih
      unfold settleLine
      split
      · exact dropTexts_span_sublist "" l
      · exact List.Sublist.refl _
  have := hlines (splitLines ts)
  rwa [flatten_splitLines] at this

/-- The token without its indent, as it was before its line was settled. -/
def bare (t : Token) : Token := { t with indent := none }

theorem bare_settled {t : Token} (h : t.indent = none) (indent : String) :
    (t.settled indent).bare = t := by
  unfold settled bare
  split <;> simp [← h]

section

variable {n : Nat} {cs : List Char} {ts : List Token} (h : Tiling n cs ts)
include h

/-- A token that is left was on a line. It has no indent if the line does not stand alone; if it
does, the token is a tag, and its indent the text in front of it if it takes one. -/
theorem exists_line_of_mem_settle {u : Token} (hu : u ∈ settle ts) :
    ∃ before line after, splitLines ts = before ++ line :: after ∧ u.bare ∈ line ∧
      (standsAlone line = false ∧ u.indent = none ∨ standsAlone line = true ∧ u.isText = false ∧
        ∃ front back, line = front ++ u.bare :: back ∧
          u.indent = if u.kind.takesIndent then some (trailing "" front) else none) := by
  obtain ⟨before, line, after, hsplit, hu⟩ := mem_settle.mp hu
  have hindent : ∀ t ∈ line, t.indent = none := by
    intro t ht
    have hmem : t ∈ ts := by
      rw [← flatten_splitLines ts, hsplit]
      simp [ht]
    obtain ⟨_, _, _, -, hfits⟩ := h.exists_fits hmem
    exact hfits.indent_eq
  refine ⟨before, line, after, hsplit, ?_⟩
  rcases hu with ⟨hnot, hu⟩ | ⟨halone, front, t, back, rfl, htag, rfl⟩
  · have hbare : u.bare = u := by simp [bare, ← hindent u hu]
    rw [hbare]
    exact ⟨hu, .inl ⟨hnot, hindent u hu⟩⟩
  · have ht := hindent t (by simp)
    rw [bare_settled ht, isText_settled, kind_settled, indent_settled, ht]
    exact ⟨by simp, .inr ⟨halone, htag, front, back, rfl, rfl⟩⟩

theorem bare_mem_of_mem_settle {u : Token} (hu : u ∈ settle ts) : u.bare ∈ ts := by
  obtain ⟨before, line, after, hsplit, hmem, -⟩ := exists_line_of_mem_settle h hu
  rw [← flatten_splitLines ts, hsplit]
  simp [hmem]

/-- **No tag is lost.** -/
theorem exists_mem_settle {t : Token} (ht : t ∈ ts) (htag : t.isText = false) :
    ∃ u ∈ settle ts, u.bare = t := by
  obtain ⟨_, _, _, -, hfits⟩ := h.exists_fits ht
  rw [← flatten_splitLines ts] at ht
  obtain ⟨line, hline, ht⟩ := List.mem_flatten.mp ht
  obtain ⟨before, after, hsplit⟩ := List.append_of_mem hline
  cases halone : standsAlone line with
  | false =>
    refine ⟨t, mem_settle.mpr ⟨before, line, after, hsplit, .inl ⟨halone, ht⟩⟩, ?_⟩
    simp [bare, ← hfits.indent_eq]
  | true =>
    obtain ⟨front, back, rfl⟩ := List.append_of_mem ht
    exact ⟨_, mem_settle.mpr ⟨before, _, after, hsplit,
      .inr ⟨halone, front, t, back, rfl, htag, rfl⟩⟩, bare_settled hfits.indent_eq _⟩

end

end Mustache.Token
