import Mustache.Proofs.Token.Lines

/-!
Scanning loses nothing but the white space of lines that stand alone. What a logical line of a
source is, and when it stands alone, is said here by bytes: of the source, and of the tags that
scanning found. Main statement: `scan_lossless`.
-/

namespace Mustache.Token

/-! ### Lines of a source -/

/-- The byte at `i` is part of a tag. -/
def InTag (ts : List Token) (i : Nat) : Prop :=
  ∃ t ∈ ts, t.isText = false ∧ t.start ≤ i ∧ i < t.stop

/-- A newline outside tags stands at byte `i`. -/
def BreaksAt (cs : List Char) (ts : List Token) (i : Nat) : Prop :=
  Text.charAtByte? i cs = some '\n' ∧ ¬ InTag ts i

/-- The bytes from `a` up to `b` are a logical line: all of the source between two newlines outside
tags, the second one included, or between one of them and an end of the source. -/
structure LogicalLine (cs : List Char) (ts : List Token) (a b : Nat) : Prop where
  lt : a < b
  begins : a = 0 ∨ BreaksAt cs ts (a - 1)
  ends : b = Text.byteLength cs ∨ BreaksAt cs ts (b - 1)
  unbroken : ∀ i, a ≤ i → i + 1 < b → ¬ BreaksAt cs ts i

/-- A logical line that has a tag, no interpolation, and outside tags only white space. -/
structure StandaloneLine (cs : List Char) (ts : List Token) (a b : Nat) : Prop
    extends LogicalLine cs ts a b where
  tag : ∃ t ∈ ts, t.isText = false ∧ a ≤ t.start ∧ t.start < b
  structural : ∀ t ∈ ts, a ≤ t.start → t.start < b → t.kind ≠ .escaped ∧ t.kind ≠ .unescaped
  blank : ∀ i c, a ≤ i → i < b → ¬ InTag ts i → Text.charAtByte? i cs = some c →
    Text.isSpace c = true

/-- Partials, fixed or dynamic, parents and blocks. -/
def PullsIn (t : Token) : Prop :=
  t.kind = .partialTag ∨ t.kind = .dynamicPartial ∨ t.kind = .parent ∨ t.kind = .block

theorem pullsIn_iff {t : Token} : t.PullsIn ↔ t.kind.takesIndent = true := by
  unfold PullsIn
  cases t.kind <;> simp [TokenKind.takesIndent]

/-- The byte `p` is where a tag of the line from `a` stops, or the line's beginning, and there is
no tag from there up to `q`. -/
structure GapBefore (ts : List Token) (a p q : Nat) : Prop where
  begins : p = a ∨ ∃ t ∈ ts, t.isText = false ∧ a ≤ t.start ∧ t.stop = p
  le : a ≤ p ∧ p ≤ q
  untagged : ∀ i, p ≤ i → i < q → ¬ InTag ts i

/-- **What scanning keeps of a source.** -/
structure Lossless (cs : List Char) (ts : List Token) : Prop where
  within : ∀ t ∈ ts, t.start < t.stop ∧ t.stop ≤ Text.byteLength cs
  ordered : ts.Pairwise fun t u => t.stop ≤ u.start
  /-- A slice exists only between characters. -/
  text : ∀ t ∈ ts, t.isText = true → Text.sliceBytes? t.start t.stop cs = some t.value.toList
  tag : ∀ t ∈ ts, t.isText = false → ∃ lexeme, Text.sliceBytes? t.start t.stop cs = some lexeme ∧
    t.delimiters.opening.toList <+: lexeme
  /-- A byte of no token is white space of a standalone line. -/
  dropped : ∀ i < Text.byteLength cs, (∀ t ∈ ts, ¬ (t.start ≤ i ∧ i < t.stop)) →
    (∃ c, Text.charAtByte? i cs = some c ∧ Text.isSpace c = true) ∧
      ∃ a b, StandaloneLine cs ts a b ∧ a ≤ i ∧ i < b
  /-- No text of a standalone line is left. -/
  kept : ∀ a b, StandaloneLine cs ts a b → ∀ t ∈ ts, t.isText = true → t.stop ≤ a ∨ b ≤ t.start
  indent : ∀ a b, StandaloneLine cs ts a b → ∀ t ∈ ts, a ≤ t.start → t.start < b → t.PullsIn →
    ∃ p gap, GapBefore ts a p t.start ∧ Text.sliceBytes? p t.start cs = some gap ∧
      t.indent = some (String.ofList gap)
  noIndent : ∀ t ∈ ts, (¬ ∃ a b, StandaloneLine cs ts a b ∧ a ≤ t.start ∧ t.start < b ∧ t.PullsIn) →
    t.indent = none

/-- The tokens of `raw` on the logical line that is `text`, behind `front`. -/
structure LiesOn (cs : List Char) (raw line : List Token) (front text : List Char) : Prop where
  tiling : Tiling (Text.byteLength front) text line
  source : ∃ back, cs = front ++ text ++ back
  logical : LogicalLine cs raw (Text.byteLength front)
    (Text.byteLength front + Text.byteLength text)
  sub : ∀ t ∈ line, t ∈ raw
  all : ∀ t ∈ raw, Text.byteLength front ≤ t.start →
    t.start < Text.byteLength front + Text.byteLength text → t ∈ line

/-- A byte is on one logical line only. -/
theorem LogicalLine.unique {cs : List Char} {ts : List Token} {a b a' b' i : Nat}
    (h : LogicalLine cs ts a b) (h' : LogicalLine cs ts a' b') (hai : a ≤ i) (hib : i < b)
    (hai' : a' ≤ i) (hib' : i < b') : a = a' ∧ b = b' := by
  have hbegin : ∀ {a b a' b' : Nat}, LogicalLine cs ts a b → LogicalLine cs ts a' b' → a' ≤ i →
      i < b → ¬ a < a' := by
    intro a b a' b' h h' hai' hib hlt
    rcases h'.begins with hzero | hbreak
    · omega
    · exact h.unbroken (a' - 1) (by omega) (by omega) hbreak
  have hend : ∀ {a b a' b' : Nat}, LogicalLine cs ts a b → LogicalLine cs ts a' b' → a' ≤ i →
      i < b → ¬ b < b' := by
    intro a b a' b' h h' hai' hib hlt
    rcases h.ends with hlen | hbreak
    · -- the source is over at `b`
      rcases h'.ends with hlen' | ⟨hchar, -⟩
      · omega
      · have := Text.lt_of_charAtByte? hchar
        omega
    · exact h'.unbroken (b - 1) (by omega) (by omega) hbreak
  have := hbegin h h' hai' hib
  have := hbegin h' h hai hib'
  have := hend h h' hai' hib
  have := hend h' h hai hib'
  omega

/-! ### The tags that are left -/

/-- Whatever does not hang on indents holds of a tag that is left if and only if it holds of one
of the source. -/
theorem exists_tag_settle_iff {n : Nat} {cs : List Char} {raw : List Token} (h : Tiling n cs raw)
    {P : Token → Prop} (hP : ∀ t, P t.bare ↔ P t) :
    (∃ t ∈ settle raw, t.isText = false ∧ P t) ↔ ∃ t ∈ raw, t.isText = false ∧ P t := by
  constructor
  · rintro ⟨t, ht, htag, hPt⟩
    exact ⟨t.bare, bare_mem_of_mem_settle h ht, htag, (hP t).mpr hPt⟩
  · rintro ⟨t, ht, htag, hPt⟩
    obtain ⟨u, hu, rfl⟩ := exists_mem_settle h ht htag
    exact ⟨u, hu, htag, (hP u).mp hPt⟩

section

variable {cs : List Char} {raw : List Token} (h : Tiling 0 cs raw)
include h

theorem inTag_settle_iff {i : Nat} : InTag (settle raw) i ↔ InTag raw i :=
  exists_tag_settle_iff h fun _ => Iff.rfl

theorem breaksAt_settle_iff {i : Nat} : BreaksAt cs (settle raw) i ↔ BreaksAt cs raw i := by
  unfold BreaksAt
  rw [inTag_settle_iff h]

theorem logicalLine_settle_iff {a b : Nat} :
    LogicalLine cs (settle raw) a b ↔ LogicalLine cs raw a b := by
  constructor
  · rintro ⟨hlt, hbegins, hends, hunbroken⟩
    simp only [breaksAt_settle_iff h] at hbegins hends hunbroken
    exact ⟨hlt, hbegins, hends, hunbroken⟩
  · rintro ⟨hlt, hbegins, hends, hunbroken⟩
    refine ⟨hlt, ?_, ?_, ?_⟩ <;> simpa only [breaksAt_settle_iff h]

/-! ### Texts and bytes -/

/-- A byte of a text is in no tag. -/
theorem not_inTag_of_text {t : Token} (ht : t ∈ raw) (htext : t.isText = true) {i : Nat}
    (hstart : t.start ≤ i) (hstop : i < t.stop) : ¬ InTag raw i := by
  rintro ⟨u, hu, hutag, hustart, hustop⟩
  obtain rfl := h.eq_of_covers ht hu hstart hstop hustart hustop
  simp [htext] at hutag

/-- A byte outside tags is part of a character of a text. -/
theorem exists_text_of_not_inTag {i : Nat} {c : Char} (hi : ¬ InTag raw i)
    (hc : Text.charAtByte? i cs = some c) :
    ∃ t ∈ raw, t.isText = true ∧ t.start ≤ i ∧ i < t.stop ∧ ∃ front back,
      t.value.toList = front ++ c :: back ∧ t.start + Text.byteLength front ≤ i ∧
      i < t.start + Text.byteLength front + c.utf8Size := by
  obtain ⟨t, ht, hstart, hstop⟩ :=
    h.exists_covers (Nat.zero_le i) (by simpa using Text.lt_of_charAtByte? hc)
  have htext : t.isText = true := by
    by_contra htag
    exact hi ⟨t, ht, by simpa using htag, hstart, hstop⟩
  obtain ⟨before, lexeme, after, rfl, hfits⟩ := h.exists_fits ht
  have hstart_eq := hfits.start_eq
  have hstop_eq := hfits.stop_eq
  rw [Nat.zero_add] at hstart_eq hstop_eq
  obtain ⟨j, rfl⟩ := Nat.exists_eq_add_of_le (hstart_eq ▸ hstart)
  rw [List.append_assoc, Text.charAtByte?_append_right,
    Text.charAtByte?_append_left _ (by omega)] at hc
  obtain ⟨front, back, rfl, hfront, hback⟩ := Text.exists_of_charAtByte? hc
  exact ⟨t, ht, htext, hstart, hstop, front, back, hfits.toList_value htext, by omega, by omega⟩

/-- A character of a text stands at a byte outside tags. -/
theorem exists_byte_of_mem_text {t : Token} (ht : t ∈ raw) (htext : t.isText = true)
    {front back : List Char} {c : Char} (hvalue : t.value.toList = front ++ c :: back) :
    t.start + Text.byteLength front < t.stop ∧
      Text.charAtByte? (t.start + Text.byteLength front) cs = some c ∧
      ¬ InTag raw (t.start + Text.byteLength front) := by
  obtain ⟨before, lexeme, after, rfl, hfits⟩ := h.exists_fits ht
  obtain rfl := (hfits.toList_value htext).symm.trans hvalue
  have hstart_eq := hfits.start_eq
  have hstop_eq := hfits.stop_eq
  have := c.utf8Size_pos
  simp only [Nat.zero_add, Text.byteLength_append, Text.byteLength_cons] at hstart_eq hstop_eq
  have hstop : t.start + Text.byteLength front < t.stop := by omega
  refine ⟨hstop, ?_, not_inTag_of_text h ht htext (by omega) hstop⟩
  rw [hstart_eq, List.append_assoc, Text.charAtByte?_append_right, List.append_assoc]
  have := Text.charAtByte?_append_right front (c :: back ++ after) 0
  rwa [Nat.add_zero, List.cons_append, Text.charAtByte?_head] at this

/-- Newlines outside tags are the ends of the texts that end lines. -/
theorem breaksAt_iff {i : Nat} :
    BreaksAt cs raw i ↔ ∃ t ∈ raw, t.endsLine = true ∧ t.stop = i + 1 := by
  constructor
  · rintro ⟨hchar, htag⟩
    obtain ⟨t, ht, htext, -, -, front, back, hvalue, hfront, hback⟩ :=
      exists_text_of_not_inTag h htag hchar
    obtain ⟨before, lexeme, after, -, hfits⟩ := h.exists_fits ht
    have hlexeme := (hfits.toList_value htext).symm.trans hvalue
    -- a newline is the last character of its text
    have hnil : back = [] := by
      by_contra hne
      have hlast := hfits.newline_last htext
      rw [hlexeme, List.dropLast_append_of_ne_nil (by simp),
        List.dropLast_cons_of_ne_nil hne] at hlast
      simp at hlast
    have hnewline : ('\n' : Char).utf8Size = 1 := by decide
    have hstart_eq := hfits.start_eq
    have hstop_eq := hfits.stop_eq
    rw [hlexeme, hnil] at hstop_eq
    simp only [Text.byteLength_append, Text.byteLength_cons, Text.byteLength_nil] at hstop_eq
    refine ⟨t, ht, ?_, by omega⟩
    simp [endsLine, htext, hvalue, hnil]
  · rintro ⟨t, ht, hends, hstop⟩
    simp only [endsLine, Bool.and_eq_true, beq_iff_eq] at hends
    obtain ⟨htext, hlast⟩ := hends
    obtain ⟨front, hvalue⟩ := List.getLast?_eq_some_iff.mp hlast
    obtain ⟨before, lexeme, after, -, hfits⟩ := h.exists_fits ht
    have hlexeme := (hfits.toList_value htext).symm.trans hvalue
    have hnewline : ('\n' : Char).utf8Size = 1 := by decide
    have hstart_eq := hfits.start_eq
    have hstop_eq := hfits.stop_eq
    rw [hlexeme] at hstop_eq
    simp only [Text.byteLength_append, Text.byteLength_cons, Text.byteLength_nil] at hstop_eq
    obtain rfl : i = t.start + Text.byteLength front := by omega
    obtain ⟨-, hchar, htag⟩ := exists_byte_of_mem_text h ht htext hvalue
    exact ⟨hchar, htag⟩

/-! ### Lines of tokens -/

/-- A line of tokens lies on a logical line of the source. -/
theorem exists_liesOn {before after : List (List Token)} {line : List Token}
    (hsplit : splitLines raw = before ++ line :: after) : ∃ front text, LiesOn cs raw line front text := by
  have hraw : raw = before.flatten ++ (line ++ after.flatten) := by
    rw [← flatten_splitLines raw, hsplit]
    simp
  have htiling := h
  rw [hraw] at htiling
  obtain ⟨front, rest, rfl, hfront, hrest⟩ := Tiling.append_iff.mp htiling
  obtain ⟨text, back, rfl, htext, hback⟩ := Tiling.append_iff.mp hrest
  rw [Nat.zero_add] at htext hback
  have hmem : ∀ t ∈ raw, t ∈ before.flatten ∨ t ∈ line ∨ t ∈ after.flatten := by
    intro t ht
    rw [hraw] at ht
    simpa only [List.mem_append] using ht
  obtain ⟨init, last, hline, hinit, hlast⟩ := exists_last_of_splitLines hsplit
  have hstop : last.stop = Text.byteLength front + Text.byteLength text :=
    Tiling.stop_concat (hline ▸ htext)
  have hlastmem : last ∈ raw := by simp [hraw, hline]
  refine ⟨front, text, htext, ⟨back, by simp⟩, ⟨?_, ?_, ?_, ?_⟩,
    fun t ht => by simp [hraw, ht], ?_⟩
  · obtain ⟨hge, hlt, -⟩ := htext.bounds (t := last) (by simp [hline])
    omega
  · -- the line begins where the line before it was ended
    rcases List.eq_nil_or_concat before with rfl | ⟨lines, prev, rfl⟩
    · cases hfront
      exact .inl rfl
    · rw [List.concat_eq_append, List.append_assoc] at hsplit
      obtain ⟨init', last', rfl, -, hlast'⟩ := exists_last_of_splitLines hsplit
      replace hlast' := hlast'.resolve_left (List.cons_ne_nil _ _)
      have hfront' : Tiling 0 front ((lines.flatten ++ init') ++ [last']) := by
        simpa using hfront
      have hstop' := hfront'.stop_concat
      have hlt := (hfront'.bounds (t := last') (by simp)).2.1
      refine .inr ((breaksAt_iff h).mpr ⟨last', ?_, hlast', by omega⟩)
      simp [hraw]
  · rcases hlast with rfl | hends
    · cases hback
      exact .inl (by simp)
    · have hlt := (h.bounds hlastmem).2.1
      exact .inr ((breaksAt_iff h).mpr ⟨last, hlastmem, hends, by omega⟩)
  · intro i hi hilt hbreak
    obtain ⟨t, ht, hends, htstop⟩ := (breaksAt_iff h).mp hbreak
    rcases hmem t ht with hfrontmem | hlinemem | hbackmem
    · have := (hfront.bounds hfrontmem).2.2
      omega
    · rw [hline, List.mem_append, List.mem_singleton] at hlinemem
      rcases hlinemem with hinitmem | rfl
      · simp [hinit t hinitmem] at hends
      · omega
    · obtain ⟨hge, hlt, -⟩ := hback.bounds hbackmem
      omega
  · intro t ht hge hlt
    rcases hmem t ht with hfrontmem | hlinemem | hbackmem
    · obtain ⟨-, hlt', hle⟩ := hfront.bounds hfrontmem
      omega
    · exact hlinemem
    · have := (hback.bounds hbackmem).1
      omega

/-- Whether tokens stand alone can be read off the source and the tags that are left. -/
theorem standsAlone_iff {front text : List Char} {line : List Token}
    (hline : LiesOn cs raw line front text) :
    standsAlone line = true ↔ StandaloneLine cs (settle raw) (Text.byteLength front)
      (Text.byteLength front + Text.byteLength text) := by
  obtain ⟨htiling, -, hlogical, hsub, hall⟩ := hline
  have hbounds : ∀ t ∈ line, Text.byteLength front ≤ t.start ∧
      t.start < Text.byteLength front + Text.byteLength text := by
    intro t ht
    obtain ⟨hge, hlt, hle⟩ := htiling.bounds ht
    omega
  simp only [standsAlone, Bool.and_eq_true, List.any_eq_true, List.all_eq_true, Bool.not_eq_true']
  constructor
  · rintro ⟨⟨t, ht, htag⟩, halone⟩
    refine ⟨(logicalLine_settle_iff h).mpr hlogical, ?_, ?_, ?_⟩
    · exact (exists_tag_settle_iff h fun _ => Iff.rfl).mpr ⟨t, hsub t ht, htag, hbounds t ht⟩
    · intro u hu hge hlt
      have := halone _ (hall u.bare (bare_mem_of_mem_settle h hu) hge hlt)
      change (if u.isText then _ else u.kind.canStandAlone) = true at this
      split at this
      · rename_i htext
        simp only [isText, decide_eq_true_eq] at htext
        simp [htext]
      · constructor <;> rintro hkind <;> simp [hkind, TokenKind.canStandAlone] at this
    · intro i c hge hlt hi hc
      rw [inTag_settle_iff h] at hi
      obtain ⟨u, hu, hustart, hustop⟩ := htiling.exists_covers hge hlt
      obtain ⟨v, hv, hvtext, hvstart, hvstop, pre, post, hvalue, -⟩ :=
        exists_text_of_not_inTag h hi hc
      obtain rfl := h.eq_of_covers (hsub u hu) hv hustart hustop hvstart hvstop
      have := halone u hu
      simp only [hvtext, if_true, isBlankText, Text.isBlank, Bool.true_and, hvalue,
        List.all_append, List.all_cons, Bool.and_eq_true] at this
      exact this.2.1
  · intro hstand
    constructor
    · obtain ⟨t, ht, htag, hge, hlt⟩ :=
        (exists_tag_settle_iff h (P := fun t => Text.byteLength front ≤ t.start ∧
          t.start < Text.byteLength front + Text.byteLength text) fun _ => Iff.rfl).mp hstand.tag
      exact ⟨t, hall t ht hge hlt, htag⟩
    · intro t ht
      obtain ⟨hge, hlt⟩ := hbounds t ht
      cases htext : t.isText with
      | true =>
        simp only [if_true, isBlankText, htext, Bool.true_and, Text.isBlank, List.all_eq_true]
        intro c hc
        obtain ⟨pre, post, hvalue⟩ := List.append_of_mem hc
        obtain ⟨hstop, hchar, hout⟩ := exists_byte_of_mem_text h (hsub t ht) htext hvalue
        have := (htiling.bounds ht).2.2
        exact hstand.blank _ c (by omega) (by omega) (by rwa [inTag_settle_iff h]) hchar
      | false =>
        obtain ⟨u, hu, rfl⟩ := exists_mem_settle h (hsub t ht) htext
        obtain ⟨hescaped, hunescaped⟩ := hstand.structural u hu hge hlt
        simp only [Bool.false_eq_true, if_false]
        simp only [bare, isText] at htext ⊢
        cases hkind : u.kind <;> simp_all [TokenKind.canStandAlone]

/-! ### Nothing is lost -/

/-- The line of a byte. -/
theorem LiesOn.eq_of_standaloneLine {front text : List Char} {line : List Token} {a b i : Nat}
    (hline : LiesOn cs raw line front text) (hstand : StandaloneLine cs (settle raw) a b)
    (ha : a ≤ i) (hb : i < b) (hfront : Text.byteLength front ≤ i)
    (htext : i < Text.byteLength front + Text.byteLength text) :
    standsAlone line = true ∧ a = Text.byteLength front ∧
      b = Text.byteLength front + Text.byteLength text := by
  obtain ⟨rfl, rfl⟩ := ((logicalLine_settle_iff h).mp hstand.toLogicalLine).unique hline.logical
    ha hb hfront htext
  exact ⟨(standsAlone_iff h hline).mpr hstand, rfl, rfl⟩

/-- The indent of a tag is the text in front of it. -/
theorem LiesOn.exists_gap {front text : List Char} {before after : List Token} {t : Token}
    (hline : LiesOn cs raw (before ++ t :: after) front text) :
    ∃ p gap, GapBefore (settle raw) (Text.byteLength front) p t.start ∧
      Text.sliceBytes? p t.start cs = some gap ∧ trailing "" before = String.ofList gap := by
  obtain ⟨htiling, ⟨back, rfl⟩, -, hsub, -⟩ := hline
  obtain ⟨as, bs, rfl, has, hbs⟩ := Tiling.append_iff.mp htiling
  obtain ⟨prev, gap, rfl, hgap, hprev, htags⟩ := has.trailing_eq
  cases hbs with
  | @cons _ _ lexeme rest _ hfits _ =>
    have hstart := hfits.start_eq
    rw [Text.byteLength_append] at hstart
    refine ⟨Text.byteLength front + Text.byteLength prev, gap, ⟨?_, by omega, ?_⟩, ?_, hgap⟩
    · rcases hprev with rfl | ⟨u, hu, hutag, hustop⟩
      · exact .inl rfl
      · obtain ⟨v, hv, rfl⟩ := exists_mem_settle h (hsub u (by simp [hu])) hutag
        exact .inr ⟨v, hv, hutag, (has.bounds hu).1, hustop⟩
    · intro i hi hlt hin
      obtain ⟨u, hu, hutag, hustart, hustop⟩ := (inTag_settle_iff h).mp hin
      obtain ⟨v, hv, hvstart, hvstop⟩ := has.exists_covers (i := i) (by omega)
        (by rw [Text.byteLength_append]; omega)
      obtain rfl := h.eq_of_covers hu (hsub v (by simp [hv])) hustart hustop hvstart hvstop
      have := htags u hv hutag
      omega
    · have := Text.sliceBytes?_append (front ++ prev) gap (lexeme ++ rest ++ back)
      rw [Text.byteLength_append, ← hstart.trans (Nat.add_assoc _ _ _).symm] at this
      simpa [List.append_assoc] using this

/-- **Settling loses nothing but the white space of lines that stand alone.** -/
theorem lossless_settle : Lossless cs (settle raw) where
  within t ht := by
    have := h.bounds (bare_mem_of_mem_settle h ht)
    rw [Nat.zero_add] at this
    exact this.2
  ordered := by
    have hraw : (raw.map span).Pairwise fun p q => p.2 ≤ q.1 := List.pairwise_map.mpr h.pairwise
    exact List.pairwise_map.mp (hraw.sublist (settle_span_sublist raw))
  text t ht htext := by
    obtain ⟨before, lexeme, after, rfl, hfits⟩ := h.exists_fits (bare_mem_of_mem_settle h ht)
    have hslice := Text.sliceBytes?_append before lexeme after
    rw [← Nat.zero_add (Text.byteLength before), ← hfits.stop_eq, ← hfits.start_eq] at hslice
    rw [← hfits.toList_value htext] at hslice ⊢
    exact hslice
  tag t ht htag := by
    obtain ⟨before, lexeme, after, rfl, hfits⟩ := h.exists_fits (bare_mem_of_mem_settle h ht)
    have hslice := Text.sliceBytes?_append before lexeme after
    rw [← Nat.zero_add (Text.byteLength before), ← hfits.stop_eq, ← hfits.start_eq] at hslice
    exact ⟨lexeme, hslice, hfits.opening_isPrefix htag⟩
  dropped i hi hout := by
    obtain ⟨t, ht, hstart, hstop⟩ := h.exists_covers (Nat.zero_le i) (by simpa using hi)
    have hmem := ht
    rw [← flatten_splitLines raw] at hmem
    obtain ⟨line, hline, hmem⟩ := List.mem_flatten.mp hmem
    obtain ⟨before, after, hsplit⟩ := List.append_of_mem hline
    obtain ⟨front, text, hlies⟩ := exists_liesOn h hsplit
    have halone : standsAlone line = true := by
      by_contra hnot
      exact hout t (mem_settle.mpr ⟨before, line, after, hsplit, .inl ⟨by simpa using hnot, hmem⟩⟩)
        ⟨hstart, hstop⟩
    have hstand := (standsAlone_iff h hlies).mp halone
    obtain ⟨hge, -, hle⟩ := hlies.tiling.bounds hmem
    obtain ⟨c, hc⟩ := Text.exists_charAtByte? hi
    have hin : ¬ InTag (settle raw) i := fun ⟨u, hu, _, hcovers⟩ => hout u hu hcovers
    exact ⟨⟨c, hc, hstand.blank i c (by omega) (by omega) hin hc⟩, _, _, hstand, by omega, by omega⟩
  kept a b hstand t ht htext := by
    obtain ⟨before, line, after, hsplit, hmem, ⟨hnot, -⟩ | ⟨-, htag, -⟩⟩ :=
      exists_line_of_mem_settle h ht
    · by_contra hover
      obtain ⟨front, text, hlies⟩ := exists_liesOn h hsplit
      obtain ⟨hge, hlt, hle⟩ := hlies.tiling.bounds hmem
      change Text.byteLength front ≤ t.start at hge
      change t.start < t.stop at hlt
      change t.stop ≤ _ at hle
      have hab := hstand.lt
      -- a byte that the text and the standalone line have in common
      obtain ⟨halone, -⟩ := hlies.eq_of_standaloneLine h (i := max a t.start) hstand (by omega)
        (by omega) (by omega) (by omega)
      simp [hnot] at halone
    · simp [htag] at htext
  indent a b hstand t ht hge hlt hpulls := by
    obtain ⟨before, line, after, hsplit, hmem, hcase⟩ := exists_line_of_mem_settle h ht
    obtain ⟨front, text, hlies⟩ := exists_liesOn h hsplit
    obtain ⟨hge', hlt', hle'⟩ := hlies.tiling.bounds hmem
    obtain ⟨halone, rfl, rfl⟩ := hlies.eq_of_standaloneLine h (i := t.start) hstand hge hlt hge'
      (Nat.lt_of_lt_of_le hlt' hle')
    rcases hcase with ⟨hnot, -⟩ | ⟨-, -, fr, bk, rfl, hindent⟩
    · simp [hnot] at halone
    · obtain ⟨p, gap, hgap, hslice, htrailing⟩ := hlies.exists_gap h
      rw [if_pos (pullsIn_iff.mp hpulls), htrailing] at hindent
      exact ⟨p, gap, hgap, hslice, hindent⟩
  noIndent t ht hnot := by
    obtain ⟨before, line, after, hsplit, hmem, ⟨-, hindent⟩ | ⟨halone, -, fr, bk, -, hindent⟩⟩ :=
      exists_line_of_mem_settle h ht
    · exact hindent
    · obtain ⟨front, text, hlies⟩ := exists_liesOn h hsplit
      obtain ⟨hge, hlt, hle⟩ := hlies.tiling.bounds hmem
      have hpulls : ¬ t.kind.takesIndent = true := fun htakes =>
        hnot ⟨_, _, (standsAlone_iff h hlies).mp halone, hge, Nat.lt_of_lt_of_le hlt hle,
          pullsIn_iff.mpr htakes⟩
      rw [if_neg hpulls] at hindent
      exact hindent

end

/-- **Scanning loses nothing but the white space of lines that stand alone.** -/
theorem scan_lossless {d : Delimiters} {source : String} {ts : List Token}
    (h : scan d source = .ok ts) : Lossless source.toList ts := by
  unfold scan at h
  split at h
  · rename_i raw hpieces
    obtain rfl := Except.ok.inj h
    exact lossless_settle (tiling_of_pieces hpieces)
  · simp at h

/-- A comment that spans a newline, and a partial with its indent, share a standalone line. -/
theorem scan_lossless_comment_partial :
    scan Delimiters.standard "é\n \x7b\x7b! x\ny \x7d\x7d  \x7b\x7b> p \x7d\x7d\nz" = .ok
      [⟨.text, "é\n", 1, 0, 3, Delimiters.standard, none⟩,
        ⟨.comment, " x\ny ", 2, 4, 14, Delimiters.standard, none⟩,
        ⟨.partialTag, "p", 3, 16, 24, Delimiters.standard, some "  "⟩,
        ⟨.text, "z", 4, 25, 26, Delimiters.standard, none⟩] ∧
    Lossless "é\n \x7b\x7b! x\ny \x7d\x7d  \x7b\x7b> p \x7d\x7d\nz".toList
      [⟨.text, "é\n", 1, 0, 3, Delimiters.standard, none⟩,
        ⟨.comment, " x\ny ", 2, 4, 14, Delimiters.standard, none⟩,
        ⟨.partialTag, "p", 3, 16, 24, Delimiters.standard, some "  "⟩,
        ⟨.text, "z", 4, 25, 26, Delimiters.standard, none⟩] :=
  ⟨by decide +kernel, scan_lossless (d := Delimiters.standard) (by decide +kernel)⟩

end Mustache.Token
