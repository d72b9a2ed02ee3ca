import Mustache.Proofs.Text.Line
import Mustache.Proofs.Token.Placed

/-!
Sources with an indent in front of each line. Where no tag spans a line break, such a source falls
into the tokens of the source without the indents, but for an indent in front of each line of them:
a text that the line begins with takes it in, and in front of a tag it is a text of its own. Of the
tags that stand alone, those of partials have it as their indent. Main statement:
`settle_of_indentLines`.
-/

namespace Mustache

/-! ### Texts -/

namespace Text

/-- The text with an indent in front of each of its lines. -/
def indentLines (w cs : List Char) : List Char := (splitLines cs).flatMap (w ++ ·)

/-- The rest of a text that gets an indent in front of each line, from the beginning of a line or
from within one. -/
def indentFrom (w : List Char) : (lineStart : Bool) → List Char → List Char
  | _, [] => []
  | lineStart, c :: cs => (if lineStart then w else []) ++ c :: indentFrom w (c == '\n') cs

variable {w : List Char}

theorem indentFrom_eq (w cs : List Char) : indentFrom w true cs = indentLines w cs ∧
    indentFrom w false cs = match splitLines cs with
      | [] => []
      | l :: ls => l ++ ls.flatMap (w ++ ·) := by
  induction cs with
  | nil => exact ⟨rfl, rfl⟩
  | cons c cs ih =>
    obtain ⟨hstart, hwithin⟩ := ih
    unfold indentLines at hstart ⊢
    by_cases hc : c = '\n'
    · simp [indentFrom, splitLines, hc, hstart]
    · simp only [indentFrom, splitLines, hc, beq_eq_false_iff_ne.mpr hc, hwithin]
      cases splitLines cs <;> simp

theorem indentFrom_cons_append (w : List Char) (lineStart : Bool) {cs : List Char} (h : cs ≠ []) :
    indentFrom w lineStart cs = (if lineStart then w else []) ++ indentFrom w false cs := by
  cases cs with
  | nil => exact absurd rfl h
  | cons c cs => simp [indentFrom]

/-- Within a line nothing is put in front of anything. -/
theorem indentFrom_append_of_notMem {cs : List Char} (h : '\n' ∉ cs) (rest : List Char) :
    indentFrom w false (cs ++ rest) = cs ++ indentFrom w false rest := by
  induction cs with
  | nil => rfl
  | cons c cs ih =>
    rw [List.mem_cons, not_or] at h
    rw [List.cons_append, indentFrom, beq_eq_false_iff_ne.mpr (Ne.symm h.1), ih h.2]
    rfl

end Text

namespace Token

open Text (indentFrom indentLines)

section

variable {w opening : List Char}

theorem isPrefixOf_indentFrom (h : '\n' ∉ opening) (cs : List Char) :
    opening.isPrefixOf (indentFrom w false cs) = opening.isPrefixOf cs := by
  induction opening generalizing cs with
  | nil => simp
  | cons o opening ih =>
    rw [List.mem_cons, not_or] at h
    cases cs with
    | nil => rfl
    | cons c cs =>
      by_cases hc : c = '\n'
      · simp [indentFrom, List.isPrefixOf, hc, beq_eq_false_iff_ne.mpr (Ne.symm h.1)]
      · simp [indentFrom, List.isPrefixOf, beq_eq_false_iff_ne.mpr hc, ih h.2]

theorem standsAt_indentFrom (h : '\n' ∉ opening) (cs : List Char) :
    standsAt opening (indentFrom w false cs) = standsAt opening cs := by
  rw [standsAt, standsAt, isPrefixOf_indentFrom h]

/-- From within a line a text is the same up to the end of the line. -/
theorem takeText_indentFrom (h : '\n' ∉ opening) (cs : List Char) :
    takeText opening (indentFrom w false cs) = ((takeText opening cs).1,
      indentFrom w ((takeText opening cs).1.getLast? == some '\n') (takeText opening cs).2) := by
  induction cs with
  | nil => rfl
  | cons c cs ih =>
    have hstands := standsAt_indentFrom (w := w) h (c :: cs)
    rw [indentFrom] at hstands ⊢
    simp only [Bool.false_eq_true, if_false, List.nil_append] at hstands ⊢
    rw [takeText, takeText, hstands]
    split
    · simp [indentFrom]
    · by_cases hc : c = '\n'
      · simp [hc]
      · rw [if_neg hc, if_neg hc, beq_eq_false_iff_ne.mpr hc, ih]
        generalize takeText opening cs = taken
        obtain ⟨text, rest⟩ := taken
        cases text with
        | nil => simp [beq_eq_false_iff_ne.mpr hc]
        | cons b bs => simp

theorem takeText_of_standsAt {cs : List Char} (h : standsAt opening cs = true) :
    takeText opening cs = ([], cs) := by
  cases cs with
  | nil => rfl
  | cons c cs => rw [takeText, if_pos h]

/-- Text that the delimiter cannot begin in runs on. -/
theorem takeText_append_of_notMem (hopening : ∀ o ∈ opening.head?, o ∉ w) (hw : '\n' ∉ w)
    (cs : List Char) :
    takeText opening (w ++ cs) = (w ++ (takeText opening cs).1, (takeText opening cs).2) := by
  induction w with
  | nil => rfl
  | cons c w ih =>
    rw [List.mem_cons, not_or] at hw
    have hstands : standsAt opening (c :: (w ++ cs)) = false := by
      cases opening with
      | nil => rfl
      | cons o opening =>
        have hne : o ≠ c := fun heq => hopening o rfl (heq ▸ List.mem_cons_self)
        simp [standsAt, List.isPrefixOf, hne]
    rw [List.cons_append, takeText, hstands, if_neg Bool.false_ne_true, if_neg (Ne.symm hw.1),
      ih (fun o ho hmem => hopening o ho (List.mem_cons_of_mem c hmem)) hw.2]
    rfl

end

/-! ### Tokens -/

/-- The token, wherever it stands. -/
def anywhere (t : Token) : Token := { t with start := 0, stop := 0 }

/-- An indent in front of a tag. -/
def margin (w : String) (t : Token) : Token where
  kind := .text
  value := w
  line := t.line
  start := t.start
  stop := t.start
  delimiters := t.delimiters
  indent := none

/-- Tokens with an indent in front. A text takes it in. -/
def indentLine (w : String) : List Token → List Token
  | [] => []
  | t :: ts => if t.isText then { t with value := w ++ t.value } :: ts else t.margin w :: t :: ts

/-- The rest of some tokens that get an indent in front of each line, from the beginning of a line
or from within one. -/
def indentTokens (w : String) : (lineStart : Bool) → List Token → List Token
  | _, [] => []
  | lineStart, t :: ts =>
    (if lineStart then indentLine w [t] else [t]) ++ indentTokens w t.endsLine ts

/-- No newline is in a tag, of those that lie on a text that begins at byte `n`. -/
def TagsWithinLines (n : Nat) (cs : List Char) (ts : List Token) : Prop :=
  ∀ t ∈ ts, t.isText = false → ∀ before lexeme after, cs = before ++ lexeme ++ after →
    t.Fits (n + Text.byteLength before) lexeme → '\n' ∉ lexeme

theorem tagsWithinLines_of_slices {cs : List Char} {ts : List Token}
    (h : ∀ t ∈ ts, t.isText = false →
      ∀ lexeme ∈ Text.sliceBytes? t.start t.stop cs, '\n' ∉ lexeme) : TagsWithinLines 0 cs ts := by
  rintro t ht htag before lexeme after rfl hfits
  refine h t ht htag lexeme ?_
  rw [hfits.stop_eq, hfits.start_eq, Nat.zero_add]
  exact Text.sliceBytes?_append before lexeme after

theorem TagsWithinLines.tail {n : Nat} {lexeme rest : List Char} {t : Token} {ts : List Token}
    (h : TagsWithinLines n (lexeme ++ rest) (t :: ts)) :
    TagsWithinLines (n + Text.byteLength lexeme) rest ts := by
  rintro u hu hutag before front after rfl hfits
  refine h u (List.mem_cons_of_mem t hu) hutag (lexeme ++ before) front after (by simp) ?_
  rw [Text.byteLength_append, ← Nat.add_assoc]
  exact hfits

/-- An indent: spaces and tabs. -/
structure IsIndent (w : List Char) : Prop where
  ne_nil : w ≠ []
  blank : ∀ c ∈ w, c = ' ' ∨ c = '\t'

theorem IsIndent.newline_notMem {w : List Char} (h : IsIndent w) : '\n' ∉ w := by
  intro hmem
  rcases h.blank _ hmem with h | h <;> cases h

theorem IsIndent.isSpace {w : List Char} (h : IsIndent w) : ∀ c ∈ w, Text.isSpace c = true := by
  intro c hc
  rcases h.blank c hc with rfl | rfl <;> decide

section

variable {w : List Char} {d : Delimiters} (hw : IsIndent w)

include hw

theorem head_notMem_indent (hd : d.Writable) : ∀ o ∈ d.opening.toList.head?, o ∉ w := by
  intro o ho hmem
  have hdark := hd.halves.1.dark o (List.mem_of_mem_head? ho)
  rw [hw.isSpace o hmem] at hdark
  cases hdark

theorem takeText_indent (hd : d.Writable) (cs : List Char) :
    takeText d.opening.toList (w ++ cs) =
      (w ++ (takeText d.opening.toList cs).1, (takeText d.opening.toList cs).2) :=
  takeText_append_of_notMem (head_notMem_indent hw hd) hw.newline_notMem cs

/-- **The tokens of a source with an indent in front of each line** are those of the source with an
indent in front of each line of them, at other places. -/
theorem pieces_indentFrom (hd : d.Writable) {p : Place} {cs : List Char}
    {r : Except Fault (List Token)} (h : Scans d p cs r) {ts : List Token} (hr : r = .ok ts)
    (htags : TagsWithinLines p.offset cs ts) (k : Nat) (lineStart : Bool) :
    ∃ us, pieces d (p.moved k 0) (indentFrom w lineStart cs) = .ok us ∧
      us.map anywhere = (indentTokens (String.ofList w) lineStart ts).map anywhere := by
  induction h generalizing ts k lineStart with
  | nil d p =>
    obtain rfl := Except.ok.inj hr
    exact ⟨[], by rw [indentFrom, pieces], rfl⟩
  | @text d p text rest r hne htake hscans ih =>
    obtain ⟨us, rfl, rfl⟩ := exists_of_map_eq_ok hr
    have htext := takeText_indentFrom (w := w) hd.singleLine.newline_notMem_opening (text ++ rest)
    rw [htake] at htext
    have hindented : takeText d.opening.toList (indentFrom w lineStart (text ++ rest)) =
        ((if lineStart then w else []) ++ text,
          indentFrom w (text.getLast? == some '\n') rest) := by
      rw [Text.indentFrom_cons_append w lineStart (List.append_ne_nil_of_left_ne_nil hne rest)]
      cases lineStart with
      | false => exact htext
      | true =>
        refine (takeText_indent hw hd _).trans ?_
        rw [htext]
        rfl
    have hfront : Text.newlines (if lineStart then w else []) = 0 := by
      cases lineStart with
      | false => rfl
      | true => exact Text.newlines_eq_zero hw.newline_notMem
    have hplace : (p.moved k 0).advance ((if lineStart then w else []) ++ text) =
        (p.advance text).moved (k + Text.byteLength (if lineStart then w else [])) 0 := by
      simp only [Place.moved, Place.advance, Text.byteLength_append, Text.newlines_append, hfront,
        Place.mk.injEq]
      omega
    obtain ⟨us', hus, hsame⟩ := ih hd rfl htags.tail
      (k + Text.byteLength (if lineStart then w else [])) (text.getLast? == some '\n')
    rw [pieces_of_takeText (List.append_ne_nil_of_right_ne_nil _ hne) hindented, hplace, hus]
    refine ⟨_, rfl, ?_⟩
    have hends : (ofText d p text).endsLine = (text.getLast? == some '\n') := by
      simp [endsLine, isText, ofText]
    rw [List.map_cons, hsame, indentTokens, hends, List.map_append]
    cases lineStart <;> simp [indentLine, ofText, anywhere, isText, Place.moved]
  | @tag d p tag r hfront hread hscans ih =>
    obtain ⟨us, rfl, rfl⟩ := exists_of_map_eq_ok hr
    have hopening := hfront.trans (List.prefix_append tag.lexeme tag.rest)
    have hstands : ∀ more, standsAt d.opening.toList (tag.lexeme ++ more) = true := fun more =>
      standsAt_of_isPrefix hd.singleLine.opening_ne_nil (hfront.trans (List.prefix_append _ more))
    obtain ⟨hkind, -, -, hdelimiters, -, -⟩ := readTag_token hread
    obtain ⟨hnext, -, hthrough⟩ := next_of_readTag hd.singleLine hopening hread
    have hnewline : '\n' ∉ tag.lexeme :=
      htags tag.token List.mem_cons_self hkind [] tag.lexeme tag.rest rfl
        (fits_tag (hstands tag.rest) hread)
    have htag : ∀ k, ∃ us', pieces d (p.moved k 0) (tag.lexeme ++ indentFrom w false tag.rest) =
        .ok (tag.token.moved k 0 :: us') ∧
        us'.map anywhere = (indentTokens (String.ofList w) false us).map anywhere := by
      intro k
      obtain ⟨us', hus, hsame⟩ := ih (hd.through _) rfl htags.tail k false
      refine ⟨us', ?_, hsame⟩
      have hmoved := readTag_moved k 0 d p (tag.lexeme ++ indentFrom w false tag.rest)
      rw [readTag_behind hd.singleLine.closing_ne_nil hopening hread] at hmoved
      rw [pieces_of_readTag (hstands _), hmoved]
      change (pieces tag.delimiters (tag.next.moved k 0) (indentFrom w false tag.rest)).map _ = _
      rw [hthrough, hnext, hus]
      rfl
    have hends : tag.token.endsLine = false := by
      rw [endsLine, hkind]
      rfl
    have hlexeme : tag.lexeme ≠ [] := fun hnil => by
      rw [hnil, List.prefix_nil] at hfront
      exact hd.singleLine.opening_ne_nil hfront
    rw [indentTokens, hends]
    cases lineStart with
    | false =>
      obtain ⟨us', hus, hsame⟩ := htag k
      rw [Text.indentFrom_append_of_notMem hnewline]
      refine ⟨_, hus, ?_⟩
      rw [List.map_cons, hsame]
      rfl
    | true =>
      obtain ⟨us', hus, hsame⟩ := htag (k + Text.byteLength w)
      rw [Text.indentFrom_cons_append w true (List.append_ne_nil_of_left_ne_nil hlexeme _),
        Text.indentFrom_append_of_notMem hnewline]
      have htake := takeText_indent hw hd (tag.lexeme ++ indentFrom w false tag.rest)
      rw [takeText_of_standsAt (hstands _), List.append_nil] at htake
      have hplace : (p.moved k 0).advance w = p.moved (k + Text.byteLength w) 0 := by
        simp only [Place.moved, Place.advance, Text.newlines_eq_zero hw.newline_notMem,
          Nat.add_assoc]
      rw [if_pos rfl, pieces_of_takeText hw.ne_nil htake, hplace, hus]
      refine ⟨_, rfl, ?_⟩
      simp [hsame, indentLine, hkind, anywhere, margin, moved, Place.moved,
        line_of_readTag hread, hdelimiters]
  | fault hfront hread => cases hr

end

/-! ### Lines -/

section

variable {w : String}

theorem getLast?_ne_newline (hw : IsIndent w.toList) : w.toList.getLast? ≠ some '\n' :=
  fun h => hw.newline_notMem (List.mem_of_getLast? h)

theorem endsLine_indented (hw : IsIndent w.toList) (t : Token) :
    endsLine { t with value := w ++ t.value } = t.endsLine := by
  unfold endsLine
  rw [String.toList_append, List.getLast?_append]
  cases h : t.value.toList.getLast? with
  | none => simpa using fun _ => getLast?_ne_newline hw
  | some c => rfl

theorem endsLine_margin (hw : IsIndent w.toList) (t : Token) : (t.margin w).endsLine = false := by
  simp [endsLine, margin, getLast?_ne_newline hw]

theorem splitLines_cons_of_within {t : Token} (h : t.endsLine = false) (ts : List Token) :
    splitLines (t :: ts) = match splitLines ts with
      | [] => [[t]]
      | l :: ls => (t :: l) :: ls := by
  rw [splitLines]
  exact if_neg (Bool.eq_false_iff.mp h)

/-- The lines of tokens with an indent in front of each line are their lines with the indent in
front. -/
theorem splitLines_indentTokens (hw : IsIndent w.toList) (ts : List Token) :
    splitLines (indentTokens w true ts) = (splitLines ts).map (indentLine w) ∧
      splitLines (indentTokens w false ts) = match splitLines ts with
        | [] => []
        | l :: ls => l :: ls.map (indentLine w) := by
  induction ts with
  | nil => exact ⟨rfl, rfl⟩
  | cons t ts ih =>
    obtain ⟨hstart, hwithin⟩ := ih
    have hindented := endsLine_indented hw t
    cases hends : t.endsLine with
    | true =>
      have htext : t.isText = true := (Bool.and_eq_true_iff.mp hends).1
      rw [hends] at hindented
      simp [indentTokens, indentLine, splitLines, htext, hends, hindented, hstart]
    | false =>
      rw [hends] at hindented
      have hline : splitLines (t :: indentTokens w false ts) = match splitLines ts with
          | [] => [[t]]
          | l :: ls => (t :: l) :: ls.map (indentLine w) := by
        rw [splitLines_cons_of_within hends, hwithin]
        cases splitLines ts <;> rfl
      rw [indentTokens, indentTokens, hends, splitLines_cons_of_within hends]
      refine ⟨?_, ?_⟩
      · cases htext : t.isText with
        | true =>
          rw [if_pos rfl, indentLine, if_pos htext, List.singleton_append,
            splitLines_cons_of_within hindented, hwithin]
          cases splitLines ts <;> simp [indentLine, htext]
        | false =>
          rw [if_pos rfl, indentLine, htext, if_neg Bool.false_ne_true, List.cons_append,
            List.singleton_append, splitLines_cons_of_within (endsLine_margin hw t), hline]
          cases splitLines ts <;> simp [indentLine, htext]
      · rw [if_neg Bool.false_ne_true, List.singleton_append, hline]
        cases splitLines ts <;> rfl

/-- What is left of a line with an indent in front. A tag that takes an indent has it too. -/
def settleIndented (w : String) (line : List Token) : List Token :=
  if standsAlone line then dropTexts w line else indentLine w line

theorem standsAlone_indentLine (hw : IsIndent w.toList) (line : List Token) :
    standsAlone (indentLine w line) = standsAlone line := by
  cases line with
  | nil => rfl
  | cons t ts =>
    have hblank : Text.isBlank w.toList = true := List.all_eq_true.mpr hw.isSpace
    rw [indentLine]
    cases htext : t.isText with
    | true =>
      have hboth : isBlankText { t with value := w ++ t.value } = t.isBlankText := by
        unfold Text.isBlank at hblank
        simp [isBlankText, Text.isBlank, isText, hblank]
      rw [if_pos rfl, standsAlone, standsAlone, List.any_cons, List.any_cons, List.all_cons,
        List.all_cons, hboth]
      rfl
    | false =>
      have hmargin : (t.margin w).isBlankText = true := by
        simpa [isBlankText, isText, margin] using hblank
      rw [if_neg Bool.false_ne_true, standsAlone, standsAlone, List.any_cons, List.all_cons,
        hmargin]
      rfl

theorem dropTexts_indentLine (w : String) (line : List Token) :
    dropTexts "" (indentLine w line) = dropTexts w line := by
  cases line with
  | nil => rfl
  | cons t ts =>
    rw [indentLine]
    cases htext : t.isText with
    | true =>
      have hindented : isText { t with value := w ++ t.value } = true := htext
      rw [if_pos rfl, dropTexts, dropTexts, if_pos hindented, if_pos htext, String.empty_append]
    | false =>
      have hmargin : (t.margin w).isText = true := rfl
      rw [if_neg Bool.false_ne_true, dropTexts, if_pos hmargin, String.empty_append]
      rfl

theorem settle_indentTokens (hw : IsIndent w.toList) (ts : List Token) :
    settle (indentTokens w true ts) = (splitLines ts).flatMap (settleIndented w) := by
  rw [settle, (splitLines_indentTokens hw ts).1, List.flatMap_map]
  congr 1
  funext line
  rw [settleLine, settleIndented, standsAlone_indentLine hw, dropTexts_indentLine]

theorem relocates_anywhere : Relocates anywhere := ⟨fun _ => rfl, fun _ => rfl, fun _ _ => rfl⟩

/-- **What a source with an indent in front of each line comes to**, line by line. -/
theorem settle_of_indentLines (hw : IsIndent w.toList) {d : Delimiters} (hd : d.Writable)
    {cs : List Char} {ts : List Token} (hts : pieces d ⟨0, 1⟩ cs = .ok ts)
    (htags : TagsWithinLines 0 cs ts) :
    ∃ us, pieces d ⟨0, 1⟩ (indentLines w.toList cs) = .ok us ∧
      (settle us).map anywhere = ((splitLines ts).flatMap (settleIndented w)).map anywhere := by
  have hscans := scans_pieces hd.singleLine ⟨0, 1⟩ cs
  obtain ⟨us, hus, hsame⟩ := pieces_indentFrom hw hd hscans hts htags 0 true
  refine ⟨us, ?_, ?_⟩
  · rw [← hus, (Text.indentFrom_eq _ _).1]
    rfl
  · rw [← relocates_anywhere.settle_map, hsame, relocates_anywhere.settle_map, String.ofList_toList,
      settle_indentTokens hw]

end

/-! ### Standalone partials -/

/-- A tag that includes a partial, with an indent in front. -/
def standalonePartial (d : Delimiters) (w name : String) : String :=
  w ++ (d.opening ++ "> " ++ name ++ d.closing)

/-- A name that a tag can hold. -/
structure IsTagName (d : Delimiters) (name : String) : Prop where
  tight : Text.Tight name.toList
  closing_notMem : ∀ c ∈ d.closing.toList.head?, c ∉ name.toList

/-- In front of a partial tag an indent is no text, but the indent of the tag. -/
theorem settle_partialTag {w : String} (hw : IsIndent w.toList) {u t : Token} (hkind : t.kind = .partialTag)
    (htext : u.kind = .text) (hvalue : u.value = w) :
    settle [u, t] = [{ t with indent := some w }] := by
  have hblank : Text.isBlank w.toList = true := List.all_eq_true.mpr hw.isSpace
  have hends : u.endsLine = false := by
    simp [endsLine, hvalue, getLast?_ne_newline hw]
  have hlines : splitLines [u, t] = [[u, t]] := by
    rw [splitLines_cons_of_within hends, show splitLines [t] = [[t]] by simp [splitLines]]
  rw [settle, hlines]
  simp [settleLine, standsAlone, isBlankText, isText, TokenKind.canStandAlone, dropTexts, hvalue,
    hblank, htext, hkind, TokenKind.takesIndent]

section

variable {d : Delimiters} (hd : d.Writable) {w name : String}

include hd

/-- A partial tag with a blank in front of its name is read. -/
theorem pieces_partialTag (hname : IsTagName d name) (p : Place) :
    ∃ stop, pieces d p (d.opening ++ "> " ++ name ++ d.closing).toList =
      .ok [⟨.partialTag, name, p.line, p.offset, stop, d, none⟩] := by
  let sigil : Sigil := ⟨.partialTag, ['>'], false⟩
  have htag : (d.opening ++ "> " ++ name ++ d.closing).toList =
      written d sigil (' ' :: name.toList) := by
    simp [written, sigil, closingOf]
  have hcut : Text.cutAt? d.closing.toList (' ' :: name.toList ++ (d.closing.toList ++ [])) =
      some (' ' :: name.toList, []) := by
    obtain ⟨c, rest, hrest⟩ := List.exists_cons_of_ne_nil hd.halves.2.ne_nil
    rw [hrest]
    refine Text.cutAt?_of_notMem (fun hmem => ?_) rest []
    rcases List.mem_cons.mp hmem with rfl | hmem
    · cases hd.halves.2.dark ' ' (by simp [hrest])
    · exact hname.closing_notMem c (by simp [hrest]) hmem
  have hcontent : contentOf d sigil (' ' :: name.toList) [] = .ok ⟨name.toList, d, [], []⟩ := by
    have htrim : Text.trim (' ' :: name.toList) = Text.trim name.toList := rfl
    simp [contentOf, sigil, htrim, hname.tight.trim_eq]
  have hsigil : sigilOf (sigil.mark ++ (' ' :: name.toList ++ (d.closing.toList ++ []))) =
      sigil := by
    simp [sigil, sigilOf, TokenKind.ofSigil?]
  have hclosing : closingOf d sigil.kind = d.closing.toList := if_neg (by decide)
  rw [← hclosing] at hsigil hcut
  have hread := pieces_written (p := p) hd.halves.1.ne_nil hsigil hcut hcontent
  rw [List.append_nil, String.ofList_toList, pieces] at hread
  exact ⟨_, htag ▸ hread⟩

theorem scan_standalonePartial (hw : IsIndent w.toList) (hname : IsTagName d name) :
    ∃ start stop, scan d (standalonePartial d w name) =
      .ok [⟨.partialTag, name, 1, start, stop, d, some w⟩] := by
  let p := (⟨0, 1⟩ : Place).advance w.toList
  obtain ⟨stop, htag⟩ := pieces_partialTag hd hname p
  have hstands :
      standsAt d.opening.toList (d.opening ++ "> " ++ name ++ d.closing).toList = true := by
    simpa using standsAt_append hd.halves.1.ne_nil _
  have htake := takeText_indent hw hd (d.opening ++ "> " ++ name ++ d.closing).toList
  rw [takeText_of_standsAt hstands, List.append_nil] at htake
  have hpieces := pieces_of_takeText (p := ⟨0, 1⟩) hw.ne_nil htake
  rw [htag, ← String.toList_append, String.ofList_toList] at hpieces
  have hline : p.line = 1 := by
    simp [p, Place.advance, Text.newlines_eq_zero hw.newline_notMem]
  refine ⟨p.offset, stop, ?_⟩
  rw [scan, standalonePartial, hpieces]
  exact congrArg Except.ok ((settle_partialTag hw rfl rfl rfl).trans (by rw [hline]))

end

end Token

end Mustache
