import Mathlib.Data.List.Infix
import Mathlib.Data.List.TakeWhile
import Mustache.Proofs.Token.Lines
import Mustache.Proofs.Token.Moved
import Mustache.Proofs.Token.Written

/-!
A source behind a tag that switches to other delimiters. The tag shares the first line of the
source: it makes a blank one stand alone, which it would not do by itself, and changes nothing else.
Main statement: `scan_behind_switch`.
-/

namespace Mustache

namespace Text

/-- The text is not empty, and its first line is all white space. -/
def blankStart (cs : List Char) : Bool := !cs.isEmpty && isBlank (cs.takeWhile (· != '\n'))

/-- The first line of a text, with its newline. -/
theorem exists_firstLine {cs : List Char} (hcs : cs ≠ []) :
    ∃ line rest, cs = line ++ rest ∧ line ≠ [] ∧ '\n' ∉ line.dropLast ∧
      (line.getLast? = some '\n' ∨ rest = []) ∧ isBlank line = blankStart cs := by
  have hcut := List.takeWhile_append_dropWhile (p := (· != '\n')) (l := cs)
  have hwords : '\n' ∉ cs.takeWhile (· != '\n') := fun hmem => by
    simpa using List.mem_takeWhile_imp hmem
  have hblank : blankStart cs = isBlank (cs.takeWhile (· != '\n')) := by
    simp [blankStart, hcs]
  cases hrest : cs.dropWhile (· != '\n') with
  | nil =>
    rw [hrest, List.append_nil] at hcut
    refine ⟨cs, [], by simp, hcs, fun hmem => ?_, .inr rfl, by rw [hblank, hcut]⟩
    rw [hcut] at hwords
    exact hwords (List.mem_of_mem_dropLast hmem)
  | cons c rest =>
    have hc : c = '\n' := by
      have := List.head_dropWhile_not (· != '\n') (l := cs) (by simp [hrest])
      simpa [hrest] using this
    subst hc
    refine ⟨cs.takeWhile (· != '\n') ++ ['\n'], rest, ?_, by simp, by simpa using hwords,
      by simp, ?_⟩
    · rw [hrest] at hcut
      simpa using hcut.symm
    · have hnewline : isSpace '\n' = true := rfl
      simp [hblank, isBlank, hnewline]

theorem blankStart_append {line rest : List Char} (hne : line ≠ [])
    (hend : line.getLast? = some '\n' ∨ rest = []) (hblank : isBlank line = true) :
    blankStart (line ++ rest) = true := by
  have hsub : ∀ c ∈ (line ++ rest).takeWhile (· != '\n'), c ∈ line := by
    rcases hend with hlast | rfl
    · obtain ⟨words, rfl⟩ := List.getLast?_eq_some_iff.mp hlast
      intro c hc
      rw [List.append_assoc, List.takeWhile_append] at hc
      split at hc
      · exact List.mem_append_left _ (by simpa using hc)
      · exact List.mem_append_left _ (List.takeWhile_subset _ hc)
    · rw [List.append_nil]
      exact fun c hc => List.takeWhile_subset _ hc
  simp only [blankStart, isBlank, Bool.and_eq_true, List.all_eq_true] at hblank ⊢
  exact ⟨by simp [hne], fun c hc => hblank c (hsub c hc)⟩

end Text

namespace Token

variable {d : Delimiters}

/-! ### The first line -/

/-- The first tokens make a line of texts that are all blank. -/
def blankFirst (ts : List Token) : Bool :=
  (splitLines ts).head?.any fun line => line.all isBlankText

theorem blankFirst_cons (t : Token) (ts : List Token) :
    blankFirst (t :: ts) = (t.isBlankText && (t.endsLine || ts.isEmpty || blankFirst ts)) := by
  unfold blankFirst
  rw [splitLines]
  cases hends : t.endsLine with
  | true => simp
  | false =>
    cases ts with
    | nil => simp [splitLines]
    | cons u us =>
      cases hlines : splitLines (u :: us) with
      | nil =>
        have := flatten_splitLines (u :: us)
        simp [hlines] at this
      | cons l ls => simp

/-- A text stops behind its newline, at the end or in front of a tag. -/
theorem ends_of_takeText {opening cs text rest : List Char}
    (h : takeText opening cs = (text, rest)) :
    text.getLast? = some '\n' ∨ rest = [] ∨ standsAt opening rest = true := by
  induction cs generalizing text with
  | nil =>
    obtain ⟨-, rfl⟩ := Prod.mk.inj h
    exact .inr (.inl rfl)
  | cons c cs ih =>
    rw [takeText] at h
    split at h
    · rename_i hstands
      obtain ⟨-, rfl⟩ := Prod.mk.inj h
      exact .inr (.inr hstands)
    · split at h
      · rename_i hc
        obtain ⟨rfl, rfl⟩ := Prod.mk.inj h
        exact .inl (by simp [hc])
      · obtain ⟨rfl, rfl⟩ := Prod.mk.inj h
        refine (ih rfl).imp_left fun hlast => ?_
        rw [List.getLast?_cons, hlast]
        rfl

/-- A blank first line is a text of its own. -/
theorem pieces_of_blankStart (hd : d.Writable) {cs : List Char} (h : Text.blankStart cs = true)
    {p : Place} {ts : List Token} (hpieces : pieces d p cs = .ok ts) :
    ∃ t us, ts = t :: us ∧ splitLines ts = [t] :: splitLines us ∧ t.isBlankText = true := by
  have hcs : cs ≠ [] := by
    rintro rfl
    simp [Text.blankStart] at h
  obtain ⟨line, rest, rfl, hne, hnewline, hend, hblank⟩ := Text.exists_firstLine hcs
  rw [h] at hblank
  have htake : takeText d.opening.toList (line ++ rest) = (line, rest) := by
    refine takeText_of_ends (fun o ho hmem => ?_) hnewline (hend.imp_right .inl)
    -- no delimiter begins with white space
    have hdark := hd.halves.1.dark o (List.mem_of_mem_head? ho)
    have hspace := List.all_eq_true.mp hblank o hmem
    simp [hdark] at hspace
  rw [pieces_of_takeText hne htake] at hpieces
  cases hmore : pieces d (p.advance line) rest with
  | error f => simp [hmore, Except.map] at hpieces
  | ok us =>
    rw [hmore] at hpieces
    obtain rfl := Except.ok.inj hpieces
    refine ⟨_, us, rfl, ?_, by simpa [isBlankText, isText] using hblank⟩
    rcases hend with hlast | rfl
    · rw [splitLines, if_pos (by simp [endsLine, isText, hlast])]
    · obtain rfl : us = [] := by simpa [pieces] using hmore.symm
      simp [splitLines, endsLine, isText]

/-- The first piece of a source that begins with a tag is the tag. -/
theorem exists_tag_of_pieces {cs : List Char} (hstands : standsAt d.opening.toList cs = true)
    {p : Place} {ts : List Token} (hpieces : pieces d p cs = .ok ts) :
    ∃ t us, ts = t :: us ∧ t.isText = false := by
  rw [pieces_of_readTag hstands] at hpieces
  cases hread : readTag d p cs with
  | error f => simp [hread, Except.bind] at hpieces
  | ok tag =>
    rw [hread] at hpieces
    change (pieces tag.delimiters tag.next tag.rest).map (tag.token :: ·) = .ok ts at hpieces
    cases hmore : pieces tag.delimiters tag.next tag.rest with
    | error f => simp [hmore, Except.map] at hpieces
    | ok us =>
      rw [hmore] at hpieces
      exact ⟨tag.token, us, (Except.ok.inj hpieces).symm, (readTag_token hread).1⟩

/-- A first line that is not blank holds a tag, or a text that is not blank. -/
theorem blankFirst_of_pieces {cs : List Char} (h : Text.blankStart cs = false) {p : Place}
    {ts : List Token} (hpieces : pieces d p cs = .ok ts) : blankFirst ts = false := by
  by_cases hcs : cs = []
  · subst hcs
    obtain rfl : ts = [] := by simpa [pieces] using hpieces.symm
    rfl
  obtain ⟨text, rest, htake⟩ : ∃ text rest, takeText d.opening.toList cs = (text, rest) :=
    ⟨_, _, rfl⟩
  by_cases hne : text = []
  · have hstands := takeText_eq_nil hcs (by rw [htake]; exact hne)
    obtain ⟨t, us, rfl, htag⟩ := exists_tag_of_pieces hstands hpieces
    simp [blankFirst_cons, isBlankText, htag]
  rw [pieces_of_takeText hne htake] at hpieces
  cases hmore : pieces d (p.advance text) rest with
  | error f => simp [hmore, Except.map] at hpieces
  | ok us =>
    rw [hmore] at hpieces
    obtain rfl := Except.ok.inj hpieces
    rw [blankFirst_cons]
    cases hblank : Text.isBlank text with
    | false => simp [isBlankText, hblank]
    | true =>
      obtain ⟨hlast, hrest⟩ : text.getLast? ≠ some '\n' ∧ rest ≠ [] := by
        rw [← takeText_append d.opening.toList cs, htake] at h
        refine ⟨fun hlast => ?_, fun hrest => ?_⟩
        · simp [Text.blankStart_append hne (.inl hlast) hblank] at h
        · simp [Text.blankStart_append hne (.inr hrest) hblank] at h
      have hstands := ((ends_of_takeText htake).resolve_left hlast).resolve_left hrest
      obtain ⟨t, vs, rfl, htag⟩ := exists_tag_of_pieces hstands hmore
      have htags : blankFirst (t :: vs) = false := by simp [blankFirst_cons, isBlankText, htag]
      simp [endsLine, hlast, htags]

/-! ### A tag in front of a line -/

theorem dropTexts_of_blank {line : List Token} (h : line.all isBlankText = true)
    (indent : String) : dropTexts indent line = [] := by
  induction line generalizing indent with
  | nil => rfl
  | cons t line ih =>
    simp only [List.all_cons, Bool.and_eq_true, isBlankText] at h
    rw [dropTexts, if_pos h.1.1]
    exact ih (by simpa [isBlankText] using h.2) _

/-- A tag that prints nothing makes a line of blank texts stand alone, and changes nothing about
another line. -/
theorem standsAlone_cons {u : Token} (htag : u.isText = false)
    (halone : u.kind.canStandAlone = true) (line : List Token) :
    standsAlone (u :: line) = (line.all isBlankText || standsAlone line) := by
  simp only [standsAlone, List.any_cons, List.all_cons, htag, halone, Bool.not_false,
    Bool.true_or, Bool.true_and, Bool.false_eq_true, if_false]
  cases hany : line.any fun t => !t.isText with
  | true =>
    obtain ⟨t, ht, htext⟩ := List.any_eq_true.mp hany
    have hblank : line.all isBlankText = false :=
      List.all_eq_false.mpr ⟨t, ht, by simpa [isBlankText] using fun h => by simp [h] at htext⟩
    simp [hblank]
  | false =>
    rw [Bool.false_and, Bool.or_false, Bool.eq_iff_iff, List.all_eq_true, List.all_eq_true]
    refine forall₂_congr fun t ht => ?_
    have htext : t.isText = true := by simpa using List.any_eq_false.mp hany t ht
    rw [if_pos htext]

/-- A delimiter change takes the texts of a line with it if they are all blank and all there is.
Another line is settled as it would be by itself. -/
theorem settleLine_cons {u : Token} (hkind : u.kind = .delimiters) (line : List Token) :
    settleLine (u :: line) = u :: if line.all isBlankText then [] else settleLine line := by
  have htag : u.isText = false := by simp [isText, hkind]
  have hdrop : dropTexts "" (u :: line) = u :: dropTexts "" line := by
    simp [dropTexts, htag, hkind, TokenKind.takesIndent]
  unfold settleLine
  rw [standsAlone_cons htag (by simp [hkind, TokenKind.canStandAlone]), hdrop]
  cases hblank : line.all isBlankText with
  | true => simp [dropTexts_of_blank hblank]
  | false => cases standsAlone line <;> simp

/-- The settled tokens behind a delimiter change. -/
theorem settle_cons {u : Token} (hkind : u.kind = .delimiters) (ts : List Token) :
    settle (u :: ts) =
      u :: if blankFirst ts then (splitLines ts).tail.flatMap settleLine else settle ts := by
  have hends : u.endsLine = false := by simp [endsLine, isText, hkind]
  unfold settle blankFirst
  rw [splitLines, if_neg (by simp [hends])]
  cases splitLines ts with
  | nil =>
    have hline : settleLine [u] = [u] := by simp [settleLine_cons hkind]
    simp [hline]
  | cons l ls =>
    simp only [List.flatMap_cons, settleLine_cons hkind, List.head?_cons, Option.any_some,
      List.tail_cons]
    cases l.all isBlankText <;> simp

/-! ### Behind a switch -/

/-- The length of the tag that switches from `a` to `d`. -/
def switchLength (a d : Delimiters) : Nat := Text.byteLength (d.switchFrom a).toList

/-- The token of the tag that switches from `a` to `d` at the beginning of a source. -/
def switchToken (a d : Delimiters) : Token where
  kind := .delimiters
  value := d.text
  line := 1
  start := 0
  stop := switchLength a d
  delimiters := a
  indent := none

/-- What is left of the tokens of a source behind a delimiter change. -/
theorem settle_cons_moved (hd : d.Writable) {u : Token} (hkind : u.kind = .delimiters) (n : Nat)
    {source : String} {p : Place} {raw : List Token}
    (h : pieces d p source.toList = .ok raw) :
    settle (u :: raw.map (moved n 0)) = u ::
      (if Text.blankStart source.toList then (settle raw).tail else settle raw).map
        (moved n 0) := by
  have hfirst : blankFirst (raw.map (moved n 0)) = blankFirst raw := by
    unfold blankFirst
    rw [splitLines_moved]
    cases splitLines raw with
    | nil => rfl
    | cons l ls => simp [Function.comp_def]
  rw [settle_cons hkind, hfirst]
  cases hblank : Text.blankStart source.toList with
  | true =>
    obtain ⟨t, us, rfl, hlines, ht⟩ := pieces_of_blankStart hd hblank h
    have htext : settleLine [t] = [t] := by
      simp only [isBlankText, Bool.and_eq_true] at ht
      simp [settleLine, standsAlone, ht.1]
    have hfirst : blankFirst (t :: us) = true := by simp [blankFirst, hlines, ht]
    have htail : settle (t :: us) = t :: settle us := by
      simp [settle, hlines, htext]
    have hmoved : splitLines ((t :: us).map (moved n 0)) =
        [t.moved n 0] :: splitLines (us.map (moved n 0)) := by
      rw [splitLines_moved, hlines, splitLines_moved]
      rfl
    simp only [hfirst, hmoved, htail, if_true, List.tail_cons]
    rw [← settle_moved]
    rfl
  | false =>
    rw [blankFirst_of_pieces hblank h, settle_moved]
    rfl

section

variable {a : Delimiters} (ha : a.Writable) (hd : d.Writable)
include ha hd

theorem pieces_behind_switch (source : String) :
    pieces a ⟨0, 1⟩ (d.switchFrom a ++ source).toList =
      (((pieces d ⟨0, 1⟩ source.toList).map (List.map (moved (switchLength a d) 0))).mapError
        (Fault.moved (switchLength a d) 0)).map (switchToken a d :: ·) := by
  have hstart : Place.advance ⟨0, 1⟩ (d.switchFrom a).toList =
      Place.moved (switchLength a d) 0 ⟨0, 1⟩ := by
    have hnewline : Text.newlines (d.switchFrom a).toList = 0 :=
      List.count_eq_zero.mpr (newline_notMem_switchFrom ha hd)
    simp [Place.advance, Place.moved, switchLength, hnewline]
  rw [String.toList_append, pieces_switchFrom ha hd, hstart, pieces_moved]
  simp [switchToken, switchLength]

/-- **A tag that switches to other delimiters, in front of a source, moves its tokens and its fault,
and takes the first text with it if the first line is blank.** -/
theorem scan_behind_switch (source : String) :
    (∀ ts, scan d source = .ok ts → scan a (d.switchFrom a ++ source) = .ok (switchToken a d ::
      (if Text.blankStart source.toList then ts.tail else ts).map
        (moved (switchLength a d) 0))) ∧
    ∀ e, scan d source = .error e → ∃ f : Fault, e = f.toError source ∧
      scan a (d.switchFrom a ++ source) =
        .error ((f.moved (switchLength a d) 0).toError (d.switchFrom a ++ source)) := by
  unfold scan
  rw [pieces_behind_switch ha hd]
  cases hpieces : pieces d ⟨0, 1⟩ source.toList with
  | error f => exact ⟨fun ts h => by simp at h, fun e h => ⟨f, (Except.error.inj h).symm, rfl⟩⟩
  | ok raw =>
    refine ⟨fun ts h => ?_, fun e h => by simp at h⟩
    obtain rfl := Except.ok.inj h
    exact congrArg Except.ok (settle_cons_moved hd rfl _ hpieces)

end

end Token

end Mustache
