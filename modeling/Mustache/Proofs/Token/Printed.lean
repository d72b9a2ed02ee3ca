import Mustache.Proofs.Token.Lines
import Mustache.Proofs.Token.Written

/-!
Scanning undoes printing. A source is put together from items, each written with the delimiters
in force where it stands. Where no part of an item can be taken for something else and no line
stands alone, the tokens are the items again, one for one. Main statement: `scan_printed`.
-/

namespace Mustache

/-- The characters that mark a tag of some kind. An unescaped interpolation is marked by an
ampersand here. -/
def TokenKind.mark : TokenKind → String
  | sectionTag => "#"
  | inverted => "^"
  | close => "/"
  | partialTag => ">"
  | dynamicPartial => ">*"
  | parent => "<"
  | block => "$"
  | comment => "!"
  | pragma => "%"
  | unescaped => "&"
  | delimiters => "="
  | text | escaped => ""

namespace Token

/-! ### Items and their print -/

/-- A part of a source: a text, a tag with its body, or a change of delimiters. -/
inductive Item
  | text (s : String)
  | tag (kind : TokenKind) (body : String)
  | switch (next : Delimiters)
deriving DecidableEq, Repr

namespace Item

/-- The item as it is written while `d` is in force. -/
def print (d : Delimiters) : Item → String
  | text s => s
  | tag kind body => d.opening ++ kind.mark ++ body ++ d.closing
  | switch next => next.switchFrom d

/-- The delimiters in force behind the item. -/
def after (d : Delimiters) : Item → Delimiters
  | switch next => next
  | _ => d

def kind : Item → TokenKind
  | text _ => .text
  | tag kind _ => kind
  | switch _ => .delimiters

/-- What a token of the item holds. -/
def value : Item → String
  | text s => s
  | tag _ body => body
  | switch next => next.text

/-- The token of the item, printed at `p` while `d` is in force. -/
def token (d : Delimiters) (p : Place) (i : Item) : Token where
  kind := i.kind
  value := i.value
  line := p.line
  start := p.offset
  stop := p.offset + Text.byteLength (i.print d).toList
  delimiters := d
  indent := none

def isText : Item → Bool
  | text _ => true
  | _ => false

/-- A text that ends in a newline. -/
def endsLine : Item → Bool
  | text s => s.toList.getLast? == some '\n'
  | _ => false

/-- A text that is not all white space, or an interpolation. -/
def Shows : Item → Prop
  | text s => ∃ c ∈ s.toList, Text.isSpace c = false
  | tag kind _ => kind = .escaped ∨ kind = .unescaped
  | switch _ => False

end Item

/-- The items one behind the other, the first written while `d` is in force. -/
def printAll (d : Delimiters) : List Item → String
  | [] => ""
  | i :: is => i.print d ++ printAll (i.after d) is

/-- The tokens of the items, printed from `p` on. -/
def tokensOf (d : Delimiters) (p : Place) : List Item → List Token
  | [] => []
  | i :: is => i.token d p :: tokensOf (i.after d) (p.advance (i.print d).toList) is

/-- The items line by line. -/
def itemLines : List Item → List (List Item)
  | [] => []
  | i :: is =>
    if i.endsLine then [i] :: itemLines is
    else match itemLines is with
      | [] => [[i]]
      | l :: ls => (i :: l) :: ls

/-! ### What can be read back -/

/-- The text cannot be taken for a tag, and has no newline but at its end. -/
structure TextFits (d : Delimiters) (s : String) : Prop where
  ne_empty : s ≠ ""
  newline_last : '\n' ∉ s.toList.dropLast
  opening_notMem : ∀ c ∈ d.opening.toList.head?, c ∉ s.toList

/-- The body cannot be taken for a part of its tag's sigil or delimiters. -/
structure TagFits (d : Delimiters) (kind : TokenKind) (body : String) : Prop where
  ne_text : kind ≠ .text
  ne_delimiters : kind ≠ .delimiters
  tight : Text.Tight body.toList
  newline_notMem : '\n' ∉ body.toList
  delimiters_notMem : ∀ c ∈ body.toList, c ∉ d.opening.toList ∧ c ∉ d.closing.toList
  no_sigil : kind = .escaped → ∀ c ∈ body.toList.head?, TokenKind.ofSigil? c = none
  no_star : kind = .partialTag → body.toList.head? ≠ some '*'

def Item.Fits (d : Delimiters) : Item → Prop
  | text s => TextFits d s
  | tag kind body => TagFits d kind body
  | switch next => next.Writable

/-- Each item fits the delimiters in force where it stands. -/
def AllFit (d : Delimiters) : List Item → Prop
  | [] => True
  | i :: is => i.Fits d ∧ AllFit (i.after d) is

/-- Items that can be read back when they are printed from `d` on. -/
structure Printable (d : Delimiters) (items : List Item) : Prop where
  fit : AllFit d items
  /-- Two texts side by side are on two lines. -/
  apart : items.IsChain fun i j => i.isText = true → j.isText = true → i.endsLine = true
  shows : ∀ line ∈ itemLines items, ∃ i ∈ line, i.Shows

/-! ### Reading an item -/

theorem sigilOf_mark {d : Delimiters} {kind : TokenKind} {body : String} (h : TagFits d kind body)
    (rest : List Char) :
    sigilOf (kind.mark.toList ++ (body.toList ++ rest)) = ⟨kind, kind.mark.toList, false⟩ := by
  obtain ⟨c, cs, hbody⟩ := List.exists_cons_of_ne_nil h.tight.ne_nil
  rw [hbody]
  cases kind with
  | text => exact absurd rfl h.ne_text
  | delimiters => exact absurd rfl h.ne_delimiters
  | escaped =>
    have hsigil : TokenKind.ofSigil? c = none := h.no_sigil rfl c (by simp [hbody])
    have hc : c ≠ '>' := by
      rintro rfl
      simp [TokenKind.ofSigil?] at hsigil
    simp [TokenKind.mark, sigilOf, hsigil, hc]
  | partialTag =>
    have hstar : c ≠ '*' := by
      rintro rfl
      exact h.no_star rfl (by simp [hbody])
    simp [TokenKind.mark, sigilOf, TokenKind.ofSigil?, hstar]
  | _ => simp [TokenKind.mark, sigilOf, TokenKind.ofSigil?]

theorem newline_notMem_mark (kind : TokenKind) : '\n' ∉ kind.mark.toList := by
  cases kind <;> decide

/-- A tag on one line is read if its sigil is, its body ends where the closing delimiter is met
first, and nothing of it is trimmed. -/
theorem pieces_print_of_cut {d : Delimiters} (hd : d.Writable) {kind : TokenKind} {body : String}
    {cs : List Char} (hkind : kind ≠ .delimiters)
    (hsigil : sigilOf (kind.mark.toList ++ (body.toList ++ (d.closing.toList ++ cs))) =
      ⟨kind, kind.mark.toList, false⟩)
    (hcut : Text.cutAt? d.closing.toList (body.toList ++ (d.closing.toList ++ cs)) =
      some (body.toList, cs))
    (htrim : Text.trim body.toList = body.toList) (hnewline : '\n' ∉ body.toList) (p : Place) :
    pieces d p (((Item.tag kind body).print d).toList ++ cs) =
      (pieces d (p.advance ((Item.tag kind body).print d).toList) cs).map
        ((Item.tag kind body).token d p :: ·) := by
  let sigil : Sigil := ⟨kind, kind.mark.toList, false⟩
  have hclosing : closingOf d kind = d.closing.toList := if_neg hkind
  have htag : ((Item.tag kind body).print d).toList = written d sigil body.toList := by
    simp [Item.print, written, sigil, hclosing]
  have hcontent : contentOf d sigil body.toList cs = .ok ⟨body.toList, d, [], cs⟩ := by
    cases kind <;> simp_all [contentOf, sigil]
  have hnone : '\n' ∉ written d sigil body.toList :=
    newline_notMem_written hd (newline_notMem_mark kind) hnewline
  rw [← hclosing] at hsigil hcut
  have hread := pieces_written (p := p) hd.halves.1.ne_nil hsigil hcut hcontent
  simp only [Item.token, htag]
  rw [hread]
  simp [Place.advance, Text.newlines, List.count_eq_zero_of_not_mem, hnewline, hnone, Item.kind,
    Item.value, sigil]

theorem pieces_print_tag {d : Delimiters} (hd : d.Writable) {kind : TokenKind} {body : String}
    (h : TagFits d kind body) (p : Place) (cs : List Char) :
    pieces d p (((Item.tag kind body).print d).toList ++ cs) =
      (pieces d (p.advance ((Item.tag kind body).print d).toList) cs).map
        ((Item.tag kind body).token d p :: ·) := by
  have hcut : Text.cutAt? d.closing.toList (body.toList ++ (d.closing.toList ++ cs)) =
      some (body.toList, cs) := by
    obtain ⟨c, rest, hrest⟩ := List.exists_cons_of_ne_nil hd.halves.2.ne_nil
    rw [hrest]
    refine Text.cutAt?_of_notMem (fun hmem => ?_) rest cs
    exact (h.delimiters_notMem c hmem).2 (by simp [hrest])
  exact pieces_print_of_cut hd h.ne_delimiters (sigilOf_mark h _) hcut h.tight.trim_eq
    h.newline_notMem p

/-- What comes behind a text: its own newline was before, or there is nothing or a tag. -/
theorem pieces_print_text {d : Delimiters} {s : String} (h : TextFits d s) (p : Place)
    {cs : List Char}
    (hend : s.toList.getLast? = some '\n' ∨ cs = [] ∨ standsAt d.opening.toList cs = true) :
    pieces d p (((Item.text s).print d).toList ++ cs) =
      (pieces d (p.advance ((Item.text s).print d).toList) cs).map
        ((Item.text s).token d p :: ·) := by
  have hne : s.toList ≠ [] := by simpa using h.ne_empty
  have htake := takeText_of_ends h.opening_notMem h.newline_last hend
  show pieces d p (s.toList ++ cs) = _
  rw [pieces_of_takeText hne htake]
  simp [Item.token, Item.kind, Item.value, Item.print]

/-- The print of a tag or a delimiter change begins with the delimiters in force. -/
theorem standsAt_print {d : Delimiters} (hd : d.Writable) {i : Item} (hi : i.isText = false)
    (cs : List Char) : standsAt d.opening.toList ((i.print d).toList ++ cs) = true := by
  have hopening := hd.halves.1.ne_nil
  cases i with
  | text => simp [Item.isText] at hi
  | tag kind body => simpa [Item.print] using standsAt_append hopening _
  | switch next => simpa [Item.print, Delimiters.switchFrom] using standsAt_append hopening _

/-- **The pieces of a print are its items.** -/
theorem pieces_printAll {d : Delimiters} (hd : d.Writable) {items : List Item}
    (hfit : AllFit d items)
    (hapart : items.IsChain fun i j => i.isText = true → j.isText = true → i.endsLine = true)
    (p : Place) : pieces d p (printAll d items).toList = .ok (tokensOf d p items) := by
  induction items generalizing d p with
  | nil => simp [printAll, pieces, tokensOf]
  | cons i is ih =>
    obtain ⟨hi, his⟩ := hfit
    have hafter : (i.after d).Writable := by
      cases i with
      | switch next => exact hi
      | _ => exact hd
    have hrest := ih hafter his hapart.tail (p.advance (i.print d).toList)
    rw [printAll, String.toList_append, tokensOf]
    cases i with
    | tag kind body =>
      rw [pieces_print_tag hd hi]
      exact congrArg (Except.map _) hrest
    | switch next =>
      refine (pieces_switchFrom hd hi p _).trans ?_
      exact congrArg (Except.map _) hrest
    | text s =>
      rw [pieces_print_text hi p ?_]
      · exact congrArg (Except.map _) hrest
      -- the next item tells where the text ends
      cases is with
      | nil => exact .inr (.inl (by simp [printAll]))
      | cons j js =>
        cases hj : j.isText with
        | false =>
          rw [printAll, String.toList_append]
          exact .inr (.inr (standsAt_print hd hj _))
        | true =>
          have hends := (List.isChain_cons_cons.mp hapart).1 rfl hj
          exact .inl (by simpa [Item.endsLine] using hends)

/-! ### Lines -/

/-- The token holds what the item says. -/
structure Shown (i : Item) (t : Token) : Prop where
  kind_eq : t.kind = i.kind
  value_eq : t.value = i.value
  isText_eq : t.isText = i.isText

theorem shown_token {i : Item} (h : ∀ body, i ≠ .tag .text body) (d : Delimiters) (p : Place) :
    Shown i (i.token d p) where
  kind_eq := rfl
  value_eq := rfl
  isText_eq := by
    cases i with
    | text s => rfl
    | tag kind body => exact decide_eq_false fun hkind => h body (by rw [show kind = .text from hkind])
    | switch next => rfl

theorem Item.Fits.shown {d : Delimiters} {i : Item} (h : i.Fits d) (p : Place) :
    Shown i (i.token d p) := by
  refine shown_token ?_ d p
  rintro body rfl
  exact h.ne_text rfl

theorem Shown.endsLine_eq {i : Item} {t : Token} (h : Shown i t) : t.endsLine = i.endsLine := by
  obtain ⟨-, hvalue, htext⟩ := h
  cases i <;> simp_all [Token.endsLine, Item.endsLine, Item.isText, Item.value]

/-- The tokens of the items are on the lines of the items. -/
theorem splitLines_tokensOf {d : Delimiters} {items : List Item} (h : AllFit d items)
    (p : Place) :
    List.Forall₂ (List.Forall₂ Shown) (itemLines items) (splitLines (tokensOf d p items)) := by
  induction items generalizing d p with
  | nil => exact .nil
  | cons i is ih =>
    have hi := h.1.shown p
    have his := ih h.2 (p.advance (i.print d).toList)
    rw [tokensOf, itemLines, splitLines, hi.endsLine_eq]
    split
    · exact .cons (.cons hi .nil) his
    · revert his
      generalize itemLines is = lines
      generalize splitLines (tokensOf _ _ is) = tokenLines
      intro his
      cases his with
      | nil => exact .cons (.cons hi .nil) .nil
      | cons hline hlines => exact .cons (.cons hi hline) hlines

theorem exists_rel_of_mem {α β : Type} {R : α → β → Prop} {as : List α} {bs : List β}
    (h : List.Forall₂ R as bs) {b : β} (hb : b ∈ bs) : ∃ a ∈ as, R a b := by
  induction h with
  | nil => simp at hb
  | cons hr _ ih =>
    rcases List.mem_cons.mp hb with rfl | hb
    · exact ⟨_, List.mem_cons_self, hr⟩
    · obtain ⟨a, ha, hr⟩ := ih hb
      exact ⟨a, List.mem_cons_of_mem _ ha, hr⟩

/-- A line on which something shows does not stand alone. -/
theorem standsAlone_of_shows {items : List Item} {line : List Token}
    (hline : List.Forall₂ Shown items line) (h : ∃ i ∈ items, i.Shows) :
    standsAlone line = false := by
  obtain ⟨i, hi, hshows⟩ := h
  obtain ⟨t, ht, hshown⟩ : ∃ t ∈ line, Shown i t :=
    exists_rel_of_mem (R := flip Shown) hline.flip hi
  have hfalse : (if t.isText then t.isBlankText else t.kind.canStandAlone) = false := by
    obtain ⟨hkind, hvalue, htext⟩ := hshown
    cases i with
    | text s =>
      obtain ⟨c, hc, hspace⟩ := hshows
      have hblank : t.isBlankText = false := by
        rw [isBlankText, hvalue]
        exact Bool.and_eq_false_iff.mpr (.inr (List.all_eq_false.mpr ⟨c, hc, by simp [hspace]⟩))
      simp [htext, Item.isText, hblank]
    | tag kind body =>
      rw [htext, if_neg (by simp [Item.isText]), hkind]
      rcases hshows with rfl | rfl <;> rfl
    | switch next => exact hshows.elim
  simp only [standsAlone, Bool.and_eq_false_iff]
  exact .inr (List.all_eq_false.mpr ⟨t, ht, by simp [hfalse]⟩)

/-- Settling leaves lines as they are of which none stands alone. -/
theorem settle_eq_self {ts : List Token} (h : ∀ line ∈ splitLines ts, standsAlone line = false) :
    settle ts = ts := by
  have hline : ∀ line ∈ splitLines ts, settleLine line = id line := fun line hmem => by
    simp [settleLine, h line hmem]
  rw [settle, List.flatMap_congr hline, List.flatMap_id, flatten_splitLines]

/-- **Scanning undoes printing**: the tokens of a print are its items, one for one, each with the
place where it was printed and the delimiters that were in force there. -/
theorem scan_printed {d : Delimiters} (hd : d.Writable) {items : List Item}
    (h : Printable d items) : scan d (printAll d items) = .ok (tokensOf d ⟨0, 1⟩ items) := by
  have hpieces := pieces_printAll hd h.fit h.apart ⟨0, 1⟩
  have halone : ∀ line ∈ splitLines (tokensOf d ⟨0, 1⟩ items), standsAlone line = false := by
    intro line hline
    obtain ⟨is, his, hshown⟩ := exists_rel_of_mem (splitLines_tokensOf h.fit ⟨0, 1⟩) hline
    exact standsAlone_of_shows hshown (h.shows is his)
  unfold scan
  rw [hpieces]
  exact congrArg Except.ok (settle_eq_self halone)

/-- The delimiters may be sigils, and the same ones. -/
theorem scan_printed_less_than :
    Delimiters.standard.Writable ∧
    Printable Delimiters.standard [.text "é\n", .switch ⟨"<", "<"⟩, .tag .parent "p q",
      .tag .escaped "x", .text " \n", .tag .dynamicPartial "*", .text "y"] ∧
    scan Delimiters.standard "é\n\x7b\x7b= < < =\x7d\x7d<<p q<<x< \n<>**<y" = .ok
      [⟨.text, "é\n", 1, 0, 3, Delimiters.standard, none⟩,
        ⟨.delimiters, "< <", 2, 3, 14, Delimiters.standard, none⟩,
        ⟨.parent, "p q", 2, 14, 20, ⟨"<", "<"⟩, none⟩,
        ⟨.escaped, "x", 2, 20, 23, ⟨"<", "<"⟩, none⟩,
        ⟨.text, " \n", 2, 23, 25, ⟨"<", "<"⟩, none⟩,
        ⟨.dynamicPartial, "*", 3, 25, 30, ⟨"<", "<"⟩, none⟩,
        ⟨.text, "y", 3, 30, 31, ⟨"<", "<"⟩, none⟩] := by
  have hd : Delimiters.standard.Writable := ⟨Delimiters.standard.text.toList, by decide +kernel⟩
  have hitems : Printable Delimiters.standard [.text "é\n", .switch ⟨"<", "<"⟩,
      .tag .parent "p q", .tag .escaped "x", .text " \n", .tag .dynamicPartial "*",
      .text "y"] := by
    refine ⟨⟨?_, ?_, ?_, ?_, ?_, ?_, ?_, trivial⟩, by decide, ?_⟩
    · exact ⟨by decide, by decide, by simp [Delimiters.standard]⟩
    · exact ⟨"< <".toList, by decide +kernel⟩
    · exact ⟨by decide, by decide, ⟨by decide, by simp [Text.isSpace], by simp [Text.isSpace]⟩,
        by decide, by simp [Item.after], by simp [TokenKind.ofSigil?], by decide⟩
    · exact ⟨by decide, by decide, ⟨by decide, by simp [Text.isSpace], by simp [Text.isSpace]⟩,
        by decide, by simp [Item.after], by simp [TokenKind.ofSigil?], by decide⟩
    · exact ⟨by decide, by decide, by simp [Item.after]⟩
    · exact ⟨by decide, by decide, ⟨by decide, by simp [Text.isSpace], by simp [Text.isSpace]⟩,
        by decide, by simp [Item.after], by simp [TokenKind.ofSigil?], by decide⟩
    · exact ⟨by decide, by decide, by simp [Item.after]⟩
    · simp [itemLines, Item.endsLine, Item.Shows, Text.isSpace]
  exact ⟨hd, hitems, scan_printed hd hitems⟩

end Token

end Mustache
