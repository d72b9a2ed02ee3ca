import Mathlib.Data.List.SplitBy
import Mustache.Proofs.Token.Tiling

/-!
What is written is read back. A body ends at its closing delimiter if it has not got the first
character of that; a text ends where the next tag begins. Of delimiter pairs those are written
whose halves are words without an equals sign, and they are the ones that can be read. Main
statement: `pieces_switchFrom`.
-/

namespace Mustache.Text

theorem cutAt?_of_notMem {c : Char} {body : List Char} (h : c ∉ body) (pattern after : List Char) :
    cutAt? (c :: pattern) (body ++ (c :: pattern ++ after)) = some (body, after) := by
  induction body with
  | nil => simp [cutAt?]
  | cons b body ih =>
    rw [List.mem_cons, not_or] at h
    rw [List.cons_append, cutAt?, if_neg (by simp [List.isPrefixOf, h.1]), ih h.2]
    rfl

/-! ### White space at the ends -/

/-- Not empty, and no white space at its ends. -/
structure Tight (cs : List Char) : Prop where
  ne_nil : cs ≠ []
  head : ∀ c ∈ cs.head?, isSpace c = false
  last : ∀ c ∈ cs.getLast?, isSpace c = false

theorem trimStart_of_head {cs : List Char} (h : ∀ c ∈ cs.head?, isSpace c = false) :
    trimStart cs = cs := by
  cases cs with
  | nil => rfl
  | cons c cs => exact List.dropWhile_cons_of_neg (by simp [h c rfl])

theorem trimEnd_of_last {cs : List Char} (h : ∀ c ∈ cs.getLast?, isSpace c = false) :
    trimEnd cs = cs := by
  have hrev : trimStart cs.reverse = cs.reverse := trimStart_of_head (by simpa using h)
  unfold trimStart at hrev
  rw [trimEnd, hrev, List.reverse_reverse]

namespace Tight

variable {cs : List Char} (h : Tight cs)
include h

theorem trim_eq : trim cs = cs := by
  rw [trim, trimStart_of_head h.head, trimEnd_of_last h.last]

theorem trim_padded : trim (' ' :: (cs ++ [' '])) = cs := by
  have hstart : trimStart (' ' :: (cs ++ [' '])) = cs ++ [' '] := by
    show trimStart (cs ++ [' ']) = cs ++ [' ']
    refine trimStart_of_head fun c hc => h.head c ?_
    rwa [List.head?_append_of_ne_nil _ h.ne_nil] at hc
  have hend : trimEnd (cs ++ [' ']) = trimEnd cs := by simp [trimEnd, isSpace]
  rw [trim, hstart, hend, trimEnd_of_last h.last]

end Tight

/-! ### Words -/

theorem of_mem_words {w cs : List Char} (h : w ∈ words cs) :
    w ≠ [] ∧ ∀ c ∈ w, isSpace c = false := by
  obtain ⟨hw, hblank⟩ := List.mem_filter.mp h
  have hne := List.ne_nil_of_mem_splitBy hw
  refine ⟨hne, ?_⟩
  -- all characters of a run are white, or none is
  have hchain : w.IsChain fun a b => isSpace a = isSpace b := by
    simpa using List.isChain_of_mem_splitBy hw
  have hpair : w.Pairwise fun a b => isSpace a = isSpace b :=
    List.isChain_iff_pairwise.mp hchain
  cases w with
  | nil => exact absurd rfl hne
  | cons a w =>
    have hall := (List.pairwise_cons.mp hpair).1
    have ha : isSpace a = false := by
      by_contra hspace
      rw [Bool.not_eq_false] at hspace
      have : isBlank (a :: w) = true := by
        simp only [isBlank, List.all_cons, hspace, Bool.true_and, List.all_eq_true]
        exact fun b hb => (hall b hb).symm.trans hspace
      simp [this] at hblank
    intro c hc
    rcases List.mem_cons.mp hc with rfl | hc
    · exact ha
    · exact (hall c hc).symm.trans ha

theorem words_of_blank {cs : List Char} (h : ∀ c ∈ cs, isSpace c = true) : words cs = [] := by
  refine List.filter_eq_nil_iff.mpr fun w hw => ?_
  have hblank : isBlank w = true := by
    refine List.all_eq_true.mpr fun c hc => h c ?_
    rw [← List.flatten_splitBy (fun a b => isSpace a == isSpace b) cs]
    exact List.mem_flatten.mpr ⟨w, hw, hc⟩
  simp [hblank]

/-- White space that ends where the other text begins is no part of a word. -/
theorem words_append {a b : List Char}
    (h : ∀ x ∈ a.getLast?, ∀ y ∈ b.head?, isSpace x ≠ isSpace y) :
    words (a ++ b) = words a ++ words b := by
  unfold words
  rw [List.splitBy_append fun x hx y hy => by simpa using h x hx y hy, List.filter_append]

theorem words_trimStart (cs : List Char) : words (trimStart cs) = words cs := by
  have hblank : ∀ c ∈ cs.takeWhile isSpace, isSpace c = true := fun c hc =>
    List.all_eq_true.mp List.all_takeWhile c hc
  have hsplit := words_append (a := cs.takeWhile isSpace) (b := cs.dropWhile isSpace) ?_
  · rw [List.takeWhile_append_dropWhile, words_of_blank hblank, List.nil_append] at hsplit
    exact hsplit.symm
  · intro x hx y hy
    have hy : isSpace y = false := by
      have hhead := List.head?_dropWhile_not isSpace cs
      rw [Option.mem_def.mp hy] at hhead
      simpa using hhead
    rw [hblank x (List.mem_of_getLast? hx), hy]
    decide

theorem words_trimEnd (cs : List Char) : words (trimEnd cs) = words cs := by
  have hblank : ∀ c ∈ (cs.reverse.takeWhile isSpace).reverse, isSpace c = true := fun c hc =>
    List.all_eq_true.mp List.all_takeWhile c (List.mem_reverse.mp hc)
  have hsplit := words_append (a := trimEnd cs) (b := (cs.reverse.takeWhile isSpace).reverse) ?_
  · rw [words_of_blank hblank, List.append_nil, trimEnd, ← List.reverse_append,
      List.takeWhile_append_dropWhile, List.reverse_reverse] at hsplit
    exact hsplit.symm
  · intro x hx y hy
    have hx : isSpace x = false := by
      have hhead := List.head?_dropWhile_not isSpace cs.reverse
      rw [trimEnd, List.getLast?_reverse] at hx
      rw [Option.mem_def.mp hx] at hhead
      simpa using hhead
    rw [hblank y (List.mem_of_mem_head? hy), hx]
    decide

theorem words_trim (cs : List Char) : words (trim cs) = words cs := by
  rw [trim, words_trimEnd, words_trimStart]

/-- Two words with a blank in front of each and one at the end. -/
theorem words_padded {v w : List Char} (hv : v ≠ []) (hw : w ≠ [])
    (hvspace : ∀ c ∈ v, isSpace c = false) (hwspace : ∀ c ∈ w, isSpace c = false) :
    words (' ' :: (v ++ ' ' :: w ++ [' '])) = [v, w] := by
  have hspace : isSpace ' ' = true := rfl
  have hblank : isBlank [' '] = true := rfl
  have hrun : ∀ {u : List Char}, (∀ c ∈ u, isSpace c = false) →
      u.IsChain fun a b => isSpace a == isSpace b := fun hu =>
    (List.pairwise_of_forall_mem_list fun a ha b hb => by simp [hu a ha, hu b hb]).isChain
  have hshown : ∀ {u : List Char}, u ≠ [] → (∀ c ∈ u, isSpace c = false) →
      isBlank u = false := by
    intro u hne hu
    obtain ⟨c, hc⟩ := List.exists_mem_of_ne_nil u hne
    exact List.all_eq_false.mpr ⟨c, hc, by simp [hu c hc]⟩
  have hsplit : (' ' :: (v ++ ' ' :: w ++ [' '])).splitBy (fun a b => isSpace a == isSpace b) =
      [[' '], v, [' '], w, [' ']] := by
    refine List.splitBy_eq_iff.mpr ⟨by simp, by simp [hv, hw], ?_, ?_⟩
    · intro m hm
      simp only [List.mem_cons, List.not_mem_nil, or_false] at hm
      rcases hm with rfl | rfl | rfl | rfl | rfl
      all_goals first | exact .singleton _ | exact hrun ‹_›
    · simp [hv, hw, hspace, hvspace, hwspace, List.isChain_cons_cons]
  unfold words
  rw [hsplit]
  simp [hshown hv hvspace, hshown hw hwspace, hblank]

end Mustache.Text

namespace Mustache.Delimiters

/-! ### Pairs that can be written -/

/-- A word without an equals sign. -/
structure IsHalf (cs : List Char) : Prop where
  ne_nil : cs ≠ []
  dark : ∀ c ∈ cs, Text.isSpace c = false
  equals_notMem : '=' ∉ cs

theorem IsHalf.newline_notMem {cs : List Char} (h : IsHalf cs) : '\n' ∉ cs :=
  fun hmem => absurd (h.dark _ hmem) (by decide)

/-- A delimiter-change tag can bring the pair into force. -/
def Writable (d : Delimiters) : Prop := ∃ body, parse? body = some d

theorem writable_standard : Writable standard := ⟨standard.text.toList, by decide +kernel⟩

theorem Writable.halves {d : Delimiters} (h : d.Writable) :
    IsHalf d.opening.toList ∧ IsHalf d.closing.toList := by
  obtain ⟨body, h⟩ := h
  unfold parse? at h
  split at h
  · rename_i o c hwords
    split at h
    · simp at h
    · rename_i heq
      obtain rfl := Option.some.inj h
      rw [not_or] at heq
      have hmem : o ∈ Text.words body ∧ c ∈ Text.words body := by simp [hwords]
      have ho := Text.of_mem_words hmem.1
      have hc := Text.of_mem_words hmem.2
      simp only [String.toList_ofList]
      exact ⟨⟨ho.1, ho.2, heq.1⟩, ⟨hc.1, hc.2, heq.2⟩⟩
  · simp at h

namespace Writable

variable {d : Delimiters} (h : d.Writable)
include h

theorem parse?_padded : parse? (' ' :: (d.text.toList ++ [' '])) = some d := by
  obtain ⟨ho, hc⟩ := h.halves
  have hwords : Text.words (' ' :: (d.text.toList ++ [' '])) =
      [d.opening.toList, d.closing.toList] := by
    simpa [text] using Text.words_padded ho.ne_nil hc.ne_nil ho.dark hc.dark
  unfold parse?
  rw [hwords]
  simp [ho.equals_notMem, hc.equals_notMem]

/-- The text of the pair has the halves at its ends. -/
theorem tight_text : Text.Tight d.text.toList := by
  obtain ⟨ho, hc⟩ := h.halves
  have htext : d.text.toList = d.opening.toList ++ ' ' :: d.closing.toList := by simp [text]
  rw [htext]
  refine ⟨by simp, fun c hhead => ?_, fun c hlast => ?_⟩
  · rw [List.head?_append_of_ne_nil _ ho.ne_nil] at hhead
    exact ho.dark c (List.mem_of_mem_head? hhead)
  · rw [List.getLast?_append_cons, List.getLast?_cons_of_ne_nil hc.ne_nil] at hlast
    exact hc.dark c (List.mem_of_mem_getLast? hlast)

end Writable

/-! ### Pairs on one line -/

/-- Both halves are there, and neither has a newline. -/
structure SingleLine (d : Delimiters) : Prop where
  opening_ne_nil : d.opening.toList ≠ []
  closing_ne_nil : d.closing.toList ≠ []
  newline_notMem_opening : '\n' ∉ d.opening.toList
  newline_notMem_closing : '\n' ∉ d.closing.toList

theorem Writable.singleLine {d : Delimiters} (h : d.Writable) : d.SingleLine := by
  obtain ⟨hopening, hclosing⟩ := h.halves
  exact ⟨hopening.ne_nil, hclosing.ne_nil, hopening.newline_notMem, hclosing.newline_notMem⟩

theorem parse?_trim (body : List Char) : parse? (Text.trim body) = parse? body := by
  unfold parse?
  rw [Text.words_trim]

/-- The delimiters in force behind some tokens: those of the last delimiter change among them. -/
def through (d : Delimiters) (ts : List Token) : Delimiters :=
  ts.foldl (fun d t => if t.kind = .delimiters then (parse? t.value.toList).getD d else d) d

theorem through_cons (d : Delimiters) (t : Token) (ts : List Token) :
    d.through (t :: ts) = (d.through [t]).through ts := rfl

theorem through_append (d : Delimiters) (ts us : List Token) :
    d.through (ts ++ us) = (d.through ts).through us := List.foldl_append

theorem through_singleton_of_ne {t : Token} (h : t.kind ≠ .delimiters) (d : Delimiters) :
    d.through [t] = d := if_neg h

theorem through_of_forall_ne {ts : List Token} (h : ∀ t ∈ ts, t.kind ≠ .delimiters)
    (d : Delimiters) : d.through ts = d := by
  induction ts with
  | nil => rfl
  | cons t ts ih =>
    obtain ⟨ht, hts⟩ := List.forall_mem_cons.mp h
    rw [through_cons, through_singleton_of_ne ht, ih hts]

/-- What holds of the first delimiters and of all that can be written holds of those in force
later. -/
theorem of_through {P : Delimiters → Prop} (hP : ∀ {next : Delimiters}, next.Writable → P next)
    {d : Delimiters} (h : P d) (ts : List Token) : P (d.through ts) := by
  induction ts generalizing d with
  | nil => exact h
  | cons t ts ih =>
    rw [through_cons]
    refine ih ?_
    change P (if t.kind = .delimiters then (parse? t.value.toList).getD d else d)
    split
    · cases hparse : parse? t.value.toList with
      | none => exact h
      | some next => exact hP ⟨_, hparse⟩
    · exact h

theorem SingleLine.through {d : Delimiters} (h : d.SingleLine) (ts : List Token) :
    (d.through ts).SingleLine :=
  of_through Writable.singleLine h ts

theorem Writable.through {d : Delimiters} (h : d.Writable) (ts : List Token) :
    (d.through ts).Writable :=
  of_through id h ts

end Mustache.Delimiters

namespace Mustache.Token

variable {d : Delimiters}

/-! ### Texts and tags in front of a source -/

/-- A text ends with its newline, or where a tag or nothing follows. -/
theorem takeText_of_ends {opening text rest : List Char}
    (hfirst : ∀ c ∈ opening.head?, c ∉ text) (hnewline : '\n' ∉ text.dropLast)
    (hend : text.getLast? = some '\n' ∨ rest = [] ∨ standsAt opening rest = true) :
    takeText opening (text ++ rest) = (text, rest) := by
  induction text with
  | nil =>
    rcases hend with hlast | rfl | hstands
    · simp at hlast
    · rfl
    · cases rest with
      | nil => rfl
      | cons c rest => simp [takeText, hstands]
  | cons c text ih =>
    have hstands : standsAt opening (c :: text ++ rest) = false := by
      cases opening with
      | nil => rfl
      | cons o opening =>
        have : o ≠ c := by
          rintro rfl
          exact hfirst o rfl List.mem_cons_self
        simp [standsAt, List.isPrefixOf, this]
    rw [List.cons_append] at hstands ⊢
    rw [takeText, if_neg (by simp [hstands])]
    cases text with
    | nil =>
      by_cases hc : c = '\n'
      · simp [hc]
      · have := ih (by simp) (by simp) (.inr (hend.resolve_left (by simp [hc])))
        simp only [List.nil_append] at this
        simp [hc, this]
    | cons b text =>
      rw [List.dropLast_cons_cons, List.mem_cons, not_or] at hnewline
      rw [if_neg (Ne.symm hnewline.1), ih (fun o ho => ?_) hnewline.2 (by simpa using hend)]
      exact fun hmem => hfirst o ho (List.mem_cons_of_mem _ hmem)

theorem standsAt_append {opening : List Char} (h : opening ≠ []) (rest : List Char) :
    standsAt opening (opening ++ rest) = true := by
  simp [standsAt, h]

/-- The pieces of a source that begins with a text. -/
theorem pieces_of_takeText {p : Place} {cs text rest : List Char} (hne : text ≠ [])
    (h : takeText d.opening.toList cs = (text, rest)) :
    pieces d p cs = (pieces d (p.advance text) rest).map
      ({ kind := .text, value := String.ofList text, line := p.line, start := p.offset,
         stop := p.offset + Text.byteLength text, delimiters := d, indent := none } :: ·) := by
  have hpiece : nextPiece d p cs = .ok (.text text rest) := by
    unfold nextPiece
    rw [h]
    cases text with
    | nil => exact absurd rfl hne
    | cons c text => rfl
  cases cs with
  | nil =>
    rw [takeText] at h
    exact absurd (Prod.mk.inj h).1.symm hne
  | cons c cs =>
    rw [pieces_cons, hpiece]
    rfl

/-- The pieces of a source that begins with a tag. -/
theorem pieces_of_readTag {p : Place} {cs : List Char}
    (hstands : standsAt d.opening.toList cs = true) :
    pieces d p cs = (readTag d p cs).bind fun tag =>
      (pieces tag.delimiters tag.next tag.rest).map (tag.token :: ·) := by
  cases cs with
  | nil =>
    cases hopening : d.opening.toList <;> simp [standsAt, hopening] at hstands
  | cons c cs =>
    have hpiece : nextPiece d p (c :: cs) = (readTag d p (c :: cs)).map .tag := by
      simp [nextPiece, takeText, hstands]
    rw [pieces_cons, hpiece]
    cases readTag d p (c :: cs) <;> rfl

/-- A tag between its delimiters. -/
def written (d : Delimiters) (sigil : Sigil) (body : List Char) : List Char :=
  d.opening.toList ++ sigil.mark ++ body ++ closingOf d sigil.kind

/-- The pieces of a source that begins with a tag which is read as it was written. -/
theorem pieces_written {p : Place} {sigil : Sigil} {body value after : List Char}
    {next : Delimiters} (hopening : d.opening.toList ≠ [])
    (hsigil : sigilOf (sigil.mark ++ (body ++ (closingOf d sigil.kind ++ after))) = sigil)
    (hcut : Text.cutAt? (closingOf d sigil.kind) (body ++ (closingOf d sigil.kind ++ after)) =
      some (body, after))
    (hcontent : contentOf d sigil body after = .ok ⟨value, next, [], after⟩) :
    pieces d p (written d sigil body ++ after) =
      (pieces next
        ⟨p.offset + Text.byteLength (written d sigil body), p.line + Text.newlines body⟩ after).map
        ({ kind := sigil.kind, value := String.ofList value, line := p.line, start := p.offset,
           stop := p.offset + Text.byteLength (written d sigil body), delimiters := d,
           indent := none } :: ·) := by
  have happ : written d sigil body ++ after =
      d.opening.toList ++ (sigil.mark ++ (body ++ (closingOf d sigil.kind ++ after))) := by
    simp [written]
  have hread : readTag d p (written d sigil body ++ after) = .ok
      { token :=
          { kind := sigil.kind, value := String.ofList value, line := p.line, start := p.offset,
            stop := p.offset + Text.byteLength (written d sigil body), delimiters := d,
            indent := none }
        lexeme := written d sigil body, rest := after
        next := ⟨p.offset + Text.byteLength (written d sigil body),
          p.line + Text.newlines body⟩
        delimiters := next } := by
    rw [happ]
    unfold readTag
    simp only [List.drop_left, hsigil]
    unfold readFrom
    rw [hcut]
    simp only [hcontent]
    simp [written]
  rw [pieces_of_readTag (by rw [happ]; exact standsAt_append hopening _), hread]
  rfl

theorem newline_notMem_written (h : d.Writable) {sigil : Sigil} {body : List Char}
    (hmark : '\n' ∉ sigil.mark) (hbody : '\n' ∉ body) : '\n' ∉ written d sigil body := by
  obtain ⟨ho, hc⟩ := h.halves
  simp only [written, closingOf]
  split <;> simp [ho.newline_notMem, hc.newline_notMem, hmark, hbody]

theorem newline_notMem_switchFrom {a : Delimiters} (ha : a.Writable) (hd : d.Writable) :
    '\n' ∉ (d.switchFrom a).toList := by
  obtain ⟨hao, hac⟩ := ha.halves
  obtain ⟨hdo, hdc⟩ := hd.halves
  simp [Delimiters.switchFrom, Delimiters.text, hao.newline_notMem, hac.newline_notMem,
    hdo.newline_notMem, hdc.newline_notMem]

/-- **A delimiter-change tag in the form that switches to a pair brings it into force.** -/
theorem pieces_switchFrom {a : Delimiters} (ha : a.Writable) (hd : d.Writable) (p : Place)
    (cs : List Char) :
    pieces a p ((d.switchFrom a).toList ++ cs) =
      (pieces d (p.advance (d.switchFrom a).toList) cs).map
        ({ kind := .delimiters, value := d.text, line := p.line, start := p.offset,
           stop := p.offset + Text.byteLength (d.switchFrom a).toList, delimiters := a,
           indent := none } :: ·) := by
  obtain ⟨hdo, hdc⟩ := hd.halves
  let sigil : Sigil := ⟨.delimiters, ['='], false⟩
  let body := ' ' :: (d.text.toList ++ [' '])
  have htag : (d.switchFrom a).toList = written a sigil body := by
    simp [Delimiters.switchFrom, written, sigil, body, closingOf]
  have hcut : Text.cutAt? (closingOf a sigil.kind) (body ++ (closingOf a sigil.kind ++ cs)) =
      some (body, cs) := by
    refine Text.cutAt?_of_notMem ?_ a.closing.toList cs
    simp [body, Delimiters.text, hdo.equals_notMem, hdc.equals_notMem]
  have hcontent : contentOf a sigil body cs = .ok ⟨d.text.toList, d, [], cs⟩ := by
    simp only [contentOf, sigil, body, hd.parse?_padded, hd.tight_text.trim_padded]
    rfl
  have hnewline : Text.newlines body = 0 ∧ Text.newlines (d.switchFrom a).toList = 0 := by
    refine ⟨List.count_eq_zero.mpr ?_, List.count_eq_zero.mpr (newline_notMem_switchFrom ha hd)⟩
    simp [body, Delimiters.text, hdo.newline_notMem, hdc.newline_notMem]
  have hread := pieces_written (p := p) ha.halves.1.ne_nil rfl hcut hcontent
  rw [← htag, String.ofList_toList] at hread
  rw [hread, Place.advance, hnewline.1, hnewline.2]

end Mustache.Token
