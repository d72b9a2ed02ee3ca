import Mustache.Proofs.Text.Slice
import Mustache.Token.Scan

/-!
The pieces of a source tile it: each begins at the byte where the one before it stops, and
together they are the whole source. A text is what it covers, with a newline at most at its end,
and what a tag covers begins with the opening delimiter that the tag records.
-/

namespace Mustache.Token

/-! ### Tokens on a text -/

/-- The token lies on the text `lexeme`, which begins at byte `n`. -/
structure Fits (t : Token) (n : Nat) (lexeme : List Char) : Prop where
  start_eq : t.start = n
  stop_eq : t.stop = n + Text.byteLength lexeme
  ne_nil : lexeme ≠ []
  value_eq : t.isText = true → t.value = String.ofList lexeme
  newline_last : t.isText = true → '\n' ∉ lexeme.dropLast
  opening_isPrefix : t.isText = false → t.delimiters.opening.toList <+: lexeme
  indent_eq : t.indent = none

/-- The tokens lie on a text, which begins at byte `n`, side by side and in order. -/
inductive Tiling : Nat → List Char → List Token → Prop
  | nil (n : Nat) : Tiling n [] []
  | cons {n : Nat} {t : Token} {lexeme rest : List Char} {ts : List Token} :
    t.Fits n lexeme → Tiling t.stop rest ts → Tiling n (lexeme ++ rest) (t :: ts)

theorem Fits.start_lt_stop {t : Token} {n : Nat} {lexeme : List Char} (h : t.Fits n lexeme) :
    t.start < t.stop := by
  have := Text.byteLength_pos h.ne_nil
  rw [h.start_eq, h.stop_eq]
  omega

theorem Fits.toList_value {t : Token} {n : Nat} {lexeme : List Char} (h : t.Fits n lexeme)
    (htext : t.isText = true) : t.value.toList = lexeme := by
  rw [h.value_eq htext, String.toList_ofList]

/-! ### The pieces tile the source -/

theorem pieces_cons (d : Delimiters) (p : Place) (c : Char) (cs : List Char) :
    pieces d p (c :: cs) = (nextPiece d p (c :: cs)).bind fun
      | .text text more =>
        (pieces d (p.advance text) more).map
          ({ kind := .text, value := String.ofList text, line := p.line, start := p.offset,
             stop := (p.advance text).offset, delimiters := d, indent := none } :: ·)
      | .tag t => (pieces t.delimiters t.next t.rest).map (t.token :: ·) := by
  rw [pieces]
  split <;> simp_all [Except.bind]

theorem newline_notMem_dropLast_takeText (opening cs : List Char) :
    '\n' ∉ (takeText opening cs).1.dropLast := by
  induction cs with
  | nil => simp [takeText]
  | cons c cs ih =>
    unfold takeText
    split
    · simp
    · split
      · simp
      · rename_i hc
        show '\n' ∉ (c :: (takeText opening cs).1).dropLast
        cases htext : (takeText opening cs).1 with
        | nil => simp
        | cons d ds =>
          rw [htext] at ih
          rw [List.dropLast_cons_cons, List.mem_cons, not_or]
          exact ⟨fun h => hc h.symm, ih⟩

/-- The token that `pieces` makes of a text fits it. -/
theorem fits_text {d : Delimiters} {p : Place} {cs text rest : List Char} (hne : text ≠ [])
    (h : takeText d.opening.toList cs = (text, rest)) :
    Fits { kind := .text, value := String.ofList text, line := p.line, start := p.offset,
           stop := (p.advance text).offset, delimiters := d, indent := none } p.offset text where
  start_eq := rfl
  stop_eq := rfl
  ne_nil := hne
  value_eq _ := rfl
  newline_last _ := by
    have := newline_notMem_dropLast_takeText d.opening.toList cs
    rwa [h] at this
  opening_isPrefix h := by simp [isText] at h
  indent_eq := rfl

/-- No tag begins with a sigil of text. -/
theorem sigilOf_kind_ne_text (cs : List Char) : (sigilOf cs).kind ≠ .text := by
  unfold sigilOf
  split
  · simp
  · rename_i c _ _
    split
    · rename_i kind hkind
      unfold TokenKind.ofSigil? at hkind
      grind
    · simp
  · simp

theorem readFrom_token {d : Delimiters} {p : Place} {sigil : Sigil} {start inner : List Char}
    {tag : Tag} (h : readFrom d p sigil start inner = .ok tag) :
    tag.token.kind = sigil.kind ∧ tag.token.start = p.offset ∧
      tag.token.stop = p.offset + Text.byteLength tag.lexeme ∧ tag.token.delimiters = d ∧
      tag.token.indent = none ∧ tag.next.offset = tag.token.stop := by
  unfold readFrom at h
  split at h
  · simp at h
  · split at h
    · simp at h
    · simp only [Except.ok.injEq] at h
      subst h
      simp

theorem readTag_token {d : Delimiters} {p : Place} {cs : List Char} {tag : Tag}
    (h : readTag d p cs = .ok tag) :
    tag.token.isText = false ∧ tag.token.start = p.offset ∧
      tag.token.stop = p.offset + Text.byteLength tag.lexeme ∧ tag.token.delimiters = d ∧
      tag.token.indent = none ∧ tag.next.offset = tag.token.stop := by
  obtain ⟨hkind, hrest⟩ := readFrom_token h
  refine ⟨?_, hrest⟩
  simp [isText, hkind, sigilOf_kind_ne_text]

theorem fits_tag {d : Delimiters} {p : Place} {cs : List Char} {tag : Tag}
    (hs : standsAt d.opening.toList cs = true) (h : readTag d p cs = .ok tag) :
    tag.token.Fits p.offset tag.lexeme := by
  simp only [standsAt, Bool.and_eq_true, Bool.not_eq_true', List.isEmpty_eq_false_iff] at hs
  obtain ⟨-, hopening⟩ := readTag_append (List.isPrefixOf_iff_prefix.mp hs.2) h
  obtain ⟨htext, hstart, hstop, hdelims, hindent, -⟩ := readTag_token h
  refine ⟨hstart, hstop, ?_, ?_, ?_, fun _ => by rwa [hdelims], hindent⟩
  · rintro hnil
    rw [hnil, List.prefix_nil] at hopening
    exact hs.1 hopening
  · simp [htext]
  · simp [htext]

theorem takeText_of_nextPiece {d : Delimiters} {p : Place} {cs text rest : List Char}
    (h : nextPiece d p cs = .ok (.text text rest)) :
    text ≠ [] ∧ takeText d.opening.toList cs = (text, rest) := by
  unfold nextPiece at h
  split at h
  · cases hr : readTag d p cs <;> simp [hr, Except.map] at h
  · rename_i text' rest' hne htake
    simp only [Except.ok.injEq, Piece.text.injEq] at h
    obtain ⟨rfl, rfl⟩ := h
    exact ⟨fun hnil => hne hnil, htake⟩

theorem readTag_of_nextPiece {d : Delimiters} {p : Place} {cs : List Char} {tag : Tag}
    (hcs : cs ≠ []) (h : nextPiece d p cs = .ok (.tag tag)) :
    standsAt d.opening.toList cs = true ∧ readTag d p cs = .ok tag := by
  unfold nextPiece at h
  split at h
  · rename_i rest htake
    refine ⟨takeText_eq_nil hcs (by rw [htake]), ?_⟩
    cases hr : readTag d p cs with
    | error e => simp [hr, Except.map] at h
    | ok t => simpa [hr, Except.map] using h
  · simp at h

/-- **The pieces of a source tile it.** -/
theorem tiling_of_pieces {d : Delimiters} {p : Place} {cs : List Char} {ts : List Token}
    (h : pieces d p cs = .ok ts) : Tiling p.offset cs ts := by
  fun_induction pieces d p cs generalizing ts with
  | case1 =>
    obtain rfl := Except.ok.inj h
    exact .nil _
  | case2 => simp at h
  | case3 d p c cs text more hpiece next token =>
    rename_i ih
    obtain ⟨hne, htake⟩ := takeText_of_nextPiece hpiece
    have happ := takeText_append d.opening.toList (c :: cs)
    rw [htake] at happ
    cases hmore : pieces d next more with
    | error e => simp [hmore, Except.map] at h
    | ok us =>
      rw [hmore] at h
      obtain rfl := Except.ok.inj h
      rw [← happ]
      exact .cons (fits_text hne htake) (ih hmore)
  | case4 d p c cs tag hpiece ih =>
    obtain ⟨hs, hread⟩ := readTag_of_nextPiece (by simp) hpiece
    have hs' := hs
    simp only [standsAt, Bool.and_eq_true] at hs'
    obtain ⟨happ, -⟩ := readTag_append (List.isPrefixOf_iff_prefix.mp hs'.2) hread
    obtain ⟨-, -, -, -, -, hnext⟩ := readTag_token hread
    cases hmore : pieces tag.delimiters tag.next tag.rest with
    | error e => simp [hmore, Except.map] at h
    | ok us =>
      rw [hmore] at h
      obtain rfl := Except.ok.inj h
      rw [← happ]
      exact .cons (fits_tag hs hread) (hnext ▸ ih hmore)

/-! ### Where the tokens of a tiling lie -/

namespace Tiling

theorem append_iff {n : Nat} {cs : List Char} {ts us : List Token} :
    Tiling n cs (ts ++ us) ↔ ∃ as bs, cs = as ++ bs ∧ Tiling n as ts ∧
      Tiling (n + Text.byteLength as) bs us := by
  induction ts generalizing n cs with
  | nil =>
    constructor
    · intro h
      exact ⟨[], cs, rfl, .nil n, h⟩
    · rintro ⟨as, bs, rfl, has, hbs⟩
      cases has
      simpa using hbs
  | cons t ts ih =>
    constructor
    · intro h
      cases h with
      | @cons _ _ lexeme rest _ hfits hrest =>
        obtain ⟨as, bs, rfl, has, hbs⟩ := ih.mp hrest
        refine ⟨lexeme ++ as, bs, by simp, .cons hfits has, ?_⟩
        rw [Text.byteLength_append, ← Nat.add_assoc, ← hfits.stop_eq]
        exact hbs
    · rintro ⟨as, bs, rfl, has, hbs⟩
      cases has with
      | @cons _ _ lexeme rest _ hfits hrest =>
        rw [Text.byteLength_append, ← Nat.add_assoc, ← hfits.stop_eq] at hbs
        rw [List.append_assoc]
        exact .cons hfits (ih.mpr ⟨rest, bs, rfl, hrest, hbs⟩)

/-- Each token lies on a part of the text. -/
theorem exists_fits {n : Nat} {cs : List Char} {ts : List Token} (h : Tiling n cs ts)
    {t : Token} (ht : t ∈ ts) :
    ∃ before lexeme after, cs = before ++ lexeme ++ after ∧
      t.Fits (n + Text.byteLength before) lexeme := by
  obtain ⟨us, vs, rfl⟩ := List.append_of_mem ht
  obtain ⟨as, bs, rfl, -, hbs⟩ := append_iff.mp h
  cases hbs with
  | @cons _ _ lexeme rest _ hfits _ => exact ⟨as, lexeme, rest, by simp, hfits⟩

theorem bounds {n : Nat} {cs : List Char} {ts : List Token} (h : Tiling n cs ts) {t : Token}
    (ht : t ∈ ts) : n ≤ t.start ∧ t.start < t.stop ∧ t.stop ≤ n + Text.byteLength cs := by
  obtain ⟨before, lexeme, after, rfl, hfits⟩ := h.exists_fits ht
  have := hfits.start_lt_stop
  have := hfits.start_eq
  have := hfits.stop_eq
  simp only [Text.byteLength_append]
  omega

theorem pairwise {n : Nat} {cs : List Char} {ts : List Token} (h : Tiling n cs ts) :
    ts.Pairwise fun t u => t.stop ≤ u.start := by
  induction h with
  | nil => exact .nil
  | cons hfits hrest ih => exact .cons (fun u hu => (hrest.bounds hu).1) ih

/-- Each byte belongs to a token. -/
theorem exists_covers {n : Nat} {cs : List Char} {ts : List Token} (h : Tiling n cs ts) {i : Nat}
    (hn : n ≤ i) (hi : i < n + Text.byteLength cs) : ∃ t ∈ ts, t.start ≤ i ∧ i < t.stop := by
  induction h with
  | nil => simp at hi; omega
  | @cons n t lexeme rest ts hfits hrest ih =>
    have hstart := hfits.start_eq
    have hstop := hfits.stop_eq
    rw [Text.byteLength_append] at hi
    by_cases hlt : i < t.stop
    · exact ⟨t, by simp, by omega, hlt⟩
    · obtain ⟨u, hu, hcovers⟩ := ih (by omega) (by omega)
      exact ⟨u, List.mem_cons_of_mem _ hu, hcovers⟩

/-- A byte belongs to one token only. -/
theorem eq_of_covers {n : Nat} {cs : List Char} {ts : List Token} (h : Tiling n cs ts)
    {t u : Token} (ht : t ∈ ts) (hu : u ∈ ts) {i : Nat} (hti : t.start ≤ i) (hit : i < t.stop)
    (hui : u.start ≤ i) (hiu : i < u.stop) : t = u := by
  induction h with
  | nil => simp at ht
  | cons hfits hrest ih =>
    rcases List.mem_cons.mp ht with rfl | ht' <;> rcases List.mem_cons.mp hu with rfl | hu'
    · rfl
    · have := (hrest.bounds hu').1
      omega
    · have := (hrest.bounds ht').1
      omega
    · exact ih ht' hu'

/-- The last token stops where the text does. -/
theorem stop_concat {n : Nat} {cs : List Char} {ts : List Token} {t : Token}
    (h : Tiling n cs (ts ++ [t])) : t.stop = n + Text.byteLength cs := by
  obtain ⟨as, bs, rfl, -, hbs⟩ := append_iff.mp h
  cases hbs with
  | @cons _ _ lexeme rest _ hfits hrest =>
    cases hrest
    rw [hfits.stop_eq, List.append_nil, Text.byteLength_append, Nat.add_assoc]

end Tiling

end Mustache.Token
