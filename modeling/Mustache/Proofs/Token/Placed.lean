import Mustache.Proofs.Token.Joined
import Mustache.Proofs.Token.Switch

/-!
Where tokens and faults stand. A token is on the line it begins on, and so is the tag that a source
cannot be scanned for: in front of it stands a source that can. Main statements:
`exists_append_of_mem_scan` and `exists_fault_of_scan`.
-/

namespace Mustache.Token

variable {d : Delimiters} {p : Place}

/-! ### Steps of scanning -/

/-- The token of a text at a place. -/
def ofText (d : Delimiters) (p : Place) (text : List Char) : Token where
  kind := .text
  value := String.ofList text
  line := p.line
  start := p.offset
  stop := (p.advance text).offset
  delimiters := d
  indent := none

theorem line_of_readTag {cs : List Char} {tag : Tag} (h : readTag d p cs = .ok tag) :
    tag.token.line = p.line := by
  unfold readTag readFrom at h
  dsimp only at h
  split at h
  · cases h
  · split at h
    · cases h
    · cases h
      rfl

theorem place_of_readTag {cs : List Char} {f : Fault} (h : readTag d p cs = .error f) :
    f.place = p := by
  unfold readTag readFrom at h
  dsimp only at h
  split at h
  · cases h
    rfl
  · split at h
    · cases h
      rfl
    · cases h

/-- How a source is scanned from a place: there is none, a text stands in front, or a tag that can
be read or cannot. -/
inductive Scans : Delimiters → Place → List Char → Except Fault (List Token) → Prop
  | nil (d : Delimiters) (p : Place) : Scans d p [] (.ok [])
  | text {d : Delimiters} {p : Place} {text rest : List Char} {r : Except Fault (List Token)}
    (hne : text ≠ []) (htake : takeText d.opening.toList (text ++ rest) = (text, rest))
    (hrest : Scans d (p.advance text) rest r) :
    Scans d p (text ++ rest) (r.map (ofText d p text :: ·))
  | tag {d : Delimiters} {p : Place} {tag : Tag} {r : Except Fault (List Token)}
    (hfront : d.opening.toList <+: tag.lexeme)
    (hread : readTag d p (tag.lexeme ++ tag.rest) = .ok tag)
    (hrest : Scans (d.through [tag.token]) (p.advance tag.lexeme) tag.rest r) :
    Scans d p (tag.lexeme ++ tag.rest) (r.map (tag.token :: ·))
  | fault {d : Delimiters} {p : Place} {cs : List Char} {f : Fault}
    (hfront : d.opening.toList <+: cs) (hread : readTag d p cs = .error f) :
    Scans d p cs (.error f)

theorem scans_pieces (hd : d.SingleLine) (p : Place) (cs : List Char) :
    Scans d p cs (pieces d p cs) := by
  have hfront : ∀ {d : Delimiters} {cs : List Char}, standsAt d.opening.toList cs = true →
      d.opening.toList <+: cs := fun hstands =>
    List.isPrefixOf_iff_prefix.mp (Bool.and_eq_true_iff.mp hstands).2
  fun_induction pieces d p cs with
  | case1 d p => exact .nil d p
  | case2 d p c cs f hpiece =>
    unfold nextPiece at hpiece
    split at hpiece
    · rename_i rest htake
      have hstands := takeText_eq_nil (List.cons_ne_nil c cs) (congrArg Prod.fst htake)
      cases hread : readTag d p (c :: cs) with
      | ok tag =>
        rw [hread] at hpiece
        cases hpiece
      | error f =>
        rw [hread] at hpiece
        obtain rfl := Except.error.inj hpiece
        exact .fault (hfront hstands) hread
    · cases hpiece
  | case3 d p c cs text rest hpiece next token ih =>
    obtain ⟨hne, htake⟩ := takeText_of_nextPiece hpiece
    have happ := takeText_append d.opening.toList (c :: cs)
    rw [htake] at happ
    rw [← happ] at htake ⊢
    exact .text hne htake (ih hd)
  | case4 d p c cs tag hpiece ih =>
    obtain ⟨hstands, hread⟩ := readTag_of_nextPiece (List.cons_ne_nil c cs) hpiece
    obtain ⟨happ, hlexeme⟩ := readTag_append (hfront hstands) hread
    obtain ⟨hnext, -, hdelimiters⟩ := next_of_readTag hd (hfront hstands) hread
    rw [hnext, hdelimiters] at ih ⊢
    rw [← happ] at hread ⊢
    exact .tag hlexeme hread (ih (hd.through _))

theorem exists_of_map_eq_ok {α : Type} {f : List Token → α} {r : Except Fault (List Token)} {a : α}
    (h : r.map f = .ok a) : ∃ ts, r = .ok ts ∧ f ts = a := by
  cases r with
  | error e => cases h
  | ok ts => exact ⟨ts, rfl, Except.ok.inj h⟩

theorem eq_error_of_map_eq_error {α : Type} {f : List Token → α} {r : Except Fault (List Token)}
    {e : Fault} (h : r.map f = .error e) : r = .error e := by
  cases r with
  | error e => exact congrArg Except.error (Except.error.inj h)
  | ok ts => cases h

/-! ### Places of tokens -/

theorem Place.advance_nil (p : Place) : p.advance [] = p := rfl

/-- A token stands in front of some of the source, behind what its line and offset count. -/
structure BeginsIn (t : Token) (p : Place) (cs before rest : List Char) : Prop where
  append : cs = before ++ rest
  ne_nil : rest ≠ []
  place : ⟨t.start, t.line⟩ = p.advance before

theorem BeginsIn.behind {t : Token} {p : Place} {front cs before rest : List Char}
    (h : t.BeginsIn (p.advance front) cs before rest) :
    t.BeginsIn p (front ++ cs) (front ++ before) rest where
  append := by rw [h.append, List.append_assoc]
  ne_nil := h.ne_nil
  place := by rw [h.place, Place.advance_append]

theorem exists_beginsIn_of_scans {cs : List Char} {r : Except Fault (List Token)}
    (hd : d.SingleLine) (h : Scans d p cs r) {ts : List Token} (hr : r = .ok ts) {t : Token}
    (ht : t ∈ ts) : ∃ before rest, t.BeginsIn p cs before rest := by
  induction h generalizing ts with
  | nil d p =>
    obtain rfl := Except.ok.inj hr
    cases ht
  | @text d p text rest r hne _ _ ih =>
    obtain ⟨us, hus, rfl⟩ := exists_of_map_eq_ok hr
    rcases List.mem_cons.mp ht with rfl | ht
    · exact ⟨[], text ++ rest, rfl, by simp [hne], rfl⟩
    · obtain ⟨before, rest', hplaced⟩ := ih hd hus ht
      exact ⟨_, rest', hplaced.behind⟩
  | @tag d p tag r hfront hread _ ih =>
    obtain ⟨us, hus, rfl⟩ := exists_of_map_eq_ok hr
    rcases List.mem_cons.mp ht with rfl | ht
    · obtain ⟨-, hstart, -⟩ := readTag_token hread
      refine ⟨[], tag.lexeme ++ tag.rest, rfl, ?_, ?_⟩
      · simp [hfront.ne_nil hd.opening_ne_nil]
      · rw [hstart, line_of_readTag hread, Place.advance_nil]
    · obtain ⟨before, rest', hplaced⟩ := ih (hd.through _) hus ht
      exact ⟨_, rest', hplaced.behind⟩
  | fault _ _ => cases hr

/-! ### Places of faults -/

/-- The source goes on behind `before` with a tag that cannot be read, and what stands in front of
that tag can be. -/
structure FailsAt (d : Delimiters) (p : Place) (cs before rest : List Char) (f : Fault) :
    Prop where
  append : cs = before ++ rest
  place : f.place = p.advance before
  tag : ∃ ts, pieces d p before = .ok ts ∧ (d.through ts).opening.toList <+: rest ∧
    readTag (d.through ts) f.place rest = .error f

theorem standsAt_of_isPrefix {opening cs : List Char} (hne : opening ≠ []) (h : opening <+: cs) :
    standsAt opening cs = true := by
  obtain ⟨rest, rfl⟩ := h
  exact standsAt_append hne rest

/-- A text in front of a tag is read in the same way whatever of the tag is there. -/
theorem takeText_behind {opening text before after : List Char}
    (h : takeText opening (text ++ (before ++ after)) = (text, before ++ after))
    (hbefore : before = [] ∨ standsAt opening before = true ∨ text.getLast? = some '\n') :
    takeText opening (text ++ before) = (text, before) := by
  induction text with
  | nil =>
    rcases hbefore with rfl | hstands | hlast
    · rfl
    · cases before with
      | nil => rfl
      | cons c before => rw [List.nil_append, takeText, if_pos hstands]
    · cases hlast
  | cons c text ih =>
    rw [List.cons_append, takeText] at h ⊢
    -- the delimiter does not stand here, with or without what comes after
    have hnot : ¬ standsAt opening (c :: (text ++ before)) = true := by
      intro hstands
      rw [standsAt, Bool.and_eq_true, List.isPrefixOf_iff_prefix] at hstands
      have hlonger : standsAt opening (c :: (text ++ (before ++ after))) = true := by
        rw [standsAt, Bool.and_eq_true, List.isPrefixOf_iff_prefix, ← List.append_assoc]
        exact ⟨hstands.1, hstands.2.trans (List.prefix_append (c :: (text ++ before)) after)⟩
      rw [if_pos hlonger] at h
      cases h
    rw [if_neg hnot]
    split at h
    · cases h
    · split at h
      · rename_i hc
        obtain ⟨htext, hrest⟩ := Prod.mk.inj h
        obtain rfl := (List.cons.inj htext).2
        rw [if_pos hc, List.nil_append]
      · rename_i hc
        obtain ⟨htext, hrest⟩ := Prod.mk.inj h
        have htake := ih (Prod.ext (List.cons.inj htext).2 hrest) ?_
        · rw [if_neg hc, htake]
        · refine hbefore.imp_right (Or.imp_right fun hlast => ?_)
          cases text with
          | nil => exact absurd (Option.some.inj hlast) hc
          | cons b text => exact hlast

theorem exists_failsAt_of_scans {cs : List Char} {r : Except Fault (List Token)}
    (hd : d.SingleLine) (h : Scans d p cs r) {f : Fault} (hr : r = .error f) :
    ∃ before rest, FailsAt d p cs before rest f ∧
      (d.opening.toList <+: cs → before = [] ∨ d.opening.toList <+: before) := by
  induction h with
  | nil d p => cases hr
  | @text d p text rest r hne htake hrest ih =>
    obtain ⟨before, rest', ⟨rfl, hplace, us, hus, htag⟩, hfront⟩ :=
      ih hd (eq_error_of_map_eq_error hr)
    have hbefore : before = [] ∨ standsAt d.opening.toList before = true ∨
        text.getLast? = some '\n' := by
      rcases ends_of_takeText htake with hlast | hnil | hstands
      · exact .inr (.inr hlast)
      · exact .inl (List.append_eq_nil_iff.mp hnil).1
      · have hprefix := List.isPrefixOf_iff_prefix.mp (Bool.and_eq_true_iff.mp hstands).2
        exact (hfront hprefix).imp_right fun h => .inl (standsAt_of_isPrefix hd.opening_ne_nil h)
    refine ⟨text ++ before, rest', ⟨(List.append_assoc _ _ _).symm, ?_, ofText d p text :: us, ?_,
      ?_⟩, fun h => ?_⟩
    · rw [hplace, Place.advance_append]
    · rw [pieces_of_takeText hne (takeText_behind htake hbefore), hus]
      rfl
    · rwa [Delimiters.through_cons, Delimiters.through_singleton_of_ne (by simp [ofText])]
    · obtain ⟨c, chars, rfl⟩ := List.exists_cons_of_ne_nil hne
      have hstands := standsAt_of_isPrefix hd.opening_ne_nil h
      rw [List.cons_append] at hstands htake
      rw [takeText, if_pos hstands] at htake
      cases htake
  | @tag d p tag r hfront hread _ ih =>
    obtain ⟨before, rest', ⟨happ, hplace, us, hus, htag⟩, -⟩ :=
      ih (hd.through _) (eq_error_of_map_eq_error hr)
    have hwhole : d.opening.toList <+: tag.lexeme ++ tag.rest :=
      hfront.trans (List.prefix_append _ _)
    obtain ⟨hnext, -, hdelimiters⟩ := next_of_readTag hd hwhole hread
    refine ⟨tag.lexeme ++ before, rest', ⟨?_, ?_, tag.token :: us, ?_, ?_⟩,
      fun _ => .inr (hfront.trans (List.prefix_append _ _))⟩
    · rw [happ, List.append_assoc]
    · rw [hplace, Place.advance_append]
    · have hstands : standsAt d.opening.toList (tag.lexeme ++ before) = true :=
        standsAt_of_isPrefix hd.opening_ne_nil (hfront.trans (List.prefix_append _ _))
      rw [pieces_of_readTag hstands, readTag_behind hd.closing_ne_nil hwhole hread]
      change (pieces tag.delimiters tag.next before).map (tag.token :: ·) = _
      rw [hnext, hdelimiters, hus]
      rfl
    · rwa [Delimiters.through_cons]
  | @fault d p cs f' hfront hread =>
    obtain rfl := Except.error.inj hr
    have hplace := place_of_readTag hread
    refine ⟨[], cs, ⟨rfl, hplace, [], by rw [pieces], hfront, ?_⟩, fun _ => .inl rfl⟩
    rw [hplace]
    exact hread

/-! ### Scanning -/

/-- The place behind some text at the start of a source. -/
theorem advance_start (before : List Char) : (⟨0, 1⟩ : Place).advance before =
    ⟨Text.byteLength before, Text.newlines before + 1⟩ := by
  simp [Place.advance, Nat.add_comm]

/-- **A token's line is that of its first byte.** -/
theorem exists_append_of_mem_scan (hd : d.SingleLine) {source : String} {ts : List Token}
    (h : scan d source = .ok ts) {t : Token} (ht : t ∈ ts) :
    ∃ before rest, source.toList = before ++ rest ∧ rest ≠ [] ∧
      t.start = Text.byteLength before ∧ t.line = Text.newlines before + 1 := by
  unfold scan at h
  split at h
  · rename_i raw hraw
    obtain rfl := Except.ok.inj h
    obtain ⟨before, rest, happ, hne, hplace⟩ := exists_beginsIn_of_scans hd
      (scans_pieces hd ⟨0, 1⟩ source.toList) hraw
      (bare_mem_of_mem_settle (tiling_of_pieces hraw) ht)
    rw [advance_start] at hplace
    obtain ⟨hstart, hline⟩ := Place.mk.inj hplace
    exact ⟨before, rest, happ, hne, hstart, hline⟩
  · cases h

/-- **A source that cannot be scanned has a tag that cannot be read**, behind a part that can be
scanned, and the error points at this tag. -/
theorem exists_fault_of_scan (hd : d.SingleLine) {source : String} {e : Error}
    (h : scan d source = .error e) :
    ∃ before rest ts defect, source.toList = before ++ rest ∧
      scan d (String.ofList before) = .ok ts ∧ (d.through ts).opening.toList <+: rest ∧
      readTag (d.through ts) ⟨Text.byteLength before, Text.newlines before + 1⟩ rest =
        .error ⟨defect, ⟨Text.byteLength before, Text.newlines before + 1⟩⟩ ∧
      e = .malformed defect (Text.newlines before + 1) none
        (some (Excerpt.atOffset source (Text.byteLength before))) := by
  unfold scan at h
  split at h
  · cases h
  · rename_i f hfault
    obtain rfl := Except.error.inj h
    obtain ⟨before, rest, ⟨happ, hplace, raw, hraw, hfront, hread⟩, -⟩ :=
      exists_failsAt_of_scans hd (scans_pieces hd ⟨0, 1⟩ source.toList) hfault
    rw [advance_start] at hplace
    obtain ⟨defect, place⟩ := f
    obtain rfl : place = _ := hplace
    refine ⟨before, rest, settle raw, defect, happ, ?_, ?_, ?_, rfl⟩
    · unfold scan
      rw [String.toList_ofList, hraw]
    · rwa [through_settle]
    · rwa [through_settle]

end Mustache.Token
