import Mustache.Proofs.Token.Placed

/-!
Texts that run on. Where a tag is taken out of a source, the text in front of it runs on into the
text behind it, unless it has ended its line. But for that, what stands in front of the tag and what
stands behind it are read as they were. Main statement: `pieces_join`.
-/

namespace Mustache

/-- The two parts of a text are as long as they are. -/
theorem Text.append_inj_of_byteLength {a b a' b' : List Char} (h : a ++ a' = b ++ b')
    (hlength : byteLength a = byteLength b) : a = b ∧ a' = b' := by
  have hcut := splitAtByte?_byteLength a a'
  rw [hlength, h, splitAtByte?_byteLength] at hcut
  obtain ⟨rfl, rfl⟩ := Prod.mk.inj (Option.some.inj hcut)
  exact ⟨rfl, rfl⟩

namespace Token

/-! ### Tokens put together -/

/-- The first text run on into the second. -/
def fuse (t u : Token) : Token := { t with value := t.value ++ u.value, stop := u.stop }

/-- A token in front of others. If it is a text that does not end its line, it runs on into a text
that follows. -/
def attach (t : Token) : List Token → List Token
  | [] => [t]
  | u :: us => if t.isText && !t.endsLine && u.isText then t.fuse u :: us else t :: u :: us

/-- Tokens in front of others, into which the last of them may run on. -/
def join : List Token → List Token → List Token
  | [], us => us
  | [t], us => attach t us
  | t :: t' :: ts, us => t :: join (t' :: ts) us

theorem join_nil (ts : List Token) : join ts [] = ts := by
  induction ts with
  | nil => rfl
  | cons t ts ih =>
    cases ts with
    | nil => rfl
    | cons t' ts => rw [join, ih]

theorem join_concat (ts : List Token) (t : Token) (us : List Token) :
    join (ts ++ [t]) us = ts ++ attach t us := by
  induction ts with
  | nil => rfl
  | cons t' ts ih =>
    cases ts with
    | nil => rfl
    | cons t'' ts => exact congrArg (t' :: ·) ih

theorem attach_of_tag {t : Token} {us : List Token} (h : ∀ u ∈ us.head?, u.isText = false) :
    attach t us = t :: us := by
  cases us with
  | nil => rfl
  | cons u us => simp [attach, h u rfl]

theorem attach_of_closed {t : Token} (h : t.isText = false ∨ t.endsLine = true) (us : List Token) :
    attach t us = t :: us := by
  cases us with
  | nil => rfl
  | cons u us => rcases h with h | h <;> simp [attach, h]

theorem join_cons_of_closed {t : Token} (h : t.isText = false ∨ t.endsLine = true)
    (ts us : List Token) : join (t :: ts) us = t :: join ts us := by
  cases ts with
  | nil => exact attach_of_closed h us
  | cons t' ts => rfl

/-! ### Texts -/

theorem not_standsAt_of_takeText {opening cs text rest : List Char} (hne : text ≠ [])
    (h : takeText opening cs = (text, rest)) : ¬ standsAt opening cs = true := by
  intro hstands
  cases cs with
  | nil => exact hne (congrArg Prod.fst h).symm
  | cons c cs =>
    rw [takeText, if_pos hstands] at h
    exact hne (congrArg Prod.fst h).symm

/-- A text in front of a tag is read in the same way whatever stands behind what of the tag is
there. -/
theorem takeText_in_front {opening text before : List Char} (hopening : opening ≠ [])
    (h : takeText opening (text ++ before) = (text, before)) (hbefore : opening <+: before)
    (more : List Char) : takeText opening (text ++ (before ++ more)) = (text, before ++ more) := by
  induction text with
  | nil =>
    obtain ⟨b, before, rfl⟩ := List.exists_cons_of_ne_nil (hbefore.ne_nil hopening)
    have hstands := standsAt_of_isPrefix hopening (hbefore.trans (List.prefix_append _ more))
    exact if_pos hstands
  | cons c text ih =>
    rw [List.cons_append, takeText] at h ⊢
    split at h
    · cases h
    · rename_i hnot
      have hnot' : ¬ standsAt opening (c :: (text ++ (before ++ more))) = true := by
        intro hstands
        refine hnot ?_
        rw [standsAt, Bool.and_eq_true, List.isPrefixOf_iff_prefix] at hstands ⊢
        refine ⟨hstands.1, List.prefix_of_prefix_length_le hstands.2 ?_ ?_⟩
        · rw [← List.append_assoc]
          exact List.prefix_append (c :: (text ++ before)) more
        · have hle := hbefore.length_le
          simp only [List.length_cons, List.length_append]
          omega
      rw [if_neg hnot']
      split at h
      · rename_i hc
        obtain rfl := (List.cons.inj (Prod.mk.inj h).1).2
        rw [if_pos hc, List.nil_append]
      · rename_i hc
        obtain ⟨htext, hrest⟩ := Prod.mk.inj h
        rw [if_neg hc, ih (Prod.ext (List.cons.inj htext).2 hrest)]

/-- The text stands in front of a tag, so it does not end with a brace. -/
theorem getLast?_ne_brace {text rest : List Char}
    (h : takeText Delimiters.standard.opening.toList (text ++ rest) = (text, rest))
    (hrest : standsAt Delimiters.standard.opening.toList rest = true) :
    text.getLast? ≠ some '\x7b' := by
  induction text with
  | nil => exact nofun
  | cons c cs ih =>
    rw [List.cons_append, takeText] at h
    split at h
    · cases h
    · rename_i hnot
      cases cs with
      | nil =>
        rintro hc
        obtain rfl : c = '\x7b' := Option.some.inj hc
        obtain ⟨more, rfl⟩ := List.isPrefixOf_iff_prefix.mp (Bool.and_eq_true_iff.mp hrest).2
        exact hnot rfl
      | cons b cs =>
        rw [List.getLast?_cons_cons]
        split at h
        · cases h
        · obtain ⟨htext, hrest'⟩ := Prod.mk.inj h
          exact ih (Prod.ext (List.cons.inj htext).2 hrest')

/-- A text that ends neither with a brace nor with a newline runs on. -/
theorem takeText_fused {text : List Char}
    (h : takeText Delimiters.standard.opening.toList text = (text, []))
    (hbrace : text.getLast? ≠ some '\x7b') (hline : text.getLast? ≠ some '\n') (more : List Char) :
    takeText Delimiters.standard.opening.toList (text ++ more) =
      (text ++ (takeText Delimiters.standard.opening.toList more).1,
        (takeText Delimiters.standard.opening.toList more).2) := by
  induction text with
  | nil => rfl
  | cons c cs ih =>
    rw [takeText] at h
    split at h
    · cases h
    · rename_i hnot
      -- a delimiter that begins with this character is not made by what follows
      have hnot' : ¬ standsAt Delimiters.standard.opening.toList (c :: (cs ++ more)) = true := by
        intro hstands
        cases cs with
        | nil =>
          refine hbrace (congrArg some ?_)
          have hfront := (Bool.and_eq_true_iff.mp hstands).2
          exact (beq_iff_eq.mp (Bool.and_eq_true_iff.mp hfront).1).symm
        | cons b cs => exact hnot hstands
      rw [List.cons_append, takeText, if_neg hnot']
      split at h
      · rename_i hc
        obtain rfl := (List.cons.inj (Prod.mk.inj h).1).2
        exact absurd (congrArg some hc) hline
      · rename_i hc
        obtain ⟨htext, hrest⟩ := Prod.mk.inj h
        have hcs : cs.getLast? ≠ some '\x7b' ∧ cs.getLast? ≠ some '\n' := by
          cases cs with
          | nil => exact ⟨by simp, by simp⟩
          | cons b cs =>
            rw [List.getLast?_cons_cons] at hbrace hline
            exact ⟨hbrace, hline⟩
        rw [if_neg hc, ih (Prod.ext (List.cons.inj htext).2 hrest) hcs.1 hcs.2]
        rfl

/-! ### Pieces -/

theorem eq_nil_or_cons_of_pieces {d : Delimiters} (hd : d.SingleLine) {p : Place} {cs : List Char}
    {t : Token} {ts : List Token} (h : pieces d p cs = .ok (t :: ts)) :
    (∃ text rest, text ≠ [] ∧ cs = text ++ rest ∧
      takeText d.opening.toList (text ++ rest) = (text, rest) ∧ t = ofText d p text ∧
      pieces d (p.advance text) rest = .ok ts) ∨
    ∃ tag : Tag, cs = tag.lexeme ++ tag.rest ∧ d.opening.toList <+: tag.lexeme ∧
      readTag d p cs = .ok tag ∧ t = tag.token ∧
      pieces (d.through [t]) (p.advance tag.lexeme) tag.rest = .ok ts := by
  cases cs with
  | nil =>
    rw [pieces] at h
    cases h
  | cons c cs =>
    rw [pieces_cons] at h
    cases hpiece : nextPiece d p (c :: cs) with
    | error f =>
      rw [hpiece] at h
      cases h
    | ok piece =>
      rw [hpiece] at h
      cases piece with
      | text text rest =>
        obtain ⟨hne, htake⟩ := takeText_of_nextPiece hpiece
        have happ := takeText_append d.opening.toList (c :: cs)
        rw [htake] at happ
        obtain ⟨us, hus, heq⟩ := exists_of_map_eq_ok h
        obtain ⟨rfl, rfl⟩ := List.cons.inj heq
        exact .inl ⟨text, rest, hne, happ.symm, happ.symm ▸ htake, rfl, hus⟩
      | tag tag =>
        obtain ⟨hstands, hread⟩ := readTag_of_nextPiece (List.cons_ne_nil c cs) hpiece
        have hfront := List.isPrefixOf_iff_prefix.mp (Bool.and_eq_true_iff.mp hstands).2
        obtain ⟨happ, hlexeme⟩ := readTag_append hfront hread
        obtain ⟨hnext, -, hdelimiters⟩ := next_of_readTag hd hfront hread
        obtain ⟨us, hus, heq⟩ := exists_of_map_eq_ok h
        obtain ⟨rfl, rfl⟩ := List.cons.inj heq
        rw [hdelimiters, hnext] at hus
        exact .inr ⟨tag, happ.symm, hlexeme, hread, rfl, hus⟩

/-- What a text becomes when a source is put behind it. -/
theorem pieces_text_append {p : Place} {text : List Char} (hne : text ≠ [])
    (h : takeText Delimiters.standard.opening.toList text = (text, []))
    (hbrace : text.getLast? ≠ some '\x7b') (more : List Char) :
    pieces .standard p (text ++ more) =
      (pieces .standard (p.advance text) more).map (attach (ofText .standard p text)) := by
  have hd := Delimiters.writable_standard.singleLine
  have hends : (ofText .standard p text).endsLine = (text.getLast? == some '\n') := by
    simp [endsLine, isText, ofText]
  by_cases hline : text.getLast? = some '\n'
  · have htake := takeText_append_right hd.newline_notMem_opening (List.mem_of_getLast? hline) more
    rw [h] at htake
    rw [pieces_of_takeText hne htake]
    have hclosed : (ofText .standard p text).endsLine = true := by
      rw [hends, hline]
      rfl
    refine congrArg (Except.map · _) (funext fun us => ?_)
    exact (attach_of_closed (.inr hclosed) us).symm
  · have htake := takeText_fused h hbrace hline more
    cases hmore : takeText Delimiters.standard.opening.toList more with
    | mk x rest =>
      rw [hmore] at htake
      rw [pieces_of_takeText (by simp [hne]) htake]
      by_cases hx : x = []
      · -- nothing or a tag follows
        subst hx
        have hrest : rest = more := by
          have happ := takeText_append Delimiters.standard.opening.toList more
          rwa [hmore, List.nil_append] at happ
        subst hrest
        rw [List.append_nil]
        cases hus : pieces .standard (p.advance text) rest with
        | error f => rfl
        | ok us =>
          refine congrArg Except.ok (attach_of_tag fun u hu => ?_).symm
          by_cases hnil : rest = []
          · subst hnil
            obtain rfl : us = [] := by simpa [pieces] using hus.symm
            cases hu
          · have hstands := takeText_eq_nil hnil (congrArg Prod.fst hmore)
            obtain ⟨v, vs, rfl, hv⟩ := exists_tag_of_pieces hstands hus
            exact Option.some.inj hu ▸ hv
      · rw [pieces_of_takeText hx hmore, ← Place.advance_append]
        cases pieces .standard (p.advance (text ++ x)) rest with
        | error f => rfl
        | ok us =>
          refine congrArg Except.ok (Eq.symm ?_)
          have hopen : (ofText .standard p text).endsLine = false := by
            rw [hends]
            exact beq_eq_false_iff_ne.mpr hline
          show (if true && !(ofText .standard p text).endsLine && true then _ else _) = _
          rw [hopen]
          simp [fuse, ofText, Place.advance, Text.byteLength_append, Nat.add_assoc]

/-- **What stands in front of a tag is read in the same way in front of anything else**, except that
a text at its end may run on. -/
theorem pieces_join {p : Place} {cs : List Char} {ts us : List Token} {tag : Token}
    (h : pieces .standard p cs = .ok (ts ++ tag :: us)) (htag : tag.isText = false)
    (hplain : ∀ t ∈ ts, t.kind ≠ .delimiters) :
    ∃ front rest, cs = front ++ rest ∧ Delimiters.standard.opening.toList <+: rest ∧
      (Delimiters.standard.opening.toList <+: cs →
        front = [] ∨ Delimiters.standard.opening.toList <+: front) ∧
      pieces .standard (p.advance front) rest = .ok (tag :: us) ∧
      ∀ more, pieces .standard p (front ++ more) =
        (pieces .standard (p.advance front) more).map (join ts) := by
  have hd := Delimiters.writable_standard.singleLine
  have hmap : ∀ (f g : List Token → List Token) (r : Except Fault (List Token)),
      (r.map f).map g = r.map fun us => g (f us) := by
    intro f g r
    cases r <;> rfl
  induction ts generalizing p cs with
  | nil =>
    refine ⟨[], cs, rfl, ?_, fun _ => .inl rfl, h, fun more => ?_⟩
    · rcases eq_nil_or_cons_of_pieces hd h with ⟨text, _, -, -, -, rfl, -⟩ | ⟨tag', rfl, hfront, -⟩
      · cases htag
      · exact hfront.trans (List.prefix_append _ _)
    · change pieces .standard p more = (pieces .standard p more).map id
      cases pieces .standard p more <;> rfl
  | cons t ts ih =>
    obtain ⟨ht, hts⟩ := List.forall_mem_cons.mp hplain
    rcases eq_nil_or_cons_of_pieces hd h with
      ⟨text, rest, hne, rfl, htake, rfl, hrest⟩ | ⟨lead, rfl, hfront, hread, rfl, hrest⟩
    · obtain ⟨front, rest', rfl, hopens, hstart, hmore, hjoin⟩ := ih hrest hts
      have hfront : pieces .standard (p.advance text) front = .ok ts := by
        have h := hjoin []
        rw [pieces, List.append_nil] at h
        rw [h]
        exact congrArg Except.ok (join_nil ts)
      refine ⟨text ++ front, rest', (List.append_assoc _ _ _).symm, hopens, fun h => ?_, ?_,
        fun more => ?_⟩
      · exact absurd (standsAt_of_isPrefix hd.opening_ne_nil h)
          (not_standsAt_of_takeText hne htake)
      · rwa [Place.advance_append]
      · rw [List.append_assoc, Place.advance_append]
        rcases eq_or_ne front [] with rfl | hne'
        · -- the text is the last of them
          obtain rfl : ts = [] := by simpa [pieces] using hfront.symm
          have hbefore : takeText _ (text ++ []) = (text, []) := takeText_behind htake (.inl rfl)
          rw [List.append_nil] at hbefore
          exact pieces_text_append hne hbefore
            (getLast?_ne_brace htake (standsAt_of_isPrefix hd.opening_ne_nil hopens)) more
        · have htake' : takeText Delimiters.standard.opening.toList (text ++ (front ++ more)) =
              (text, front ++ more) := by
            rcases ends_of_takeText htake with hline | hnil | hstands
            · have hbefore : takeText _ (text ++ []) = (text, []) :=
                takeText_behind htake (.inl rfl)
              rw [List.append_nil] at hbefore
              have hright := takeText_append_right hd.newline_notMem_opening
                (List.mem_of_getLast? hline) (front ++ more)
              rwa [hbefore] at hright
            · exact absurd (List.append_eq_nil_iff.mp hnil).1 hne'
            · have hlead := (hstart (List.isPrefixOf_iff_prefix.mp
                (Bool.and_eq_true_iff.mp hstands).2)).resolve_left hne'
              have hstands' := standsAt_of_isPrefix hd.opening_ne_nil hlead
              exact takeText_in_front hd.opening_ne_nil
                (takeText_behind htake (.inr (.inl hstands'))) hlead more
          rw [pieces_of_takeText hne htake', hjoin more, hmap]
          obtain ⟨t', ts', rfl⟩ := List.exists_cons_of_ne_nil (l := ts) (by
            rintro rfl
            exact hne' (eq_nil_of_pieces hfront))
          rfl
    · rw [Delimiters.through_singleton_of_ne ht] at hrest
      obtain ⟨front, rest', hlead, hopens, -, hmore, hjoin⟩ := ih hrest hts
      have hwhole := hfront.trans (List.prefix_append lead.lexeme lead.rest)
      obtain ⟨hnext, -, hdelimiters⟩ := next_of_readTag hd hwhole hread
      rw [Delimiters.through_singleton_of_ne ht] at hdelimiters
      refine ⟨lead.lexeme ++ front, rest', ?_, hopens,
        fun _ => .inr (hfront.trans (List.prefix_append _ _)), ?_, fun more => ?_⟩
      · rw [hlead, List.append_assoc]
      · rwa [Place.advance_append]
      · have hstands : standsAt Delimiters.standard.opening.toList
            (lead.lexeme ++ (front ++ more)) = true :=
          standsAt_of_isPrefix hd.opening_ne_nil (hfront.trans (List.prefix_append _ _))
        rw [List.append_assoc, Place.advance_append, pieces_of_readTag hstands,
          readTag_behind hd.closing_ne_nil hwhole hread]
        change (pieces lead.delimiters lead.next (front ++ more)).map (lead.token :: ·) = _
        rw [hnext, hdelimiters, hjoin, hmap]
        refine congrArg (Except.map · _) (funext fun us => ?_)
        exact (join_cons_of_closed (.inl (readTag_token hread).1) ts us).symm

/-! ### More than two parts -/

theorem join_append {us : List Token} (hus : us ≠ []) (ts vs : List Token) :
    join (ts ++ us) vs = ts ++ join us vs := by
  obtain ⟨us, u, rfl⟩ := (List.eq_nil_or_concat us).resolve_left hus
  rw [List.concat_eq_append, ← List.append_assoc, join_concat, join_concat, List.append_assoc]

theorem endsLine_fuse {t u : Token} (ht : t.isText = true) (hopen : t.endsLine = false)
    (hu : u.isText = true) : (t.fuse u).endsLine = u.endsLine := by
  have hnot : t.value.toList.getLast? ≠ some '\n' := by
    simpa [endsLine, ht] using hopen
  have hfused : (t.fuse u).isText = true := ht
  have hvalue : (t.fuse u).value = t.value ++ u.value := rfl
  rw [endsLine, endsLine, hfused, hu, hvalue, String.toList_append, List.getLast?_append]
  cases hlast : u.value.toList.getLast? with
  | none => simpa using hnot
  | some c => rfl

/-- A text that has run on into a second one runs on into a third if the second one does. -/
theorem attach_fuse {t u : Token} (ht : t.isText = true) (hopen : t.endsLine = false)
    (hu : u.isText = true) (vs : List Token) :
    attach (t.fuse u) vs = attach t (attach u vs) := by
  have hfused : (t.fuse u).isText = true := ht
  cases vs with
  | nil => simp [attach, ht, hopen, hu]
  | cons v vs =>
    rw [attach, attach, hfused, hu, endsLine_fuse ht hopen hu]
    split
    · have huv : (u.fuse v).isText = true := hu
      rw [attach, huv, ht, hopen]
      simp [fuse, String.append_assoc]
    · simp [attach, ht, hopen, hu]

theorem join_assoc {us : List Token} (hus : us ≠ []) (ts vs : List Token) :
    join (join ts us) vs = join ts (join us vs) := by
  rcases List.eq_nil_or_concat ts with rfl | ⟨ts, t, rfl⟩
  · rfl
  obtain ⟨u, us, rfl⟩ := List.exists_cons_of_ne_nil hus
  rw [List.concat_eq_append, join_concat, join_concat]
  by_cases hfuse : t.isText = true ∧ t.endsLine = false ∧ u.isText = true
  · obtain ⟨ht, hopen, hu⟩ := hfuse
    have hattach (ws : List Token) : attach t (u :: ws) = t.fuse u :: ws := by
      simp [attach, ht, hopen, hu]
    rw [hattach, join_append (List.cons_ne_nil _ _)]
    cases us with
    | nil => exact congrArg (ts ++ ·) (attach_fuse ht hopen hu vs)
    | cons u' us => exact congrArg (ts ++ ·) (hattach (join (u' :: us) vs)).symm
  · have hattach {u' : Token} (hu' : u'.isText = u.isText) (ws : List Token) :
        attach t (u' :: ws) = t :: u' :: ws := by
      refine if_neg fun h => hfuse ?_
      simpa [hu', and_assoc] using h
    rw [hattach rfl, show ts ++ t :: u :: us = (ts ++ [t]) ++ u :: us by simp,
      join_append (List.cons_ne_nil _ _), List.append_assoc, List.singleton_append]
    refine congrArg (ts ++ ·) ?_
    cases us with
    | cons u' us => exact (hattach rfl _).symm
    | nil =>
      cases vs with
      | nil => exact (hattach rfl _).symm
      | cons v vs =>
        rw [join, attach]
        split
        · exact (@hattach (u.fuse v) rfl vs).symm
        · exact (hattach rfl _).symm

/-! ### Tokens on their own -/

theorem pieces_of_moved {n m : Nat} {d : Delimiters} {p : Place} {cs : List Char} {ts : List Token}
    (h : pieces d (p.moved n m) cs = .ok ts) :
    ∃ us, pieces d p cs = .ok us ∧ ts = us.map (moved n m) := by
  rw [pieces_moved] at h
  cases hpieces : pieces d p cs with
  | error f =>
    rw [hpieces] at h
    cases h
  | ok us =>
    rw [hpieces] at h
    exact ⟨us, rfl, (Except.ok.inj h).symm⟩

/-- The place behind some text is the start of a source, moved. -/
theorem advance_start_eq_moved (cs : List Char) : (⟨0, 1⟩ : Place).advance cs =
    (⟨0, 1⟩ : Place).moved (Text.byteLength cs) (Text.newlines cs) := by
  rw [advance_start]
  simp only [Place.moved, Nat.zero_add, Nat.add_comm 1]

/-- **What stands in front of a tag**, as in `pieces_join`, where it is known how far it goes. -/
theorem pieces_join_of_start {p : Place} {front rest : List Char} {ts us : List Token} {tag : Token}
    (h : pieces .standard p (front ++ rest) = .ok (ts ++ tag :: us)) (htag : tag.isText = false)
    (hplain : ∀ t ∈ ts, t.kind ≠ .delimiters)
    (hstart : tag.start = p.offset + Text.byteLength front) :
    pieces .standard (p.advance front) rest = .ok (tag :: us) ∧
      ∀ more, pieces .standard p (front ++ more) =
        (pieces .standard (p.advance front) more).map (join ts) := by
  obtain ⟨front', rest', happ, -, -, hrest, hjoin⟩ := pieces_join h htag hplain
  have hstart' : tag.start = p.offset + Text.byteLength front' := by
    cases tiling_of_pieces hrest with
    | cons hfits _ => exact hfits.start_eq
  obtain ⟨rfl, rfl⟩ := Text.append_inj_of_byteLength happ (by omega)
  exact ⟨hrest, hjoin⟩

/-- What stands behind a tag, where it is known how far the tag goes. -/
theorem pieces_behind_of_stop {p : Place} {lexeme rest : List Char} {us : List Token} {tag : Token}
    (h : pieces .standard p (lexeme ++ rest) = .ok (tag :: us)) (htag : tag.isText = false)
    (hplain : tag.kind ≠ .delimiters) (hstop : tag.stop = p.offset + Text.byteLength lexeme) :
    pieces .standard (p.advance lexeme) rest = .ok us := by
  rcases eq_nil_or_cons_of_pieces Delimiters.writable_standard.singleLine h with
    ⟨text, _, -, -, -, rfl, -⟩ | ⟨tag', happ, -, hread, rfl, hrest⟩
  · cases htag
  · obtain ⟨-, -, hstop', -⟩ := readTag_token hread
    obtain ⟨rfl, rfl⟩ := Text.append_inj_of_byteLength happ (by omega)
    rwa [Delimiters.through_singleton_of_ne hplain] at hrest

end Token

end Mustache
