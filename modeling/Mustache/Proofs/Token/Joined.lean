import Mustache.Proofs.Token.Lines
import Mustache.Proofs.Token.Moved
import Mustache.Proofs.Token.Written

/-!
Sources put together. A tag is read to its end before anything behind it is looked at, and so is a
text that ends with a newline. So the tokens of a source behind one that ends with a newline are
those of the first and then those of the second, moved. Main statement: `scan_append_at_newline`.
-/

namespace Mustache.Text

theorem newlines_append (cs more : List Char) :
    newlines (cs ++ more) = newlines cs + newlines more := List.count_append

theorem newlines_eq_zero {cs : List Char} (h : '\n' ∉ cs) : newlines cs = 0 :=
  List.count_eq_zero.mpr h

theorem cutAt?_of_isPrefix (pattern more : List Char) :
    cutAt? pattern (pattern ++ more) = some ([], more) := by
  cases pattern with
  | nil => cases more <;> simp [cutAt?]
  | cons c cs =>
    have hfront : (c :: cs).isPrefixOf (c :: (cs ++ more)) = true :=
      List.isPrefixOf_iff_prefix.mpr (List.prefix_append (c :: cs) more)
    rw [List.cons_append, cutAt?, if_pos hfront, ← List.cons_append, List.drop_left]

/-- What is found in a text is found at the same place whatever stands behind it. -/
theorem cutAt?_behind {pattern cs before after : List Char}
    (h : cutAt? pattern cs = some (before, after)) (more : List Char) :
    cutAt? pattern (before ++ pattern ++ more) = some (before, more) := by
  induction cs generalizing before with
  | nil =>
    rw [cutAt?] at h
    split at h
    · obtain ⟨rfl, -⟩ := Prod.mk.inj (Option.some.inj h)
      exact cutAt?_of_isPrefix pattern more
    · cases h
  | cons c cs ih =>
    rw [cutAt?] at h
    split at h
    · obtain ⟨rfl, -⟩ := Prod.mk.inj (Option.some.inj h)
      exact cutAt?_of_isPrefix pattern more
    · rename_i hfront
      obtain ⟨⟨b, a⟩, hcut, heq⟩ := Option.map_eq_some_iff.mp h
      obtain ⟨rfl, rfl⟩ := Prod.mk.inj heq
      -- what stands behind the pattern has no part in where it is met first
      have hother : ¬ pattern.isPrefixOf (c :: (b ++ pattern ++ more)) = true := by
        intro hother
        refine hfront (List.isPrefixOf_iff_prefix.mpr ?_)
        have hwithin : pattern <+: c :: (b ++ pattern) :=
          List.prefix_of_prefix_length_le (List.isPrefixOf_iff_prefix.mp hother)
            (List.prefix_append (c :: (b ++ pattern)) more)
            (by simp only [List.length_cons, List.length_append]; omega)
        rw [← cutAt?_append hcut]
        exact hwithin.trans (List.prefix_append (c :: (b ++ pattern)) a)
      rw [List.cons_append, List.cons_append, cutAt?, if_neg hother, ih hcut]
      rfl

theorem cutAt?_append_right {pattern cs before after : List Char}
    (h : cutAt? pattern cs = some (before, after)) (more : List Char) :
    cutAt? pattern (cs ++ more) = some (before, after ++ more) := by
  rw [← cutAt?_append h, List.append_assoc]
  exact cutAt?_behind h (after ++ more)

end Mustache.Text

namespace Mustache.Token

theorem Place.advance_append (p : Place) (cs more : List Char) :
    p.advance (cs ++ more) = (p.advance cs).advance more := by
  simp only [Place.advance, Text.byteLength_append, Text.newlines_append, Nat.add_assoc]

/-! ### Tags -/

/-- A sigil is read in the same way whatever stands behind a text that goes on behind it. -/
theorem sigilOf_behind {cs after : List Char} (h : (sigilOf (cs ++ after)).mark.length < cs.length)
    (more : List Char) : sigilOf (cs ++ more) = sigilOf (cs ++ after) := by
  match cs with
  | [] => simp at h
  | [c] =>
    have hpartial : c ≠ '>' := by
      rintro rfl
      cases after with
      | nil => simp [sigilOf, TokenKind.ofSigil?] at h
      | cons a after =>
        by_cases ha : a = '*' <;> simp [sigilOf, TokenKind.ofSigil?, ha] at h
    have hnone : TokenKind.ofSigil? c = none := by
      cases hsigil : TokenKind.ofSigil? c with
      | none => rfl
      | some kind => simp [sigilOf, hsigil, hpartial] at h
    simp [sigilOf, hnone, hpartial]
  | a :: b :: cs =>
    by_cases ha : a = '>'
    · by_cases hb : b = '*' <;> simp [sigilOf, ha, hb]
    · simp [sigilOf, ha]

theorem newline_notMem_sigil (cs : List Char) : '\n' ∉ (sigilOf cs).mark := by
  unfold sigilOf
  split
  · decide
  · split
    · rename_i hkind
      intro hmem
      rw [List.mem_singleton] at hmem
      subst hmem
      cases hkind
    · exact List.not_mem_nil
  · exact List.not_mem_nil

theorem contentOf_behind {d : Delimiters} {sigil : Sigil} {body after : List Char}
    {c : Content} (h : contentOf d sigil body after = .ok c) (more : List Char) :
    contentOf d sigil body (c.brace ++ more) = .ok { c with rest := more } := by
  unfold contentOf at h ⊢
  split
  · rename_i hbraced
    rw [if_pos hbraced] at h
    unfold bracedContent at h ⊢
    split at h
    · rename_i hname
      cases h
      simp only [hname, List.nil_append]
    · rename_i hname
      cases h
      -- the brace in front of the closing delimiter would have been taken first
      split
      · rename_i hname'
        exact absurd hname' (hname _)
      · simp_all
      · simp_all
    · cases h
  · rename_i hbraced
    rw [if_neg hbraced] at h
    repeat' split at h
    all_goals simp_all
    all_goals simp [← h]

variable {d : Delimiters} {p : Place} {cs : List Char} {tag : Tag}

/-- A tag is read in the same way whatever stands behind it. -/
theorem readTag_behind (hd : d.closing.toList ≠ []) (hs : d.opening.toList <+: cs)
    (h : readTag d p cs = .ok tag) (more : List Char) :
    readTag d p (tag.lexeme ++ more) = .ok { tag with rest := more } := by
  obtain ⟨inner, rfl⟩ := hs
  unfold readTag at h ⊢
  simp only [List.drop_left] at h
  unfold readFrom at h
  split at h
  · cases h
  · rename_i body after hcut
    split at h
    · cases h
    · rename_i content hcontent
      obtain rfl := Except.ok.inj h
      -- behind its opening delimiter the tag is the text `core`, a brace perhaps, and the rest
      generalize hclosing : closingOf d (sigilOf inner).kind = closing at hcut
      have hne : closing ≠ [] := by
        rw [← hclosing]
        unfold closingOf
        split
        · exact List.cons_ne_nil _ _
        · exact hd
      have hinner : inner = (sigilOf inner).mark ++ body ++ closing ++ after := by
        obtain ⟨tail, htail⟩ := mark_isPrefix inner
        have hdrop : ((sigilOf inner).mark ++ tail).drop (sigilOf inner).mark.length = tail :=
          List.drop_left
        rw [htail] at hdrop
        rw [hdrop] at hcut
        rw [← Text.cutAt?_append hcut] at htail
        simpa only [List.append_assoc] using htail.symm
      have hsigil : sigilOf ((sigilOf inner).mark ++ body ++ closing ++ (content.brace ++ more)) =
          sigilOf inner := by
        conv_rhs => rw [hinner]
        refine sigilOf_behind ?_ _
        rw [← hinner]
        have := List.length_pos_iff.mpr hne
        simp only [List.length_append]
        omega
      have hlexeme : d.opening.toList ++ (sigilOf inner).mark ++ body ++ closing ++ content.brace ++
          more = d.opening.toList ++ ((sigilOf inner).mark ++ body ++ closing ++
            (content.brace ++ more)) := by
        simp only [List.append_assoc]
      simp only [hlexeme, List.drop_left, hsigil]
      have hbody : ((sigilOf inner).mark ++ body ++ closing ++ (content.brace ++ more)).drop
          (sigilOf inner).mark.length = body ++ closing ++ (content.brace ++ more) := by
        simp only [List.append_assoc, List.drop_left]
      unfold readFrom
      rw [hbody, hclosing, Text.cutAt?_behind hcut]
      simp only [contentOf_behind hcontent]

theorem readTag_append_right (hd : d.closing.toList ≠ []) (hs : d.opening.toList <+: cs)
    (h : readTag d p cs = .ok tag) (more : List Char) :
    readTag d p (cs ++ more) = .ok { tag with rest := tag.rest ++ more } := by
  obtain ⟨happ, -⟩ := readTag_append hs h
  rw [← happ, List.append_assoc]
  exact readTag_behind hd hs h (tag.rest ++ more)

/-- A tag marked by a brace changes no delimiters. -/
theorem kind_of_braced {cs : List Char} (h : (sigilOf cs).braced = true) :
    (sigilOf cs).kind = .unescaped := by
  unfold sigilOf at h ⊢
  split at h
  · cases h
  · rename_i c _ _
    cases hkind : TokenKind.ofSigil? c with
    | none => simp [hkind] at h
    | some kind =>
      simp only [hkind, decide_eq_true_eq] at h ⊢
      subst h
      exact (Option.some.inj hkind).symm
  · cases h

/-- Behind a tag the delimiters are those in front, unless the tag changes them. -/
theorem delimiters_of_content {inner body after : List Char} {content : Content}
    (h : contentOf d (sigilOf inner) body after = .ok content) :
    content.delimiters = if (sigilOf inner).kind = .delimiters then
      (Delimiters.parse? content.value).getD d else d := by
  unfold contentOf at h
  split at h
  · rename_i hbraced
    rw [if_neg (by rw [kind_of_braced hbraced]; decide)]
    unfold bracedContent at h
    split at h <;> cases h <;> rfl
  · split at h
    · rename_i hkind
      cases h
      rw [if_neg (by rw [hkind]; decide)]
    · rename_i hkind
      rw [if_pos hkind]
      split at h
      · rename_i next hparse
        cases h
        dsimp only
        rw [Delimiters.parse?_trim, hparse]
        rfl
      · cases h
    · rename_i hkind
      cases h
      rw [if_neg hkind]

/-- Behind a tag the source goes on where the characters of the tag end, none of which but those
of its body can be a newline. -/
theorem next_of_readTag (hd : d.SingleLine) (hs : d.opening.toList <+: cs)
    (h : readTag d p cs = .ok tag) :
    tag.next = p.advance tag.lexeme ∧ tag.lexeme.getLast? ≠ some '\n' ∧
      tag.delimiters = d.through [tag.token] := by
  obtain ⟨inner, rfl⟩ := hs
  have hclosingOf : ∀ kind, '\n' ∉ closingOf d kind ∧ closingOf d kind ≠ [] := by
    intro kind
    unfold closingOf
    split
    · exact ⟨by simp [hd.newline_notMem_closing], List.cons_ne_nil _ _⟩
    · exact ⟨hd.newline_notMem_closing, hd.closing_ne_nil⟩
  unfold readTag readFrom at h
  simp only [List.drop_left] at h
  split at h
  · cases h
  · rename_i body after hcut
    split at h
    · cases h
    · rename_i content hcontent
      obtain rfl := Except.ok.inj h
      have hbrace : content.brace = [] ∨ content.brace = ['\x7d'] := by
        unfold contentOf bracedContent at hcontent
        repeat' split at hcontent
        all_goals simp_all
        all_goals simp [← hcontent]
      refine ⟨?_, ?_, ?_⟩
      · have hstart := newline_notMem_sigil inner
        have hzero : Text.newlines content.brace = 0 :=
          Text.newlines_eq_zero (by rcases hbrace with h | h <;> simp [h])
        simp [Place.advance, Text.newlines_append,
          Text.newlines_eq_zero hd.newline_notMem_opening, Text.newlines_eq_zero hstart,
          Text.newlines_eq_zero (hclosingOf _).1, hzero]
      · rcases hbrace with hbrace | hbrace
        · rw [hbrace, List.append_nil, List.getLast?_append_of_ne_nil _ (hclosingOf _).2]
          exact fun hlast => (hclosingOf _).1 (List.mem_of_getLast? hlast)
        · simp [hbrace]
      · rw [delimiters_of_content hcontent]
        simp [Delimiters.through]

/-! ### Pieces -/

/-- Nothing, or something that ends with a newline. -/
def Ended (cs : List Char) : Prop := cs = [] ∨ cs.getLast? = some '\n'

theorem Ended.of_append {text rest : List Char} (h : Ended (text ++ rest)) : Ended rest := by
  by_cases hrest : rest = []
  · exact .inl hrest
  · have hends := h.resolve_left fun hnil => hrest (List.append_eq_nil_iff.mp hnil).2
    rw [List.getLast?_append_of_ne_nil _ hrest] at hends
    exact .inr hends

theorem standsAt_append_right {opening : List Char} (hopening : '\n' ∉ opening)
    (hcs : '\n' ∈ cs) (more : List Char) :
    standsAt opening (cs ++ more) = standsAt opening cs := by
  have hfront : opening <+: cs ++ more ↔ opening <+: cs := by
    refine ⟨fun h => ?_, fun h => h.trans (List.prefix_append cs more)⟩
    refine (List.prefix_or_prefix_of_prefix h (List.prefix_append cs more)).resolve_right ?_
    exact fun hle => hopening (hle.subset hcs)
  have hsame : opening.isPrefixOf (cs ++ more) = opening.isPrefixOf cs := by
    rw [Bool.eq_iff_iff, List.isPrefixOf_iff_prefix, List.isPrefixOf_iff_prefix, hfront]
  rw [standsAt, standsAt, hsame]

/-- A text is read in the same way whatever follows the newline at the end of the source. -/
theorem takeText_append_right {opening : List Char} (hopening : '\n' ∉ opening) (hcs : '\n' ∈ cs)
    (more : List Char) :
    takeText opening (cs ++ more) = ((takeText opening cs).1, (takeText opening cs).2 ++ more) := by
  induction cs with
  | nil => cases hcs
  | cons c cs ih =>
    rw [List.cons_append, takeText, takeText, ← List.cons_append,
      standsAt_append_right hopening hcs]
    split
    · rfl
    · split
      · rfl
      · rename_i hc
        rw [ih ((List.mem_cons.mp hcs).resolve_left (Ne.symm hc))]

/-- The last token, if there is one, ends its line. -/
def Closed (ts : List Token) : Prop := ∀ t ∈ ts.getLast?, t.endsLine = true

theorem Closed.cons {t : Token} {ts : List Token} (h : Closed ts)
    (ht : ts = [] → t.endsLine = true) : Closed (t :: ts) := by
  cases ts with
  | nil => exact fun u hu => Option.some.inj hu ▸ ht rfl
  | cons u us => exact h

theorem eq_nil_of_pieces (h : pieces d p cs = .ok []) : cs = [] := by
  have htiling := tiling_of_pieces h
  cases htiling
  rfl

/-- **A source that ends with a newline is read to its end before anything behind it**, which is
read under the delimiters in force there, and its last token ends a line. -/
theorem pieces_append (hd : d.SingleLine) {ts : List Token} (h : pieces d p cs = .ok ts)
    (hcs : Ended cs) :
    Closed ts ∧ ∀ more, pieces d p (cs ++ more) =
      (pieces (d.through ts) (p.advance cs) more).map (ts ++ ·) := by
  have hmap : ∀ (t : Token) (us : List Token) (rest : Except Fault (List Token)),
      (rest.map (us ++ ·)).map (t :: ·) = rest.map ((t :: us) ++ ·) := by
    intro t us rest
    cases rest <;> rfl
  fun_induction pieces d p cs generalizing ts with
  | case1 d p =>
    obtain rfl := Except.ok.inj h
    refine ⟨fun t ht => absurd ht (Option.not_mem_none t), fun more => ?_⟩
    change pieces d p more = (pieces d p more).map id
    cases pieces d p more <;> rfl
  | case2 => cases h
  | case3 d p c cs text rest hpiece next token =>
    rename_i ih
    obtain ⟨hne, htake⟩ := takeText_of_nextPiece hpiece
    have happ := takeText_append d.opening.toList (c :: cs)
    rw [htake] at happ
    change text ++ rest = c :: cs at happ
    have hlast := hcs.resolve_left (List.cons_ne_nil c cs)
    rw [← happ] at hcs
    cases hrest : pieces d next rest with
    | error f =>
      rw [hrest] at h
      cases h
    | ok us =>
      rw [hrest] at h
      obtain rfl := Except.ok.inj h
      obtain ⟨hclosed, hmore⟩ := ih hd hrest hcs.of_append
      refine ⟨hclosed.cons fun hnil => ?_, fun more => ?_⟩
      · subst hnil
        obtain rfl := eq_nil_of_pieces hrest
        rw [List.append_nil] at happ
        simp [token, endsLine, isText, happ, hlast]
      · have htakes := takeText_append_right hd.newline_notMem_opening
          (List.mem_of_getLast? hlast) more
        rw [htake] at htakes
        rw [pieces_of_takeText hne htakes, hmore, hmap, ← Place.advance_append, happ]
        rfl
  | case4 d p c cs tag hpiece ih =>
    obtain ⟨hstands, hread⟩ := readTag_of_nextPiece (List.cons_ne_nil c cs) hpiece
    have hfront : d.opening.toList <+: c :: cs := by
      unfold standsAt at hstands
      exact List.isPrefixOf_iff_prefix.mp (Bool.and_eq_true_iff.mp hstands).2
    obtain ⟨happ, -⟩ := readTag_append hfront hread
    obtain ⟨hnext, hlexeme, hdelimiters⟩ := next_of_readTag hd hfront hread
    have hlast := hcs.resolve_left (List.cons_ne_nil c cs)
    rw [← happ] at hcs hlast
    have hrest : tag.rest ≠ [] := by
      intro hnil
      rw [hnil, List.append_nil] at hlast
      exact hlexeme hlast
    cases hus : pieces tag.delimiters tag.next tag.rest with
    | error f =>
      rw [hus] at h
      cases h
    | ok us =>
      rw [hus] at h
      obtain rfl := Except.ok.inj h
      rw [hdelimiters] at hus ih
      obtain ⟨hclosed, hmore⟩ := ih (hd.through _) hus hcs.of_append
      refine ⟨hclosed.cons fun hnil => ?_, fun more => ?_⟩
      · subst hnil
        exact absurd (eq_nil_of_pieces hus) hrest
      · have hlonger : standsAt d.opening.toList (c :: cs ++ more) = true := by
          rw [standsAt_append_right hd.newline_notMem_opening
            (happ ▸ List.mem_of_getLast? hlast), hstands]
        rw [pieces_of_readTag hlonger, readTag_append_right hd.closing_ne_nil hfront hread]
        change (pieces tag.delimiters tag.next (tag.rest ++ more)).map (tag.token :: ·) = _
        rw [hdelimiters, hmore, hmap, hnext, ← Place.advance_append, happ,
          ← Delimiters.through_cons]

/-! ### Lines -/

theorem splitLines_append {ts : List Token} (h : Closed ts) (us : List Token) :
    splitLines (ts ++ us) = splitLines ts ++ splitLines us := by
  induction ts with
  | nil => rfl
  | cons t ts ih =>
    rw [List.cons_append, splitLines, splitLines]
    split
    · cases ts with
      | nil => rfl
      | cons u ts => rw [ih h]; rfl
    · rename_i ht
      cases ts with
      | nil => exact absurd (h t rfl) ht
      | cons u ts =>
        rw [ih h]
        cases hlines : splitLines (u :: ts) with
        | nil =>
          have hflatten := flatten_splitLines (u :: ts)
          rw [hlines] at hflatten
          cases hflatten
        | cons l ls => rfl

theorem settle_append {ts : List Token} (h : Closed ts) (us : List Token) :
    settle (ts ++ us) = settle ts ++ settle us := by
  rw [settle, splitLines_append h, List.flatMap_append]
  rfl

/-- Settling the lines changes no delimiters, for it drops texts alone. -/
theorem through_settle (d : Delimiters) (ts : List Token) :
    d.through (settle ts) = d.through ts := by
  have hdrop : ∀ (indent : String) (ts : List Token) (d : Delimiters),
      d.through (dropTexts indent ts) = d.through ts := by
    intro indent ts
    induction ts generalizing indent with
    | nil => exact fun _ => rfl
    | cons t ts ih =>
      intro d
      rw [Delimiters.through_cons]
      cases ht : t.isText with
      | true =>
        have hkind : t.kind ≠ .delimiters := by
          unfold isText at ht
          rw [of_decide_eq_true ht]
          decide
        rw [dropTexts, if_pos ht, ih, Delimiters.through_singleton_of_ne hkind]
      | false =>
        rw [dropTexts_cons_tag ht, Delimiters.through_cons, ih]
        unfold settled
        split <;> rfl
  have hlines : ∀ (ls : List (List Token)) (d : Delimiters),
      d.through (ls.flatMap settleLine) = d.through ls.flatten := by
    intro ls
    induction ls with
    | nil => exact fun _ => rfl
    | cons l ls ih =>
      intro d
      have hline : d.through (settleLine l) = d.through l := by
        unfold settleLine
        split
        · exact hdrop "" l d
        · rfl
      rw [List.flatMap_cons, List.flatten_cons, Delimiters.through_append, hline, ih,
        ← Delimiters.through_append]
  rw [settle, hlines, flatten_splitLines]

/-- The pieces of two sources, one behind the other. -/
theorem pieces_behind (hd : d.SingleLine) {first : String} {ts : List Token}
    (h : pieces d ⟨0, 1⟩ first.toList = .ok ts) (hfirst : Ended first.toList) (second : String) :
    pieces d ⟨0, 1⟩ (first ++ second).toList =
      (((pieces (d.through ts) ⟨0, 1⟩ second.toList).map
          (List.map (moved (Text.byteLength first.toList) (Text.newlines first.toList)))).mapError
        (Fault.moved (Text.byteLength first.toList) (Text.newlines first.toList))).map
          (ts ++ ·) := by
  have hplace : (⟨0, 1⟩ : Place).advance first.toList = (⟨0, 1⟩ : Place).moved
      (Text.byteLength first.toList) (Text.newlines first.toList) := by
    simp [Place.advance, Place.moved]
  rw [String.toList_append, (pieces_append hd h hfirst).2, hplace, pieces_moved]

/-- The tokens of two sources, one behind the other, if both can be scanned. -/
theorem scan_append_of_ok (hd : d.SingleLine) {first second : String} {ts us : List Token}
    (h : scan d first = .ok ts) (hfirst : Ended first.toList)
    (hsecond : scan (d.through ts) second = .ok us) :
    scan d (first ++ second) = .ok (ts ++ us.map
      (moved (Text.byteLength first.toList) (Text.newlines first.toList))) := by
  unfold scan at h hsecond ⊢
  cases hraw : pieces d ⟨0, 1⟩ first.toList with
  | error f =>
    rw [hraw] at h
    cases h
  | ok raw =>
    rw [hraw] at h
    obtain rfl := Except.ok.inj h
    rw [through_settle] at hsecond
    rw [pieces_behind hd hraw hfirst]
    cases hraw' : pieces (d.through raw) ⟨0, 1⟩ second.toList with
    | error f =>
      rw [hraw'] at hsecond
      cases hsecond
    | ok raw' =>
      rw [hraw'] at hsecond
      obtain rfl := Except.ok.inj hsecond
      exact congrArg Except.ok ((settle_append (pieces_append hd hraw hfirst).1 _).trans
        (congrArg (settle raw ++ ·) (settle_moved _ _ raw')))

/-- A fault in the second of two sources is that of the second source, moved. -/
theorem scan_append_of_error (hd : d.SingleLine) {first second : String} {ts : List Token}
    {e : Error} (h : scan d first = .ok ts) (hfirst : Ended first.toList)
    (hsecond : scan (d.through ts) second = .error e) :
    ∃ f : Fault, e = f.toError second ∧ scan d (first ++ second) =
      .error ((f.moved (Text.byteLength first.toList) (Text.newlines first.toList)).toError
        (first ++ second)) := by
  unfold scan at h hsecond ⊢
  cases hraw : pieces d ⟨0, 1⟩ first.toList with
  | error f =>
    rw [hraw] at h
    cases h
  | ok raw =>
    rw [hraw] at h
    obtain rfl := Except.ok.inj h
    rw [through_settle] at hsecond
    rw [pieces_behind hd hraw hfirst]
    cases hraw' : pieces (d.through raw) ⟨0, 1⟩ second.toList with
    | ok raw' =>
      rw [hraw'] at hsecond
      cases hsecond
    | error f =>
      rw [hraw'] at hsecond
      exact ⟨f, (Except.error.inj hsecond).symm, rfl⟩

/-- **Scanning goes line by line.** A source behind one that ends with a newline is scanned as it is
by itself under the delimiters in force there: it has the same tokens, so many bytes and lines
further on, or fails with the same defect, so many lines further down. -/
theorem scan_append_at_newline (hd : d.SingleLine) {first : String} {ts : List Token}
    (h : scan d first = .ok ts) (hfirst : first.toList.getLast? = some '\n') (second : String) :
    (∀ us, scan (d.through ts) second = .ok us → scan d (first ++ second) = .ok (ts ++ us.map
      (moved (Text.byteLength first.toList) (Text.newlines first.toList)))) ∧
    ∀ e, scan (d.through ts) second = .error e → ∃ defect line offset,
      e = .malformed defect line none (some (Excerpt.atOffset second offset)) ∧
      scan d (first ++ second) =
        .error (.malformed defect (line + Text.newlines first.toList) none
          (some (Excerpt.atOffset (first ++ second) (offset + Text.byteLength first.toList)))) := by
  refine ⟨fun us hus => scan_append_of_ok hd h (.inr hfirst) hus, fun e he => ?_⟩
  obtain ⟨f, rfl, hscan⟩ := scan_append_of_error hd h (.inr hfirst) he
  exact ⟨f.defect, f.place.line, f.place.offset, rfl, hscan⟩

/-- The first line changes the delimiters, and a tag of the second source spans two lines. -/
theorem scan_append_at_newline_switched :
    let d : Delimiters := ⟨"<%", "%>"⟩
    Delimiters.standard.SingleLine ∧
      scan .standard "é \x7b\x7b=<% %>=\x7d\x7d\n" = .ok
        [⟨.text, "é ", 1, 0, 3, .standard, none⟩, ⟨.delimiters, "<% %>", 1, 3, 14, .standard, none⟩,
          ⟨.text, "\n", 1, 14, 15, d, none⟩] ∧
      scan .standard ("é \x7b\x7b=<% %>=\x7d\x7d\n" ++ "<%!\n%>  <% x %>") = .ok
        [⟨.text, "é ", 1, 0, 3, .standard, none⟩, ⟨.delimiters, "<% %>", 1, 3, 14, .standard, none⟩,
          ⟨.text, "\n", 1, 14, 15, d, none⟩, ⟨.comment, "\n", 2, 15, 21, d, none⟩,
          ⟨.text, "  ", 3, 21, 23, d, none⟩, ⟨.escaped, "x", 3, 23, 30, d, none⟩] := by
  intro d
  have hstandard := Delimiters.writable_standard.singleLine
  have hfirst : scan .standard "é \x7b\x7b=<% %>=\x7d\x7d\n" = .ok
      [⟨.text, "é ", 1, 0, 3, .standard, none⟩, ⟨.delimiters, "<% %>", 1, 3, 14, .standard, none⟩,
        ⟨.text, "\n", 1, 14, 15, d, none⟩] := by
    decide +kernel
  refine ⟨hstandard, hfirst, ?_⟩
  have happend := (scan_append_at_newline hstandard hfirst rfl "<%!\n%>  <% x %>").1
    [⟨.comment, "\n", 1, 0, 6, d, none⟩, ⟨.text, "  ", 2, 6, 8, d, none⟩,
      ⟨.escaped, "x", 2, 8, 15, d, none⟩] (by decide +kernel)
  exact happend.trans (by decide +kernel)

/-- The tokens of two sources, one behind the other, if the first does not change the
delimiters. -/
theorem scan_append (hd : d.Writable) {source more : String} {ts us : List Token}
    (h : scan d source = .ok ts) (hsource : Ended source.toList)
    (hplain : ∀ t ∈ ts, t.kind ≠ .delimiters) (hmore : scan d more = .ok us) :
    scan d (source ++ more) = .ok (ts ++ us.map
      (moved (Text.byteLength source.toList) (Text.newlines source.toList))) :=
  scan_append_of_ok hd.singleLine h hsource (by rwa [Delimiters.through_of_forall_ne hplain])

theorem bounds_of_scan {source : String} {ts : List Token} (h : scan d source = .ok ts) {t : Token}
    (ht : t ∈ ts) : t.start ≤ Text.byteLength source.toList ∧
      t.stop ≤ Text.byteLength source.toList := by
  unfold scan at h
  split at h
  · rename_i raw hraw
    obtain rfl := Except.ok.inj h
    have htiling := tiling_of_pieces hraw
    have hbare : t.bare.start < t.bare.stop ∧ t.bare.stop ≤ 0 + Text.byteLength source.toList :=
      (htiling.bounds (bare_mem_of_mem_settle htiling ht)).2
    change t.start < t.stop ∧ t.stop ≤ 0 + _ at hbare
    omega
  · cases h

/-! ### The body of a block -/

/-- In the source, behind the text `head`, stands the text `body` of a block; it is read as the
tokens `us`, behind the tag and in front of its closing tag. -/
structure HoldsBlock (d : Delimiters) (source : String) (before : List Token) (tag : Token)
    (head body : String) (us : List Token) (after : List Token) : Prop where
  text : ∃ tail, source = head ++ body ++ tail
  kind : tag.kind = .block
  stop : tag.stop = Text.byteLength head.toList
  within : ∀ u ∈ us, u.start ≤ Text.byteLength body.toList ∧ u.stop ≤ Text.byteLength body.toList
  tokens : ∃ close, scan d source = .ok (before ++ tag ::
      (us.map (moved (Text.byteLength head.toList) (Text.newlines head.toList)) ++
        close :: after)) ∧
    close.kind = .close ∧ close.value = tag.value ∧
    close.start = Text.byteLength (head ++ body).toList

theorem moved_moved (n m k l : Nat) (t : Token) :
    (t.moved n m).moved k l = t.moved (k + n) (l + m) := by
  unfold moved
  congr 1 <;> exact (Nat.add_assoc _ _ _).trans (congrArg _ (Nat.add_comm _ _))

theorem map_moved_moved (n m k l : Nat) (ts : List Token) :
    (ts.map (moved n m)).map (moved k l) = ts.map (moved (k + n) (l + m)) := by
  rw [List.map_map]
  exact List.map_congr_left fun t _ => moved_moved n m k l t

/-- Lines between the tags of a block, both tags on lines of their own, are read in the same way
wherever the block stands. -/
theorem HoldsBlock.of_lines (hd : d.Writable) {front lines tail : String}
    {before us after : List Token} {tag close : Token}
    (hfront : scan d (front ++ "\n") = .ok (before ++ [tag]))
    (hplain : ∀ u ∈ before ++ [tag], u.kind ≠ .delimiters) (hkind : tag.kind = .block)
    (hstop : tag.stop = Text.byteLength front.toList) (hlines : scan d lines = .ok us)
    (hended : Ended lines.toList) (hplain' : ∀ u ∈ us, u.kind ≠ .delimiters)
    (htail : scan d tail = .ok (close :: after)) (hclose : close.kind = .close)
    (hvalue : close.value = tag.value) (hstart : close.start = 0) :
    HoldsBlock d (front ++ ("\n" ++ lines) ++ tail) before tag front ("\n" ++ lines)
      (us.map (moved 1 1)) (after.map (moved (Text.byteLength (front ++ ("\n" ++ lines)).toList)
        (Text.newlines (front ++ ("\n" ++ lines)).toList))) := by
  have hbreak : Ended (front ++ "\n").toList := by
    right
    rw [String.toList_append]
    exact List.getLast?_concat
  have hscan := scan_append hd hfront hbreak hplain (scan_append hd hlines hended hplain' htail)
  have htext : front ++ "\n" ++ (lines ++ tail) = front ++ ("\n" ++ lines) ++ tail := by
    simp only [String.append_assoc]
  have hlength : Text.byteLength (front ++ "\n").toList = Text.byteLength front.toList + 1 := by
    rw [String.toList_append, Text.byteLength_append]
    rfl
  have hnewlines : Text.newlines (front ++ "\n").toList = Text.newlines front.toList + 1 := by
    rw [String.toList_append, Text.newlines_append]
    rfl
  have hstop' : Text.byteLength (front ++ ("\n" ++ lines)).toList =
      Text.byteLength front.toList + 1 + Text.byteLength lines.toList := by
    rw [← String.append_assoc, String.toList_append, Text.byteLength_append, hlength]
  have hline : Text.newlines (front ++ ("\n" ++ lines)).toList =
      Text.newlines front.toList + 1 + Text.newlines lines.toList := by
    rw [← String.append_assoc, String.toList_append, Text.newlines_append, hnewlines]
  rw [htext, hlength, hnewlines, List.map_append, map_moved_moved, List.map_cons,
    List.append_assoc, List.singleton_append, ← hstop', ← hline] at hscan
  refine ⟨⟨tail, rfl⟩, hkind, hstop, ?_, ?_⟩
  · rw [List.forall_mem_map]
    intro u hu
    obtain ⟨hfirst, hlast⟩ := bounds_of_scan hlines hu
    have hbody : Text.byteLength ("\n" ++ lines).toList = 1 + Text.byteLength lines.toList := by
      rw [String.toList_append, Text.byteLength_append]
      rfl
    show u.start + 1 ≤ _ ∧ u.stop + 1 ≤ _
    omega
  · rw [map_moved_moved]
    refine ⟨_, hscan, hclose, hvalue, ?_⟩
    show close.start + _ = _
    rw [hstart, Nat.zero_add]

end Mustache.Token
