import Mustache.Proofs.Token.Printed
import Mustache.Proofs.Token.Unwrapped

/-!
A tag that closes itself, and the same tag opened and closed. In its place the two tags stand in the
same line, which stands alone or does not whichever of them is there; all other tokens are the same,
those behind moved. Main statement: `scan_selfClosing`.
-/

namespace Mustache

/-- Tags that are closed. -/
def TokenKind.Opens (kind : TokenKind) : Prop :=
  kind = .sectionTag ∨ kind = .inverted ∨ kind = .block ∨ kind = .parent

namespace TokenKind.Opens

variable {kind : TokenKind} (h : kind.Opens)

include h

theorem ne_text : kind ≠ .text := by
  rcases h with rfl | rfl | rfl | rfl <;> decide

theorem canStandAlone : kind.canStandAlone = true := by
  rcases h with rfl | rfl | rfl | rfl <;> rfl

end TokenKind.Opens

namespace Token

/-! ### In front of a tag -/

section

variable {d : Delimiters} {p : Place} {cs : List Char} {ts : List Token}

theorem takeText_in_front_of_tag {opening text rest more : List Char} (hopening : opening ≠ [])
    (hnewline : '\n' ∉ opening) (h : takeText opening (text ++ rest) = (text, rest))
    (hrest : rest = [] → opening = Delimiters.standard.opening.toList ∧
      text.getLast? ≠ some '\x7b' ∧ standsAt opening more = true) :
    takeText opening (text ++ (rest ++ more)) = (text, rest ++ more) := by
  rcases ends_of_takeText h with hline | rfl | hstands
  · have hmore := takeText_append_right hnewline
      (List.mem_append_left rest (List.mem_of_getLast? hline)) more
    rwa [h, List.append_assoc] at hmore
  · obtain ⟨rfl, hbrace, hmore⟩ := hrest rfl
    rw [List.append_nil] at h
    by_cases hline : text.getLast? = some '\n'
    · have hboth := takeText_append_right hnewline (List.mem_of_getLast? hline) more
      rwa [h] at hboth
    · have hnone : takeText Delimiters.standard.opening.toList more = ([], more) := by
        cases more with
        | nil => rfl
        | cons c more => rw [takeText, if_pos hmore]
      rw [List.nil_append, takeText_fused h hbrace hline, hnone, List.append_nil]
  · exact takeText_in_front hopening h
      (List.isPrefixOf_iff_prefix.mp (Bool.and_eq_true_iff.mp hstands).2) more

theorem getLast?_of_append {rest : List Char} {text : List Char} {c : Char}
    (h : (text ++ rest).getLast? ≠ some c) : rest.getLast? ≠ some c := by
  intro hrest
  rw [List.getLast?_append, hrest] at h
  exact h rfl

/-- **In front of a tag a source is read as it is alone.** -/
theorem pieces_in_front_of_tag (hd : d.SingleLine) (h : pieces d p cs = .ok ts)
    (hbrace : cs.getLast? ≠ some '\x7b') (hstandard : d.through ts = .standard) {more : List Char}
    (hmore : standsAt Delimiters.standard.opening.toList more = true) :
    pieces d p (cs ++ more) = (pieces .standard (p.advance cs) more).map (ts ++ ·) := by
  have hmap (t : Token) (us : List Token) (rest : Except Fault (List Token)) :
      (rest.map (us ++ ·)).map (t :: ·) = rest.map ((t :: us) ++ ·) := by
    cases rest <;> rfl
  fun_induction pieces d p cs generalizing ts with
  | case1 d p =>
    obtain rfl := Except.ok.inj h
    obtain rfl : d = .standard := hstandard
    change pieces .standard p more = (pieces .standard p more).map id
    cases pieces .standard p more <;> rfl
  | case2 => cases h
  | case3 d p c cs text rest hpiece next token =>
    rename_i ih
    obtain ⟨hne, htake⟩ := takeText_of_nextPiece hpiece
    have happ := takeText_append d.opening.toList (c :: cs)
    rw [htake] at happ
    change text ++ rest = c :: cs at happ
    cases hrest : pieces d next rest with
    | error f =>
      rw [hrest] at h
      cases h
    | ok us =>
      rw [hrest] at h
      obtain rfl := Except.ok.inj h
      rw [← happ] at hbrace htake ⊢
      have hthrough : d.through us = .standard := hstandard
      have htakes : takeText d.opening.toList (text ++ (rest ++ more)) = (text, rest ++ more) := by
        refine takeText_in_front_of_tag hd.opening_ne_nil hd.newline_notMem_opening htake ?_
        rintro rfl
        rw [pieces] at hrest
        obtain rfl := Except.ok.inj hrest
        obtain rfl : d = .standard := hthrough
        rw [List.append_nil] at hbrace
        exact ⟨rfl, hbrace, hmore⟩
      rw [List.append_assoc, pieces_of_takeText hne htakes,
        ih hd hrest (getLast?_of_append hbrace) hthrough, hmap, ← Place.advance_append]
      rfl
  | case4 d p c cs tag hpiece ih =>
    obtain ⟨hstands, hread⟩ := readTag_of_nextPiece (List.cons_ne_nil c cs) hpiece
    have hfront := List.isPrefixOf_iff_prefix.mp (Bool.and_eq_true_iff.mp hstands).2
    obtain ⟨happ, -⟩ := readTag_append hfront hread
    obtain ⟨hnext, -, hdelimiters⟩ := next_of_readTag hd hfront hread
    cases hus : pieces tag.delimiters tag.next tag.rest with
    | error f =>
      rw [hus] at h
      cases h
    | ok us =>
      rw [hus] at h
      obtain rfl := Except.ok.inj h
      rw [← happ] at hbrace
      rw [hdelimiters] at hus ih
      have hlonger : standsAt d.opening.toList (c :: cs ++ more) = true :=
        standsAt_of_isPrefix hd.opening_ne_nil (hfront.trans (List.prefix_append _ more))
      rw [pieces_of_readTag hlonger, readTag_append_right hd.closing_ne_nil hfront hread]
      change (pieces tag.delimiters tag.next (tag.rest ++ more)).map (tag.token :: ·) = _
      rw [hdelimiters, ih (hd.through _) hus (getLast?_of_append hbrace) hstandard, hmap, hnext,
        ← Place.advance_append, happ]

end

/-! ### The tags -/

/-- What a tag on one line may have as its name, if a slash at the end has a meaning of its own. -/
structure IsName (name : String) : Prop where
  tight : Text.Tight name.toList
  newline_notMem : '\n' ∉ name.toList
  brace_notMem : '\x7d' ∉ name.toList
  slash : name.toList.getLast? ≠ some '/'

theorem pieces_named_tag {kind : TokenKind} (hkind : kind.Opens ∨ kind = .close) {body : String}
    (htight : Text.Tight body.toList) (hnewline : '\n' ∉ body.toList)
    (hbrace : '\x7d' ∉ body.toList) (p : Place) (cs : List Char) :
    pieces .standard p (((Item.tag kind body).print .standard).toList ++ cs) =
      (pieces .standard (p.advance ((Item.tag kind body).print .standard).toList) cs).map
        ((Item.tag kind body).token .standard p :: ·) := by
  have hne : kind ≠ .delimiters := by
    rcases hkind with (rfl | rfl | rfl | rfl) | rfl <;> decide
  refine pieces_print_of_cut Delimiters.writable_standard hne ?_
    (Text.cutAt?_of_notMem hbrace _ _) htight.trim_eq hnewline p
  rcases hkind with (rfl | rfl | rfl | rfl) | rfl <;>
    simp [TokenKind.mark, sigilOf, TokenKind.ofSigil?]

theorem IsName.tight_slash {name : String} (h : IsName name) :
    Text.Tight (name ++ " /").toList where
  ne_nil := by simp
  head c hc := by
    rw [String.toList_append, List.head?_append_of_ne_nil _ h.tight.ne_nil] at hc
    exact h.tight.head c hc
  last c hc := by
    rw [String.toList_append, List.getLast?_append_of_ne_nil _ (by decide)] at hc
    obtain rfl : '/' = c := Option.some.inj hc
    decide

/-! ### Their line -/

theorem dropTexts_append_tag {u : Token} (hu : u.isText = false) (indent : String)
    (line more : List Token) : dropTexts indent (line ++ u :: more) =
      dropTexts indent line ++ u.settled (trailing indent line) :: dropTexts "" more := by
  induction line generalizing indent with
  | nil => exact dropTexts_cons_tag hu indent more
  | cons t line ih =>
    cases ht : t.isText with
    | true => simp only [List.cons_append, dropTexts, ht, if_true, trailing, ih]
    | false =>
      rw [List.cons_append, dropTexts_cons_tag ht, dropTexts_cons_tag ht, ih, trailing, ht]
      rfl

/-- Tokens of which none ends its line stand in front of the line that begins behind them. -/
theorem splitLines_append_open {line : List Token} (hne : line ≠ [])
    (hline : ∀ t ∈ line, t.endsLine = false) (us : List Token) :
    splitLines (line ++ us) = (line ++ (splitLines us).headD []) :: (splitLines us).tail := by
  induction line with
  | nil => exact absurd rfl hne
  | cons t line ih =>
    obtain ⟨ht, hmore⟩ := List.forall_mem_cons.mp hline
    rw [List.cons_append, splitLines, if_neg (by simp [ht])]
    cases line with
    | nil =>
      rw [List.nil_append]
      cases splitLines us <;> rfl
    | cons t' line =>
      rw [ih (List.cons_ne_nil _ _) hmore]
      rfl

/-- The same, settled, where the tokens behind are moved. -/
theorem settle_append_open {line : List Token} (hne : line ≠ [])
    (hline : ∀ t ∈ line, t.endsLine = false) (us : List Token) (n m : Nat) :
    settle (line ++ us.map (moved n m)) =
      settleLine (line ++ ((splitLines us).headD []).map (moved n m)) ++
        ((splitLines us).tail.flatMap settleLine).map (moved n m) := by
  have hfirst : ((splitLines us).map (List.map (moved n m))).headD [] =
      ((splitLines us).headD []).map (moved n m) := by
    cases splitLines us <;> rfl
  rw [settle, splitLines_append_open hne hline, splitLines_moved, List.flatMap_cons, hfirst,
    ← List.map_tail, List.flatMap_map, List.map_flatMap]
  simp only [settleLine_moved]

/-- The token says nothing that would keep its line from standing alone. -/
def quiet (t : Token) : Bool := if t.isText then t.isBlankText else t.kind.canStandAlone

/-- A tag that can stand alone has no part in whether its line does. -/
theorem standsAlone_append_tag {u : Token} (hu : u.isText = false)
    (halone : u.kind.canStandAlone = true) (line more : List Token) :
    standsAlone (line ++ u :: more) = (line ++ more).all quiet := by
  have hany : (line ++ u :: more).any (fun t => !t.isText) = true :=
    List.any_eq_true.mpr ⟨u, by simp, by simp [hu]⟩
  have hquiet : u.quiet = true := by simp [quiet, hu, halone]
  change ((line ++ u :: more).any _ && (line ++ u :: more).all quiet) = _
  rw [hany, Bool.true_and, List.all_append, List.all_append, List.all_cons, hquiet, Bool.true_and]

/-- The token as it is left in its line: as it was, or with its indent if it takes one. -/
def Keeps (f : Token → Token) : Prop := f = id ∨ ∃ indent, f = (settled · indent)

theorem Keeps.exists_indent {f : Token → Token} (h : Keeps f) (t : Token) :
    ∃ indent, f t = { t with indent } := by
  rcases h with rfl | ⟨indent, rfl⟩
  · exact ⟨t.indent, rfl⟩
  · change ∃ indent', t.settled indent = _
    unfold settled
    split
    · exact ⟨some indent, rfl⟩
    · exact ⟨t.indent, rfl⟩

theorem exists_mem_dropTexts {t : Token} {line : List Token} (ht : t ∈ line)
    (htag : t.isText = false) (indent : String) :
    ∃ v ∈ dropTexts indent line, v.kind = t.kind ∧ v.value = t.value := by
  obtain ⟨before, after, rfl⟩ := List.append_of_mem ht
  rw [dropTexts_append_tag htag]
  refine ⟨_, List.mem_append_right _ List.mem_cons_self, kind_settled _ _, ?_⟩
  unfold settled
  split <;> rfl

/-- Where tokens are settled, their tags stay. -/
theorem exists_mem_settle_of_tag {t : Token} {ts : List Token} (ht : t ∈ ts)
    (htag : t.isText = false) : ∃ v ∈ settle ts, v.kind = t.kind ∧ v.value = t.value := by
  rw [← flatten_splitLines ts] at ht
  obtain ⟨line, hline, ht⟩ := List.mem_flatten.mp ht
  have hsettles : ∃ v ∈ settleLine line, v.kind = t.kind ∧ v.value = t.value := by
    unfold settleLine
    split
    · exact exists_mem_dropTexts ht htag ""
    · exact ⟨t, ht, rfl, rfl⟩
  obtain ⟨v, hv, hsame⟩ := hsettles
  exact ⟨v, List.mem_flatMap.mpr ⟨line, hline, hv⟩, hsame⟩

/-- **Two tags settle as one does** if the second closes the first. -/
theorem settle_selfClosing {u o c : Token} (hu : u.isText = false) (ho : o.isText = false)
    (hc : c.kind = .close) (hualone : u.kind.canStandAlone = true)
    (hoalone : o.kind.canStandAlone = true) (ts us : List Token) :
    ∃ (front : List Token) (f : Token → Token) (back : List Token), Keeps f ∧
      (∀ t ∈ ts, t.isText = false → ∃ v ∈ front, v.kind = t.kind ∧ v.value = t.value) ∧
      ∀ n m n' m', settle (ts ++ u :: us.map (moved n m)) = front ++ f u :: back.map (moved n m) ∧
        settle (ts ++ o :: c :: us.map (moved n' m')) =
          front ++ f o :: c :: back.map (moved n' m') := by
  obtain ⟨lines, line, rfl, hlines, hline⟩ := exists_closed_append ts
  have hctext : c.isText = false := by simp [isText, hc]
  have hcalone : c.quiet = true := by simp [quiet, hctext, hc, TokenKind.canStandAlone]
  have hcsettled : c.settled "" = c := by simp [settled, hc, TokenKind.takesIndent]
  have hopen : ∀ {t : Token}, t.isText = false → t.endsLine = false := fun ht => by
    simp [endsLine, ht]
  obtain ⟨x, hx⟩ : ∃ x, (splitLines us).headD [] = x := ⟨_, rfl⟩
  have hu' : ∀ t ∈ line ++ [u], t.endsLine = false :=
    List.forall_mem_append.mpr ⟨hline, List.forall_mem_singleton.mpr (hopen hu)⟩
  have hoc : ∀ t ∈ line ++ [o, c], t.endsLine = false :=
    List.forall_mem_append.mpr ⟨hline,
      List.forall_mem_cons.mpr ⟨hopen ho, List.forall_mem_singleton.mpr (hopen hctext)⟩⟩
  have hquiet (n m : Nat) : (line ++ x.map (moved n m)).all quiet = (line ++ x).all quiet := by
    rw [List.all_append, List.all_append, List.all_map]
    rfl
  have hone (n m : Nat) := settle_append_open (by simp) hu' us n m
  have htwo (n m : Nat) := settle_append_open (by simp) hoc us n m
  simp only [hx, List.append_assoc, List.cons_append, List.nil_append] at hone htwo
  simp only [List.append_assoc, settle_append hlines, hone, htwo]
  have halone (n m : Nat) : standsAlone (line ++ u :: x.map (moved n m)) =
      (line ++ x).all quiet := by
    rw [standsAlone_append_tag hu hualone, hquiet]
  have halone' (n m : Nat) : standsAlone (line ++ o :: c :: x.map (moved n m)) =
      (line ++ x).all quiet := by
    rw [standsAlone_append_tag ho hoalone, List.all_append, List.all_cons, hcalone, Bool.true_and,
      ← List.all_append, hquiet]
  simp only [settleLine, halone, halone']
  have hfront {last : List Token} (hlast : ∀ t ∈ line, t.isText = false →
      ∃ v ∈ last, v.kind = t.kind ∧ v.value = t.value) : ∀ t ∈ lines ++ line, t.isText = false →
        ∃ v ∈ settle lines ++ last, v.kind = t.kind ∧ v.value = t.value := by
    intro t ht htag
    rcases List.mem_append.mp ht with ht | ht
    · obtain ⟨v, hv, hsame⟩ := exists_mem_settle_of_tag ht htag
      exact ⟨v, List.mem_append_left _ hv, hsame⟩
    · obtain ⟨v, hv, hsame⟩ := hlast t ht htag
      exact ⟨v, List.mem_append_right _ hv, hsame⟩
  cases hline' : (line ++ x).all quiet with
  | false =>
    exact ⟨settle lines ++ line, id, x ++ (splitLines us).tail.flatMap settleLine, .inl rfl,
      hfront fun t ht _ => ⟨t, ht, rfl, rfl⟩, fun n m n' m' => by simp⟩
  | true =>
    refine ⟨settle lines ++ dropTexts "" line, (settled · (trailing "" line)),
      dropTexts "" x ++ (splitLines us).tail.flatMap settleLine, .inr ⟨_, rfl⟩,
      hfront fun t ht htag => exists_mem_dropTexts ht htag "", fun n m n' m' => ?_⟩
    simp [dropTexts_append_tag hu, dropTexts_append_tag ho, dropTexts_cons_tag hctext, hcsettled,
      dropTexts_moved]

/-! ### The two sources -/

/-- A tag of this kind that closes itself, under the default delimiters. -/
def selfClosingTag (kind : TokenKind) (name : String) : String :=
  "\x7b\x7b" ++ kind.mark ++ name ++ " /\x7d\x7d"

/-- A tag of this kind and the tag that closes it, under the default delimiters. -/
def tagPair (kind : TokenKind) (name : String) : String :=
  "\x7b\x7b" ++ kind.mark ++ name ++ "\x7d\x7d" ++ ("\x7b\x7b/" ++ name ++ "\x7d\x7d")

/-- The token of a tag that closes itself, read from `p` on. -/
def slashed (kind : TokenKind) (name : String) (p : Place) : Token :=
  (Item.tag kind (name ++ " /")).token .standard p

/-- The token of a tag that is closed, read from `p` on. -/
def opening (kind : TokenKind) (name : String) (p : Place) : Token :=
  (Item.tag kind name).token .standard p

/-- The token of the tag that closes it right behind. -/
def closing (kind : TokenKind) (name : String) (p : Place) : Token :=
  (Item.tag .close name).token .standard
    (p.advance ((Item.tag kind name).print .standard).toList)

section

variable {d : Delimiters} {kind : TokenKind} {head name : String} {ts : List Token}

theorem selfClosingTag_eq : selfClosingTag kind name =
    (Item.tag kind (name ++ " /")).print .standard := by
  simp [selfClosingTag, Item.print, Delimiters.standard, String.append_assoc]

theorem tagPair_eq : tagPair kind name =
    (Item.tag kind name).print .standard ++ (Item.tag .close name).print .standard := by
  simp [tagPair, Item.print, Delimiters.standard, TokenKind.mark, String.append_assoc]

theorem standsAt_selfClosingTag (rest : List Char) : standsAt Delimiters.standard.opening.toList
    ((selfClosingTag kind name).toList ++ rest) = true := by
  rw [selfClosingTag_eq]
  exact standsAt_print Delimiters.writable_standard rfl _

theorem standsAt_tagPair (rest : List Char) : standsAt Delimiters.standard.opening.toList
    ((tagPair kind name).toList ++ rest) = true := by
  rw [tagPair_eq, String.toList_append, List.append_assoc]
  exact standsAt_print Delimiters.writable_standard rfl _

theorem pieces_selfClosingTag (hkind : kind.Opens) (hname : IsName name) (p : Place)
    (rest : List Char) : pieces .standard p ((selfClosingTag kind name).toList ++ rest) =
      (pieces .standard (p.advance (selfClosingTag kind name).toList) rest).map
        ([slashed kind name p] ++ ·) := by
  rw [selfClosingTag_eq]
  exact pieces_named_tag (.inl hkind) hname.tight_slash (by simp [hname.newline_notMem])
    (by simp [hname.brace_notMem]) _ _

theorem pieces_tagPair (hkind : kind.Opens) (hname : IsName name) (p : Place)
    (rest : List Char) : pieces .standard p ((tagPair kind name).toList ++ rest) =
      (pieces .standard (p.advance (tagPair kind name).toList) rest).map
        ([opening kind name p, closing kind name p] ++ ·) := by
  rw [tagPair_eq, String.toList_append, List.append_assoc, pieces_named_tag (.inl hkind)
    hname.tight hname.newline_notMem hname.brace_notMem, pieces_named_tag (.inr rfl)
    hname.tight hname.newline_notMem hname.brace_notMem, Place.advance_append]
  cases pieces .standard ((p.advance ((Item.tag kind name).print .standard).toList).advance _)
    rest <;> rfl

theorem pieces_between {before mid after : List Char} {raw us : List Token} (hd : d.SingleLine)
    (h : pieces d ⟨0, 1⟩ before = .ok raw) (hstandard : d.through raw = .standard)
    (hbrace : before.getLast? ≠ some '\x7b')
    (hstands : standsAt Delimiters.standard.opening.toList (mid ++ after) = true)
    (hmid : pieces .standard ((⟨0, 1⟩ : Place).advance before) (mid ++ after) =
      (pieces .standard (((⟨0, 1⟩ : Place).advance before).advance mid) after).map (us ++ ·)) :
    pieces d ⟨0, 1⟩ (before ++ mid ++ after) = (((pieces .standard ⟨0, 1⟩ after).map (List.map
      (moved (Text.byteLength (before ++ mid)) (Text.newlines (before ++ mid))))).mapError
        (Fault.moved (Text.byteLength (before ++ mid)) (Text.newlines (before ++ mid)))).map
          (raw ++ us ++ ·) := by
  rw [List.append_assoc, pieces_in_front_of_tag hd h hbrace hstandard hstands, hmid,
    ← Place.advance_append, advance_start_eq_moved, pieces_moved]
  cases pieces .standard ⟨0, 1⟩ after with
  | error f => rfl
  | ok vs =>
    exact congrArg Except.ok (List.append_assoc _ _ _).symm

/-- **A tag that closes itself is read as it is opened and closed.** -/
theorem scan_selfClosing (hd : d.SingleLine) (hkind : kind.Opens) (hname : IsName name)
    (hhead : scan d head = .ok ts) (hstandard : d.through ts = .standard)
    (hbrace : head.toList.getLast? ≠ some '\x7b') (tail : String) :
    ((∃ err, scan d (head ++ selfClosingTag kind name ++ tail) = .error err) ∧
      ∃ err, scan d (head ++ tagPair kind name ++ tail) = .error err) ∨
    ∃ (front : List Token) (f : Token → Token) (back : List Token), Keeps f ∧
      (∀ t ∈ ts, t.isText = false → ∃ v ∈ front, v.kind = t.kind ∧ v.value = t.value) ∧
      scan d (head ++ selfClosingTag kind name ++ tail) =
        .ok (front ++ f (slashed kind name ((⟨0, 1⟩ : Place).advance head.toList)) ::
          back.map (moved (Text.byteLength (head ++ selfClosingTag kind name).toList)
            (Text.newlines (head ++ selfClosingTag kind name).toList))) ∧
      scan d (head ++ tagPair kind name ++ tail) =
        .ok (front ++ f (opening kind name ((⟨0, 1⟩ : Place).advance head.toList)) ::
          closing kind name ((⟨0, 1⟩ : Place).advance head.toList) ::
            back.map (moved (Text.byteLength (head ++ tagPair kind name).toList)
              (Text.newlines (head ++ tagPair kind name).toList))) := by
  cases hraw : pieces d ⟨0, 1⟩ head.toList with
  | error f =>
    rw [scan, hraw] at hhead
    cases hhead
  | ok raw =>
    rw [scan, hraw] at hhead
    obtain rfl := Except.ok.inj hhead
    rw [through_settle] at hstandard
    have hread := pieces_between hd hraw hstandard hbrace (standsAt_selfClosingTag tail.toList)
      (pieces_selfClosingTag hkind hname _ _)
    have hread' := pieces_between hd hraw hstandard hbrace (standsAt_tagPair tail.toList)
      (pieces_tagPair hkind hname _ _)
    simp only [scan, String.toList_append]
    rw [hread, hread']
    cases pieces .standard ⟨0, 1⟩ tail.toList with
    | error f => exact .inl ⟨⟨_, rfl⟩, ⟨_, rfl⟩⟩
    | ok us =>
      right
      obtain ⟨front, f, back, hkeeps, htags, hsettle⟩ := settle_selfClosing
        (u := slashed kind name ((⟨0, 1⟩ : Place).advance head.toList))
        (o := opening kind name ((⟨0, 1⟩ : Place).advance head.toList))
        (c := closing kind name ((⟨0, 1⟩ : Place).advance head.toList))
        (decide_eq_false hkind.ne_text) (decide_eq_false hkind.ne_text) rfl
        hkind.canStandAlone hkind.canStandAlone raw us
      refine ⟨front, f, back, hkeeps, fun t ht htag => ?_, ?_, ?_⟩
      · exact htags t.bare (bare_mem_of_mem_settle (tiling_of_pieces hraw) ht) htag
      · have hscan := (hsettle (Text.byteLength (head.toList ++ (selfClosingTag kind name).toList))
          (Text.newlines (head.toList ++ (selfClosingTag kind name).toList)) 0 0).1
        rw [← hscan]
        simp [Except.mapError, Except.map]
      · have hscan := (hsettle 0 0 (Text.byteLength (head.toList ++ (tagPair kind name).toList))
          (Text.newlines (head.toList ++ (tagPair kind name).toList))).2
        rw [← hscan]
        simp [Except.mapError, Except.map]

end

end Token

end Mustache
