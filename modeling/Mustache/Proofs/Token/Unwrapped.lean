import Mathlib.Data.List.Nodup
import Mustache.Proofs.Token.Fused

/-!
Two tags taken out of a source, with a text between them that is not blank. The line that they are
on does not stand alone, with them or without, so every other line is left as it was. Main
statement: `scan_unwrapped`.
-/

namespace Mustache

namespace Token

/-! ### The line that runs on -/

/-- The tokens, settled behind the line that the first of them is on. -/
def settleBehind : List Token → List Token
  | [] => []
  | t :: ts => t :: if t.endsLine then settle ts else settleBehind ts

/-- The line that the first token is on holds a text that is not blank. -/
def darkStart : List Token → Bool
  | [] => false
  | t :: ts => t.isText && !t.isBlankText || !t.endsLine && darkStart ts

theorem settleBehind_of_splitLines {ts line : List Token} {lines : List (List Token)}
    (h : splitLines ts = line :: lines) :
    settleBehind ts = line ++ lines.flatMap settleLine := by
  induction ts generalizing line with
  | nil => cases h
  | cons t ts ih =>
    rw [splitLines] at h
    rw [settleBehind]
    split at h
    · rename_i hend
      obtain ⟨rfl, rfl⟩ := List.cons.inj h
      rw [if_pos hend, settle]
      rfl
    · rename_i hopen
      rw [if_neg hopen]
      cases hsplit : splitLines ts with
      | nil =>
        rw [hsplit] at h
        obtain ⟨rfl, rfl⟩ := List.cons.inj h
        obtain rfl : ts = [] := by rw [← flatten_splitLines ts, hsplit, List.flatten_nil]
        rfl
      | cons l ls =>
        rw [hsplit] at h
        obtain ⟨rfl, rfl⟩ := List.cons.inj h
        rw [ih hsplit]
        rfl

theorem exists_splitLines_of_darkStart {ts : List Token} (h : darkStart ts = true) :
    ∃ line lines, splitLines ts = line :: lines ∧
      ∃ t ∈ line, t.isText = true ∧ t.isBlankText = false := by
  induction ts with
  | nil => cases h
  | cons t ts ih =>
    have hdark : (t.isText = true ∧ t.isBlankText = false) ∨
        (t.endsLine = false ∧ darkStart ts = true) := by
      simpa [darkStart] using h
    rw [splitLines]
    split
    · rename_i hend
      rcases hdark with ht | ⟨hopen, -⟩
      · exact ⟨[t], splitLines ts, rfl, t, List.mem_cons_self, ht⟩
      · rw [hend] at hopen
        cases hopen
    · cases hsplit : splitLines ts with
      | nil =>
        rcases hdark with ht | ⟨-, hts⟩
        · exact ⟨[t], [], rfl, t, List.mem_cons_self, ht⟩
        · obtain ⟨line, lines, hlines, -⟩ := ih hts
          rw [hlines] at hsplit
          cases hsplit
      | cons l ls =>
        refine ⟨t :: l, ls, rfl, ?_⟩
        rcases hdark with ht | ⟨-, hts⟩
        · exact ⟨t, List.mem_cons_self, ht⟩
        · obtain ⟨line, lines, hlines, u, hu, hdark⟩ := ih hts
          rw [hlines] at hsplit
          obtain ⟨rfl, rfl⟩ := List.cons.inj hsplit
          exact ⟨u, List.mem_cons_of_mem t hu, hdark⟩

theorem settle_of_darkStart {ts : List Token} (h : darkStart ts = true) :
    settle ts = settleBehind ts := by
  obtain ⟨line, lines, hsplit, t, ht, htext, hblank⟩ := exists_splitLines_of_darkStart h
  have halone : standsAlone line = false := by
    refine Bool.and_eq_false_imp.mpr fun _ => List.all_eq_false.mpr ⟨t, ht, ?_⟩
    simp [htext, hblank]
  rw [settle, hsplit, List.flatMap_cons, settleLine, halone, settleBehind_of_splitLines hsplit]
  rfl

theorem settleBehind_moved (n m : Nat) (ts : List Token) :
    settleBehind (ts.map (moved n m)) = (settleBehind ts).map (moved n m) := by
  induction ts with
  | nil => rfl
  | cons t ts ih =>
    rw [List.map_cons, settleBehind, settleBehind, endsLine_moved, ih, settle_moved, List.map_cons]
    split <;> rfl

section

variable {ts : List Token} (h : ∀ t ∈ ts, t.endsLine = false)
include h

theorem settleBehind_append (us : List Token) :
    settleBehind (ts ++ us) = ts ++ settleBehind us := by
  induction ts with
  | nil => rfl
  | cons t ts ih =>
    obtain ⟨ht, hts⟩ := List.forall_mem_cons.mp h
    rw [List.cons_append, settleBehind, ht, ih hts]
    rfl

theorem darkStart_append_right {us : List Token} (hus : darkStart us = true) :
    darkStart (ts ++ us) = true := by
  induction ts with
  | nil => exact hus
  | cons t ts ih =>
    obtain ⟨ht, hts⟩ := List.forall_mem_cons.mp h
    simp [darkStart, ht, ih hts]

theorem darkStart_of_mem {u : Token} (hu : u ∈ ts) (htext : u.isText = true)
    (hdark : u.isBlankText = false) (us : List Token) : darkStart (ts ++ us) = true := by
  induction ts with
  | nil => cases hu
  | cons t ts ih =>
    obtain ⟨ht, hts⟩ := List.forall_mem_cons.mp h
    rcases List.mem_cons.mp hu with rfl | hu
    · simp [darkStart, htext, hdark]
    · simp [darkStart, ht, ih hts hu]

end

theorem settleBehind_attach (t : Token) (us : List Token) (ht : t.endsLine = false) :
    settleBehind (attach t us) = attach t (settleBehind us) := by
  cases us with
  | nil => simp [attach, settleBehind, settle, splitLines]
  | cons u us =>
    rw [attach]
    split
    · rename_i hfuse
      obtain ⟨⟨htext, -⟩, hu⟩ : (t.isText = true ∧ t.endsLine = false) ∧ u.isText = true := by
        simpa using hfuse
      rw [settleBehind, settleBehind, endsLine_fuse htext ht hu, attach, if_pos hfuse]
    · rename_i hapart
      rw [settleBehind, ht, settleBehind, attach, if_neg hapart]
      rfl

theorem settleBehind_join {ts : List Token} (h : ∀ t ∈ ts, t.endsLine = false) (us : List Token) :
    settleBehind (join ts us) = join ts (settleBehind us) := by
  rcases List.eq_nil_or_concat ts with rfl | ⟨front, t, rfl⟩
  · rfl
  · rw [List.concat_eq_append] at h ⊢
    obtain ⟨hfront, ht⟩ := List.forall_mem_append.mp h
    rw [join_concat, join_concat, settleBehind_append hfront,
      settleBehind_attach t us (ht t (List.mem_singleton_self t))]

theorem darkStart_attach {t : Token} (ht : t.endsLine = false) {us : List Token}
    (h : t.isText = true ∧ t.isBlankText = false ∨ darkStart us = true) :
    darkStart (attach t us) = true := by
  cases us with
  | nil =>
    rcases h with ⟨htext, hblank⟩ | h
    · simp [attach, darkStart, htext, hblank]
    · cases h
  | cons u us =>
    rw [attach]
    split
    · rename_i hfuse
      obtain ⟨⟨htext, -⟩, hu⟩ : (t.isText = true ∧ t.endsLine = false) ∧ u.isText = true := by
        simpa using hfuse
      have hfused : (t.fuse u).isText = true := htext
      have hblank : (t.fuse u).isBlankText = (t.isBlankText && u.isBlankText) := by
        simp only [isBlankText, hfused, htext, hu, Bool.true_and]
        simp [fuse, Text.isBlank]
      rw [darkStart, hfused, hblank, endsLine_fuse htext ht hu]
      rw [darkStart, hu] at h
      rcases h with ⟨-, h⟩ | h
      · simp [h]
      · cases hu : u.isBlankText <;> simp_all
    · rcases h with ⟨htext, hblank⟩ | h
      · simp [darkStart, htext, hblank]
      · rw [darkStart, ht, h]
        simp

theorem darkStart_join {ts us : List Token} (h : ∀ t ∈ ts, t.endsLine = false)
    (hdark : (∃ t ∈ ts, t.isText = true ∧ t.isBlankText = false) ∨ darkStart us = true) :
    darkStart (join ts us) = true := by
  rcases List.eq_nil_or_concat ts with rfl | ⟨front, t, rfl⟩
  · rcases hdark with ⟨t, ht, -⟩ | hus
    · cases ht
    · exact hus
  · rw [List.concat_eq_append] at h hdark ⊢
    obtain ⟨hfront, hlast⟩ := List.forall_mem_append.mp h
    rw [List.forall_mem_singleton] at hlast
    rw [join_concat]
    rcases hdark with ⟨u, hu, htext, hblank⟩ | hus
    · rcases List.mem_append.mp hu with hu | hu
      · exact darkStart_of_mem hfront hu htext hblank _
      · obtain rfl := List.mem_singleton.mp hu
        exact darkStart_append_right hfront (darkStart_attach hlast (.inl ⟨htext, hblank⟩))
    · exact darkStart_append_right hfront (darkStart_attach hlast (.inr hus))

/-! ### Lines in front -/

/-- Nothing runs on behind the tokens: there are none, or the last is a tag or ends its line. -/
def Halts (ts : List Token) : Prop := ∀ t ∈ ts.getLast?, t.isText = false ∨ t.endsLine = true

theorem Halts.append {ts us : List Token} (hts : Halts ts) (hus : Halts us) :
    Halts (ts ++ us) := by
  intro t ht
  rw [List.getLast?_append] at ht
  cases hlast : us.getLast? with
  | none => exact hts t (by simpa [hlast] using ht)
  | some u => exact hus t (by simpa [hlast] using ht)

theorem join_append_of_halts {ts : List Token} (h : Halts ts) (us vs : List Token) :
    join (ts ++ us) vs = ts ++ join us vs := by
  rcases List.eq_nil_or_concat us with rfl | ⟨front, u, rfl⟩
  · rcases List.eq_nil_or_concat ts with rfl | ⟨front, t, rfl⟩
    · rfl
    · rw [List.concat_eq_append] at h ⊢
      rw [List.append_nil, join_concat, attach_of_closed (h t (by simp)), List.append_assoc]
      rfl
  · rw [List.concat_eq_append, ← List.append_assoc, join_concat, join_concat, List.append_assoc]

theorem halts_settle {ts : List Token} (h : Closed ts) : Halts (settle ts) := by
  have hline : ∀ line ∈ splitLines ts, Halts (settleLine line) := by
    intro line hmem
    obtain ⟨before, after, hsplit⟩ := List.append_of_mem hmem
    obtain ⟨front, last, rfl, -, hlast⟩ := exists_last_of_splitLines hsplit
    intro t ht
    rw [settleLine] at ht
    split at ht
    · obtain ⟨-, u, -, -, hu, rfl⟩ := mem_dropTexts.mp (List.mem_of_getLast? ht)
      exact .inl (by rw [isText_settled, hu])
    · obtain rfl : last = t := by simpa using ht
      refine .inr (hlast.elim (fun hnil => h last ?_) id)
      rw [← flatten_splitLines ts, hsplit, hnil]
      simp
  have hall : ∀ lines : List (List Token), (∀ line ∈ lines, Halts (settleLine line)) →
      Halts (lines.flatMap settleLine) := by
    intro lines hlines
    induction lines with
    | nil => exact fun t ht => by cases ht
    | cons line lines ih =>
      rw [List.flatMap_cons]
      obtain ⟨hfirst, hrest⟩ := List.forall_mem_cons.mp hlines
      exact hfirst.append (ih hrest)
  exact hall _ hline

/-- The lines in front of the last, and that one as far as it goes. -/
theorem exists_closed_append (ts : List Token) :
    ∃ front line, ts = front ++ line ∧ Closed front ∧ ∀ t ∈ line, t.endsLine = false := by
  induction ts using List.reverseRecOn with
  | nil => exact ⟨[], [], rfl, by simp [Closed], by simp⟩
  | append_singleton ts t ih =>
    cases hend : t.endsLine with
    | true =>
      refine ⟨ts ++ [t], [], (List.append_nil _).symm, fun u hu => ?_, by simp⟩
      obtain rfl : t = u := by simpa using hu
      exact hend
    | false =>
      obtain ⟨front, line, rfl, hfront, hline⟩ := ih
      refine ⟨front, line ++ [t], List.append_assoc _ _ _, hfront, ?_⟩
      exact List.forall_mem_append.mpr ⟨hline, List.forall_mem_singleton.mpr hend⟩

/-! ### Two tags taken out -/

/-- In a source there are two tags, one between the texts `head` and `body`, the other between
`body` and `tail`; `opening` and `closing` are how they are written. -/
structure Surrounds (head opening body closing tail : List Char) (o c : Token) : Prop where
  opens : o.isText = false
  closes : c.isText = false
  start_open : o.start = Text.byteLength head
  stop_open : o.stop = Text.byteLength (head ++ opening)
  start_close : c.start = Text.byteLength (head ++ opening ++ body)
  stop_close : c.stop = Text.byteLength (head ++ opening ++ body ++ closing)

theorem pieces_unwrapped {head opening body closing tail : List Char} {o c : Token}
    (hlies : Surrounds head opening body closing tail o c) {ts inner us : List Token}
    (h : pieces .standard ⟨0, 1⟩ (head ++ opening ++ body ++ closing ++ tail) =
      .ok (ts ++ o :: (inner ++ c :: us)))
    (hplain : ∀ t ∈ ts ++ o :: (inner ++ c :: us), t.kind ≠ .delimiters) :
    ∃ inner' us' : List Token,
      inner = inner'.map (moved (Text.byteLength (head ++ opening))
        (Text.newlines (head ++ opening))) ∧
      us = us'.map (moved (Text.byteLength (head ++ opening ++ body ++ closing))
        (Text.newlines (head ++ opening ++ body ++ closing))) ∧
      pieces .standard ⟨0, 1⟩ body = .ok inner' ∧
      pieces .standard ⟨0, 1⟩ (head ++ body ++ tail) = .ok (join ts
        (join (inner'.map (moved (Text.byteLength head) (Text.newlines head)))
          (us'.map (moved (Text.byteLength (head ++ body)) (Text.newlines (head ++ body)))))) := by
  obtain ⟨hts, ho, hinner, hc, -⟩ : (∀ t ∈ ts, t.kind ≠ .delimiters) ∧ o.kind ≠ .delimiters ∧
      (∀ t ∈ inner, t.kind ≠ .delimiters) ∧ c.kind ≠ .delimiters ∧
      ∀ t ∈ us, t.kind ≠ .delimiters := by
    simpa [List.forall_mem_append, or_imp, forall_and] using hplain
  simp only [List.append_assoc] at h
  have hbytes := hlies.stop_open
  have hbytes' := hlies.start_close
  have hbytes'' := hlies.stop_close
  simp only [Text.byteLength_append] at hbytes hbytes' hbytes''
  -- the first tag, what is behind it, the second tag and what is behind that
  obtain ⟨hopen, hhead⟩ := pieces_join_of_start h hlies.opens hts (by
    rw [hlies.start_open, Nat.zero_add])
  have hwithin := pieces_behind_of_stop hopen hlies.opens ho (by
    simp only [advance_start]; omega)
  rw [← Place.advance_append] at hwithin
  have htail := pieces_behind_of_stop
    (pieces_join_of_start hwithin hlies.closes hinner (by
      simp only [advance_start, Text.byteLength_append]; omega)).1 hlies.closes hc (by
    simp only [Place.advance, Text.byteLength_append]; omega)
  rw [← Place.advance_append, ← Place.advance_append, advance_start_eq_moved] at htail
  rw [advance_start_eq_moved] at hwithin
  obtain ⟨vs, hvs, heq⟩ := pieces_of_moved hwithin
  obtain ⟨us', hus', rfl⟩ := pieces_of_moved htail
  obtain ⟨inner', rest, rfl, rfl, hrest⟩ := List.map_eq_append_iff.mp heq.symm
  obtain ⟨c', vs', rfl, rfl, -⟩ := List.map_eq_cons_iff.mp hrest
  -- the body stands in front of the second tag wherever it begins
  have hbody : ∀ n m more, pieces .standard ((⟨0, 1⟩ : Place).moved n m) (body ++ more) =
      (pieces .standard (((⟨0, 1⟩ : Place).moved n m).advance body) more).map
        (join (inner'.map (moved n m))) := by
    intro n m
    have hpieces : pieces .standard ((⟨0, 1⟩ : Place).moved n m) (body ++ (closing ++ tail)) =
        .ok (inner'.map (moved n m) ++ c'.moved n m :: vs'.map (moved n m)) := by
      rw [pieces_moved, hvs]
      simp [Except.map, Except.mapError]
    refine (pieces_join_of_start hpieces hlies.closes ?_ ?_).2
    · rw [List.forall_mem_map] at hinner ⊢
      exact hinner
    · simp only [moved, Text.byteLength_append] at hbytes' ⊢
      simp only [Place.moved]
      omega
  have hjoined : pieces .standard ((⟨0, 1⟩ : Place).advance head) (body ++ tail) =
      .ok (join (inner'.map (moved (Text.byteLength head) (Text.newlines head)))
        (us'.map (moved (Text.byteLength (head ++ body)) (Text.newlines (head ++ body))))) := by
    rw [advance_start_eq_moved, hbody, ← advance_start_eq_moved, ← Place.advance_append,
      advance_start_eq_moved, pieces_moved, hus']
    rfl
  refine ⟨inner', us', rfl, by simp only [List.append_assoc], ?_, ?_⟩
  · have h := hbody 0 0 []
    have hstay : (moved 0 0 : Token → Token) = id := rfl
    rw [hstay, List.map_id, List.append_nil, pieces] at h
    exact h.trans (congrArg Except.ok (join_nil inner'))
  · rw [List.append_assoc, hhead, hjoined]
    rfl

/-! ### Two tags taken out of settled lines -/

section

variable {n : Nat} {cs : List Char} {ts us : List Token} {t u : Token}
  (h : Tiling n cs (ts ++ t :: us)) (hu : u ∈ ts ++ t :: us)
include h hu

theorem mem_behind_of_tiling (hle : t.stop ≤ u.start) : u ∈ us := by
  have hlt := (h.bounds (t := t) (by simp)).2.1
  have hlt' := (h.bounds hu).2.1
  rcases List.mem_append.mp hu with hu | hu
  · have := (List.pairwise_append.mp h.pairwise).2.2 u hu t List.mem_cons_self
    omega
  · rcases List.mem_cons.mp hu with rfl | hu
    · omega
    · exact hu

theorem mem_front_of_tiling (hle : u.stop ≤ t.start) : u ∈ ts := by
  have hlt := (h.bounds (t := t) (by simp)).2.1
  have hlt' := (h.bounds hu).2.1
  rcases List.mem_append.mp hu with hu | hu
  · exact hu
  · rcases List.mem_cons.mp hu with rfl | hu
    · omega
    · have := List.rel_of_pairwise_cons (List.pairwise_append.mp h.pairwise).2.1 hu
      omega

end

section

variable {n : Nat} {cs : List Char} {raw : List Token} (h : Tiling n cs raw)
include h

/-- The settled tokens lie one behind the other. -/
theorem pairwise_settle : (settle raw).Pairwise fun t u => t.stop ≤ u.start := by
  have hraw : (raw.map span).Pairwise fun a b => a.2 ≤ b.1 := List.pairwise_map.mpr h.pairwise
  exact List.pairwise_map.mp (hraw.sublist (settle_span_sublist raw))

theorem start_lt_stop_of_mem_settle {t : Token} (ht : t ∈ settle raw) : t.start < t.stop :=
  (h.bounds (bare_mem_of_mem_settle h ht)).2.1

/-- A token is known by where it lies. -/
theorem eq_of_span {t u : Token} (ht : t ∈ settle raw) (hu : u ∈ settle raw)
    (hspan : t.span = u.span) : t = u := by
  have hnodup : ((settle raw).map span).Nodup := by
    refine List.pairwise_map.mpr ((pairwise_settle h).imp_of_mem fun ha hb hle heq => ?_)
    have hlt := start_lt_stop_of_mem_settle h hb
    have hstop := congrArg Prod.snd heq
    simp only [span] at hstop
    omega
  exact List.inj_on_of_nodup_map hnodup ht hu hspan

theorem notMem_of_append {front back : List Token} {t : Token}
    (happ : settle raw = front ++ t :: back) : t ∉ front ∧ t ∉ back := by
  have hlt := start_lt_stop_of_mem_settle h (t := t) (by simp [happ])
  obtain ⟨-, hbehind, hfront⟩ := List.pairwise_append.mp (happ ▸ pairwise_settle h)
  refine ⟨fun ht => ?_, fun ht => ?_⟩
  · have hle := hfront t ht t List.mem_cons_self
    omega
  · have hle := List.rel_of_pairwise_cons hbehind ht
    omega

/-- The token without its indent, between the others. -/
theorem exists_bare_of_settle {front inner back : List Token} {o c : Token}
    (hsettle : settle raw = front ++ o :: (inner ++ c :: back)) :
    ∃ ts us vs, raw = ts ++ o.bare :: (us ++ c.bare :: vs) ∧ ∀ u ∈ inner, u.bare ∈ us := by
  have hbare : ∀ u ∈ front ++ o :: (inner ++ c :: back), u.bare ∈ raw := fun u hu =>
    bare_mem_of_mem_settle h (hsettle ▸ hu)
  obtain ⟨-, hbehind, -⟩ := List.pairwise_append.mp (hsettle ▸ pairwise_settle h)
  obtain ⟨hopen, hwithin⟩ := List.pairwise_cons.mp hbehind
  have hclose := (List.pairwise_append.mp hwithin).2.2
  obtain ⟨ts, rest, rfl⟩ := List.append_of_mem (hbare o (by simp))
  have hrest : ∀ u ∈ inner ++ c :: back, u.bare ∈ rest := fun u hu =>
    mem_behind_of_tiling h
      (hbare u (List.mem_append_right _ (List.mem_cons_of_mem o hu))) (hopen u hu)
  obtain ⟨us, vs, rfl⟩ := List.append_of_mem (hrest c (by simp))
  obtain ⟨_, _, -, -, htiling⟩ := Tiling.append_iff.mp h
  refine ⟨ts, us, vs, rfl, fun u hu => ?_⟩
  cases htiling with
  | cons _ htiling =>
    exact mem_front_of_tiling htiling (hrest u (List.mem_append_left _ hu))
      (hclose u hu c List.mem_cons_self)

/-- Two tags divide the tokens in one way. -/
theorem eq_of_settle {front inner back front' inner' back' : List Token} {o c : Token}
    (hsettle : settle raw = front ++ o :: (inner ++ c :: back))
    (hsettle' : settle raw = front' ++ o.bare :: (inner' ++ c.bare :: back')) :
    front = front' ∧ inner = inner' ∧ back = back' := by
  have ho : o.bare = o := eq_of_span h (by simp [hsettle']) (by simp [hsettle]) rfl
  have hc : c.bare = c := eq_of_span h (by simp [hsettle']) (by simp [hsettle]) rfl
  rw [ho, hc] at hsettle'
  have happ : ∀ xs ys zs : List Token, xs ++ o :: (ys ++ c :: zs) = (xs ++ o :: ys) ++ c :: zs := by
    simp
  obtain ⟨hofront, hoback⟩ := notMem_of_append h hsettle
  obtain ⟨hcfront, hcback⟩ := notMem_of_append h (hsettle.trans (happ _ _ _))
  obtain ⟨hfront, -, hrest⟩ := (List.append_cons_inj_of_notMem hofront hoback).mp
    (hsettle.symm.trans hsettle')
  obtain ⟨hinner, -, hback⟩ := (List.append_cons_inj_of_notMem
    (fun hmem => hcfront (by simp [hmem])) hcback).mp hrest
  exact ⟨hfront, hinner, hback⟩

end

/-! ### Tokens of a source -/

/-- Where no tag changes the delimiters, every token is read under the same ones. -/
theorem delimiters_of_pieces {d : Delimiters} (hd : d.SingleLine) {p : Place} {cs : List Char}
    {ts : List Token} (h : pieces d p cs = .ok ts) (hplain : ∀ t ∈ ts, t.kind ≠ .delimiters) :
    ∀ t ∈ ts, t.delimiters = d := by
  induction ts generalizing p cs with
  | nil => exact List.forall_mem_nil _
  | cons t ts ih =>
    obtain ⟨ht, hts⟩ := List.forall_mem_cons.mp hplain
    rcases eq_nil_or_cons_of_pieces hd h with
      ⟨text, rest, -, -, -, rfl, hrest⟩ | ⟨tag, -, -, hread, rfl, hrest⟩
    · exact List.forall_mem_cons.mpr ⟨rfl, ih hrest hts⟩
    · rw [Delimiters.through_singleton_of_ne ht] at hrest
      exact List.forall_mem_cons.mpr ⟨(readTag_token hread).2.2.2.1, ih hrest hts⟩

theorem delimiters_of_scan {d : Delimiters} (hd : d.SingleLine) {source : String} {ts : List Token}
    (h : scan d source = .ok ts) (hplain : ∀ t ∈ ts, t.kind ≠ .delimiters) :
    ∀ t ∈ ts, t.delimiters = d := by
  unfold scan at h
  split at h
  case h_2 => cases h
  rename_i raw hraw
  obtain rfl := Except.ok.inj h
  have htiling := tiling_of_pieces hraw
  have hplain' : ∀ t ∈ raw, t.kind ≠ .delimiters := by
    intro t ht hkind
    obtain ⟨u, hu, rfl⟩ := exists_mem_settle htiling ht (by simp [isText, hkind])
    exact hplain u hu hkind
  exact fun t ht => delimiters_of_pieces hd hraw hplain' t.bare (bare_mem_of_mem_settle htiling ht)

/-- What stands in front of a token ends where that begins. -/
theorem bounds_of_scan_append {d : Delimiters} {source : String} {front back : List Token}
    {t : Token} (h : scan d source = .ok (front ++ t :: back)) :
    ∀ u ∈ front, u.start ≤ t.start ∧ u.stop ≤ t.start := by
  unfold scan at h
  split at h
  case h_2 => cases h
  rename_i raw hraw
  have hsettle := Except.ok.inj h
  have htiling := tiling_of_pieces hraw
  intro u hu
  have hlt := start_lt_stop_of_mem_settle htiling (t := u) (by simp [hsettle, hu])
  have hle := (List.pairwise_append.mp (hsettle ▸ pairwise_settle htiling)).2.2 u hu t
    List.mem_cons_self
  omega

theorem endsLine_of_tiling {n : Nat} {cs : List Char} {ts : List Token} (h : Tiling n cs ts)
    (hcs : '\n' ∉ cs) : ∀ t ∈ ts, t.endsLine = false := by
  intro t ht
  obtain ⟨before, lexeme, after, rfl, hfits⟩ := h.exists_fits ht
  cases htext : t.isText with
  | false => simp [endsLine, htext]
  | true =>
    have hlast : lexeme.getLast? ≠ some '\n' := fun hlast =>
      hcs (List.mem_append_left _ (List.mem_append_right _ (List.mem_of_getLast? hlast)))
    simp [endsLine, hfits.toList_value htext, hlast]

theorem settle_unwrapped {ts inner us : List Token} {o c : Token} {inner' us' : List Token}
    (ho : o.isText = false) (hc : c.isText = false)
    (hinner : ∀ t ∈ inner, t.endsLine = false) (hinner' : ∀ t ∈ inner', t.endsLine = false)
    (hdark : ∃ u ∈ inner, u.isText = true ∧ u.isBlankText = false)
    (hdark' : ∃ u ∈ inner', u.isText = true ∧ u.isBlankText = false) :
    ∃ front, settle (ts ++ o :: (inner ++ c :: us)) =
        front ++ o :: (inner ++ c :: settleBehind us) ∧
      settle (join ts (join inner' us')) = join front (join inner' (settleBehind us')) := by
  obtain ⟨lines, line, rfl, hlines, hline⟩ := exists_closed_append ts
  have hopen : ∀ t : Token, t.isText = false → t.endsLine = false := fun t ht => by
    simp [endsLine, ht]
  have hfirst : ∀ t ∈ line ++ o :: (inner ++ [c]), t.endsLine = false := by
    simpa [or_imp, forall_and, hopen o ho, hopen c hc] using ⟨hline, hinner⟩
  refine ⟨settle lines ++ line, ?_, ?_⟩
  · obtain ⟨u, hu, htext, hblank⟩ := hdark
    have hstart := darkStart_of_mem hfirst (u := u) (by simp [hu]) htext hblank us
    have hbehind := settleBehind_append hfirst us
    rw [← settle_of_darkStart hstart] at hbehind
    rw [List.append_assoc, settle_append hlines]
    simp only [List.append_assoc, List.cons_append, List.nil_append] at hbehind ⊢
    rw [hbehind]
  · have hhalts : Halts lines := fun t ht => .inr (hlines t ht)
    rw [join_append_of_halts hhalts, settle_append hlines, settle_of_darkStart
      (darkStart_join hline (.inr (darkStart_join hinner' (.inl hdark')))),
      settleBehind_join hline, settleBehind_join hinner',
      join_append_of_halts (halts_settle hlines)]

/-- **Two tags can be taken out of a line.** If what stands between them is on one line and holds a
text that is not blank, the tokens in front, between and behind them stay, but for the texts that
run on. What stands between them has the same tokens on its own. -/
theorem scan_unwrapped {head opening body closing tail : String} {o c : Token}
    (hlies : Surrounds head.toList opening.toList body.toList closing.toList tail.toList o c)
    {front inner back : List Token}
    (h : scan .standard (head ++ opening ++ body ++ closing ++ tail) =
      .ok (front ++ o :: (inner ++ c :: back)))
    (hplain : ∀ t ∈ front ++ o :: (inner ++ c :: back), t.kind ≠ .delimiters)
    (hline : '\n' ∉ body.toList) (hdark : ∃ u ∈ inner, u.isText = true ∧ u.isBlankText = false) :
    ∃ inner' back' : List Token,
      inner = inner'.map (moved (Text.byteLength (head ++ opening).toList)
        (Text.newlines (head ++ opening).toList)) ∧
      back = back'.map (moved (Text.byteLength (head ++ opening ++ body ++ closing).toList)
        (Text.newlines (head ++ opening ++ body ++ closing).toList)) ∧
      scan .standard body = .ok inner' ∧
      scan .standard (head ++ body ++ tail) = .ok (join front
        (join (inner'.map (moved (Text.byteLength head.toList) (Text.newlines head.toList)))
          (back'.map (moved (Text.byteLength (head ++ body).toList)
            (Text.newlines (head ++ body).toList))))) := by
  unfold scan at h
  split at h
  case h_2 => cases h
  rename_i raw hraw
  have hsettle := Except.ok.inj h
  have htiling := tiling_of_pieces hraw
  obtain ⟨ts, us, vs, rfl, hmem⟩ := exists_bare_of_settle htiling hsettle
  have hplain' : ∀ t ∈ ts ++ o.bare :: (us ++ c.bare :: vs), t.kind ≠ .delimiters := by
    intro t ht hkind
    obtain ⟨u, hu, rfl⟩ := exists_mem_settle htiling ht (by simp [isText, hkind])
    exact hplain u (hsettle ▸ hu) hkind
  have hlies' : Surrounds head.toList opening.toList body.toList closing.toList tail.toList
      o.bare c.bare :=
    ⟨hlies.opens, hlies.closes, hlies.start_open, hlies.stop_open, hlies.start_close,
      hlies.stop_close⟩
  simp only [String.toList_append] at hraw ⊢
  obtain ⟨us', vs', rfl, rfl, hbody, hjoined⟩ := pieces_unwrapped hlies' hraw hplain'
  obtain ⟨u, hu, htext, hblank⟩ := hdark
  obtain ⟨u', hu', hmoved⟩ := List.mem_map.mp (hmem u hu)
  have htext' : u'.isText = true := by rw [← isText_moved, hmoved, ← htext]; rfl
  have hblank' : u'.isBlankText = false := by rw [← isBlankText_moved, hmoved, ← hblank]; rfl
  have hopen := endsLine_of_tiling (tiling_of_pieces hbody) hline
  have hopen' : ∀ n m, ∀ t ∈ us'.map (moved n m), t.endsLine = false := fun n m =>
    List.forall_mem_map.mpr hopen
  have hdark' : ∀ n m, ∃ u ∈ us'.map (moved n m), u.isText = true ∧ u.isBlankText = false :=
    fun n m => ⟨u'.moved n m, List.mem_map_of_mem hu', htext', hblank'⟩
  obtain ⟨front', hfront, hjoin⟩ := @settle_unwrapped ts _ _ o.bare c.bare _
    (vs'.map (moved (Text.byteLength (head.toList ++ body.toList))
      (Text.newlines (head.toList ++ body.toList))))
    hlies.opens hlies.closes (hopen' _ _) (hopen' (Text.byteLength head.toList)
      (Text.newlines head.toList)) (hdark' _ _) (hdark' _ _)
  obtain ⟨rfl, rfl, rfl⟩ := eq_of_settle htiling hsettle hfront
  refine ⟨us', settleBehind vs', rfl, settleBehind_moved _ _ _, ?_, ?_⟩
  · have hstart := darkStart_of_mem hopen hu' htext' hblank' []
    have hsettle := settleBehind_append hopen []
    rw [← settle_of_darkStart hstart, settleBehind, List.append_nil] at hsettle
    rw [scan, hbody]
    exact congrArg Except.ok hsettle
  · rw [scan, String.toList_append, String.toList_append, hjoined]
    refine congrArg Except.ok (hjoin.trans ?_)
    rw [settleBehind_moved]

end Token

end Mustache
