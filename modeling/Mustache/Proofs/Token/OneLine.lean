import Mustache.Proofs.Token.Joined
import Mustache.Proofs.Token.Printed

/-!
Sources of one line that hold texts and the tags of parents and blocks. What is asked of a text or of
a name is only that the delimiter behind it is not met before. Main statement: `scan_of_onLine`.
-/

namespace Mustache

/-- The pattern, written behind the text, is not met before. -/
def Text.EndsBefore (pattern cs : List Char) : Prop :=
  cutAt? pattern (cs ++ pattern) = some (cs, [])

namespace Token

/-- The item is a text or the tag of a parent or a block, without newlines but at the end of a text,
and it ends where it is meant to. -/
def Item.OnLine (d : Delimiters) : Item → Prop
  | text s => s ≠ "" ∧ '\n' ∉ s.toList.dropLast ∧ Text.EndsBefore d.opening.toList s.toList
  | tag kind body => (kind = .parent ∨ kind = .block ∨ kind = .close) ∧ '\n' ∉ body.toList ∧
    Text.trim body.toList = body.toList ∧ Text.EndsBefore d.closing.toList body.toList
  | switch _ => False

variable {d : Delimiters} {items : List Item}

/-! ### Pieces -/

theorem takeText_of_endsBefore {opening cs rest : List Char} (h : Text.EndsBefore opening cs)
    (hnewline : '\n' ∉ cs.dropLast) (hrest : rest = [] ∨ standsAt opening rest = true) :
    takeText opening (cs ++ rest) = (cs, rest) := by
  induction cs with
  | nil =>
    rcases hrest with rfl | hstands
    · rfl
    · cases rest with
      | nil => rfl
      | cons c rest =>
        rw [List.nil_append, takeText, if_pos hstands]
  | cons c cs ih =>
    unfold Text.EndsBefore at h
    rw [List.cons_append, Text.cutAt?] at h
    split at h
    · cases h
    · rename_i hhere
      have hcut : Text.EndsBefore opening cs := by
        obtain ⟨⟨before, after⟩, hcut, heq⟩ := Option.map_eq_some_iff.mp h
        obtain ⟨hbefore, rfl⟩ := Prod.mk.inj heq
        obtain rfl := (List.cons.inj hbefore).2
        exact hcut
      -- the delimiter behind the rest of the text is all that could be met here
      have hstands : standsAt opening (c :: cs ++ rest) = false := by
        refine Bool.eq_false_iff.mpr fun hstands => hhere ?_
        simp only [standsAt, Bool.and_eq_true, List.isPrefixOf_iff_prefix] at hstands
        rw [List.isPrefixOf_iff_prefix]
        rcases hrest with rfl | hrest
        · rw [List.append_nil] at hstands
          exact hstands.2.trans (List.prefix_append (c :: cs) opening)
        · simp only [standsAt, Bool.and_eq_true, List.isPrefixOf_iff_prefix] at hrest
          obtain ⟨more, rfl⟩ := hrest.2
          rw [← List.append_assoc] at hstands
          exact List.prefix_of_prefix_length_le hstands.2 (List.prefix_append _ more)
            (by simp only [List.length_append, List.length_cons]; omega)
      rw [List.cons_append, takeText, if_neg (by rw [← List.cons_append, hstands]; decide)]
      by_cases hc : c = '\n'
      · have hnil : cs = [] := by
          by_contra hne
          rw [List.dropLast_cons_of_ne_nil hne, hc] at hnewline
          exact hnewline List.mem_cons_self
        rw [if_pos hc, hnil]
        rfl
      · have hnewline' : '\n' ∉ cs.dropLast := fun hmem => hnewline <| by
          rw [List.dropLast_cons_of_ne_nil (List.ne_nil_of_mem (List.dropLast_subset cs hmem))]
          exact List.mem_cons_of_mem c hmem
        rw [if_neg hc, ih hcut hnewline']

/-- Items on a line are read as they were written. -/
theorem pieces_of_onLine (hd : d.Writable) (honLine : ∀ i ∈ items, i.OnLine d)
    (hapart : items.IsChain fun i j => i.isText = true → j.isText = false) (p : Place) :
    pieces d p (printAll d items).toList = .ok (tokensOf d p items) := by
  induction items generalizing p with
  | nil => simp [printAll, pieces, tokensOf]
  | cons i is ih =>
    obtain ⟨hi, his⟩ := List.forall_mem_cons.mp honLine
    have hafter : i.after d = d := by
      cases i with
      | switch next => exact hi.elim
      | _ => rfl
    have hrest := ih his hapart.tail (p.advance (i.print d).toList)
    rw [printAll, String.toList_append, tokensOf, hafter]
    cases i with
    | switch next => exact hi.elim
    | tag kind body =>
      obtain ⟨hkind, hnewline, htrim, hends⟩ := hi
      have hsigil : ∀ rest, sigilOf (kind.mark.toList ++ rest) = ⟨kind, kind.mark.toList, false⟩ := by
        intro rest
        rcases hkind with rfl | rfl | rfl <;> simp [TokenKind.mark, sigilOf, TokenKind.ofSigil?]
      have hcut := Text.cutAt?_append_right hends (printAll d is).toList
      rw [List.append_assoc, List.nil_append] at hcut
      rw [pieces_print_of_cut hd (by rcases hkind with rfl | rfl | rfl <;> decide) (hsigil _) hcut
        htrim hnewline p, hrest]
      rfl
    | text s =>
      obtain ⟨hne, hnewline, hends⟩ := hi
      have hbehind : (printAll d is).toList = [] ∨
          standsAt d.opening.toList (printAll d is).toList = true := by
        cases is with
        | nil => exact .inl rfl
        | cons j js =>
          have hj := (List.isChain_cons_cons.mp hapart).1 rfl
          rw [printAll, String.toList_append]
          exact .inr (standsAt_print hd hj _)
      have htake := takeText_of_endsBefore hends hnewline hbehind
      have hpiece := pieces_of_takeText (p := p) (fun h => hne (String.toList_eq_nil_iff.mp h)) htake
      refine hpiece.trans ?_
      rw [show (p.advance s.toList) = p.advance ((Item.text s).print d).toList from rfl, hrest]
      simp [Item.token, Item.kind, Item.value, Item.print, Except.map]

/-! ### The line -/

theorem splitLines_of_dropLast {ts : List Token} (hne : ts ≠ [])
    (h : ∀ t ∈ ts.dropLast, t.endsLine = false) : splitLines ts = [ts] := by
  induction ts with
  | nil => exact absurd rfl hne
  | cons t ts ih =>
    cases ts with
    | nil =>
      rw [splitLines]
      split <;> rfl
    | cons u us =>
      rw [List.dropLast_cons_of_ne_nil (List.cons_ne_nil u us)] at h
      obtain ⟨ht, hrest⟩ := List.forall_mem_cons.mp h
      rw [splitLines, if_neg (by rw [ht]; decide), ih (List.cons_ne_nil u us) hrest]

/-- The token holds what the item says, and no indent. -/
structure Spells (i : Item) (t : Token) : Prop extends Shown i t where
  indent_eq : t.indent = none

theorem spells_tokensOf (honLine : ∀ i ∈ items, i.OnLine d) (p : Place) :
    List.Forall₂ Spells items (tokensOf d p items) := by
  induction items generalizing d p with
  | nil => exact .nil
  | cons i is ih =>
    obtain ⟨hi, his⟩ := List.forall_mem_cons.mp honLine
    have hafter : i.after d = d := by
      cases i with
      | switch next => exact hi.elim
      | _ => rfl
    have hkind : ∀ body, i ≠ .tag .text body := by
      rintro body rfl
      rcases hi.1 with h | h | h <;> cases h
    rw [tokensOf, hafter]
    exact .cons ⟨shown_token hkind d p, rfl⟩ (ih his _)

theorem endsLine_of_spells {ts : List Token} (h : List.Forall₂ Spells items ts)
    (hlast : ∀ i ∈ items.dropLast, i.endsLine = false) :
    ∀ t ∈ ts.dropLast, t.endsLine = false := by
  induction h with
  | nil => exact fun t ht => nomatch ht
  | @cons i t is ts hspells hrest ih =>
    cases hrest with
    | nil => exact fun t ht => nomatch ht
    | cons hspells' hrest' =>
      rw [List.dropLast_cons_of_ne_nil (List.cons_ne_nil _ _)] at hlast ⊢
      obtain ⟨hi, his⟩ := List.forall_mem_cons.mp hlast
      exact List.forall_mem_cons.mpr ⟨hspells.endsLine_eq.trans hi, ih his⟩

/-- **A line of texts and tags is scanned to its items**, if something on it shows or it holds no
tags. -/
theorem scan_of_onLine (hd : d.Writable) (honLine : ∀ i ∈ items, i.OnLine d)
    (hapart : items.IsChain fun i j => i.isText = true → j.isText = false)
    (hlast : ∀ i ∈ items.dropLast, i.endsLine = false)
    (hshows : (∀ i ∈ items, i.isText = true) ∨ ∃ i ∈ items, i.Shows) :
    ∃ ts, scan d (printAll d items) = .ok ts ∧ List.Forall₂ Spells items ts := by
  have hpieces := pieces_of_onLine hd honLine hapart ⟨0, 1⟩
  have hspells := spells_tokensOf honLine ⟨0, 1⟩
  refine ⟨tokensOf d ⟨0, 1⟩ items, ?_, hspells⟩
  have halone : ∀ line ∈ splitLines (tokensOf d ⟨0, 1⟩ items), standsAlone line = false := by
    intro line hline
    cases items with
    | nil => cases hline
    | cons i is =>
      rw [splitLines_of_dropLast (by rw [tokensOf]; exact List.cons_ne_nil _ _)
        (endsLine_of_spells hspells hlast)] at hline
      rw [List.mem_singleton.mp hline]
      rcases hshows with htexts | hshows
      · refine Bool.and_eq_false_iff.mpr (.inl (List.any_eq_false.mpr fun t ht => ?_))
        obtain ⟨j, hj, hspelled⟩ := exists_rel_of_mem hspells ht
        rw [hspelled.isText_eq, htexts j hj]
        decide
      · exact standsAlone_of_shows (hspells.imp fun _ _ h => h.toShown) hshows
  unfold scan
  rw [hpieces]
  exact congrArg Except.ok (settle_eq_self halone)

/-- A parent tag without anything in it stands alone on its line. -/
theorem scan_empty_parent (hd : d.Writable) {name : String}
    (hname : (Item.tag .parent name).OnLine d) :
    ∃ t u, scan d (printAll d [.tag .parent name, .tag .close name]) = .ok [t, u] ∧
      t.kind = .parent ∧ t.value = name ∧ t.indent = some "" ∧ u.kind = .close ∧
      u.value = name := by
  have hclose : (Item.tag .close name).OnLine d := ⟨.inr (.inr rfl), hname.2⟩
  have honLine : ∀ i ∈ [Item.tag .parent name, Item.tag .close name], i.OnLine d :=
    List.forall_mem_cons.mpr ⟨hname, List.forall_mem_singleton.mpr hclose⟩
  have hpieces := pieces_of_onLine hd honLine (by simp [Item.isText]) ⟨0, 1⟩
  unfold scan
  rw [hpieces]
  exact ⟨_, _, rfl, rfl, rfl, rfl, rfl, rfl⟩

end Token

end Mustache
