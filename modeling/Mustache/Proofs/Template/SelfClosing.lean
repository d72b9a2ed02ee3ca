import Mustache.Proofs.Template.Change
import Mustache.Proofs.Token.SelfClosing

/-!
Tags that stand for one another, compiled. Where other tags are put in the place of a tag, and they
make a node that compiles to the same steps, the rest of the source compiles as it did; only the
bodies of the sections around it are other texts. Such nodes are made by a tag that closes itself
and by the two tags that it stands for. Main statement: `exists_compileNodes_replaced`.
-/

namespace Mustache

namespace Step

/-- The bodies, as texts, of the sections around a place differ, and nothing else. -/
def rebodied (around : String → Prop) : Change where
  here _ _ := False
  around := around
  opens _ := False
  shallow := False
  here_between := False.elim
  not_overrides := False.elim
  opens_append := False.elim

end Step

namespace Node

/-! ### The two tags -/

/-- The tokens are tags of one kind, on the same line and alike in its indent. -/
structure SameTag (t t' : Token) : Prop where
  kind : t'.kind = t.kind
  line : t'.line = t.line
  delimiters : t'.delimiters = t.delimiters
  indent : t'.indent = t.indent

theorem SameTag.symm {t t' : Token} (h : SameTag t t') : SameTag t' t :=
  ⟨h.kind.symm, h.line.symm, h.delimiters.symm, h.indent.symm⟩

/-- Tags of one kind stay alike where they are left in the same line. -/
theorem sameTag_of_keeps {f : Token → Token} (hf : Token.Keeps f) {t t' : Token}
    (h : SameTag t t') : SameTag (f t) (f t') := by
  rcases hf with rfl | ⟨indent, rfl⟩
  · exact h
  · change SameTag (t.settled indent) (t'.settled indent)
    unfold Token.settled
    rw [h.kind]
    split
    · exact ⟨rfl, h.line, h.delimiters, rfl⟩
    · exact h

/-- A pragma that is in force behind some tags is so behind any tokens that they are among. -/
theorem contains_through_of_tags {s : PragmaSet} {p : Pragma} {ts us : List Token}
    (h : (s.through ts).contains p = true)
    (htags : ∀ t ∈ ts, t.isText = false → ∃ u ∈ us, u.kind = t.kind ∧ u.value = t.value) :
    (s.through us).contains p = true := by
  rw [PragmaSet.contains_through] at h ⊢
  refine h.imp_right ?_
  rintro ⟨t, ht, hkind, hname⟩
  obtain ⟨u, hu, hkind', hvalue⟩ := htags t ht (by simp [Token.isText, hkind])
  exact ⟨u, hu, hkind'.trans hkind, hvalue ▸ hname⟩

theorem unslashed?_of_slash {t : Token} {name : String} (hname : Token.IsName name)
    (hvalue : t.value = name ++ " /") : unslashed? t = some name := by
  have hlist : t.value.toList = name.toList ++ [' '] ++ ['/'] := by simp [hvalue]
  have htrim : Text.trimEnd (name.toList ++ [' ']) = name.toList := by
    have hspace : Text.trimEnd (name.toList ++ [' ']) = Text.trimEnd name.toList := by
      simp [Text.trimEnd, Text.isSpace]
    rw [hspace, Text.trimEnd_of_last hname.tight.last]
  unfold unslashed?
  rw [hlist, if_pos (by simp), List.dropLast_concat, htrim, String.ofList_toList]

namespace Machine

variable {m : Machine} {t u o c : Token} {name : String}

theorem read_cons_error {f : Fault} (h : m.step t = .error f) (ts : List Token) :
    m.read (t :: ts) = .error f := by
  rw [read, h]
  rfl

theorem step_of_opens (ht : t.kind.Opens) : m.step t =
    if m.inParent && t.kind ≠ .block then .error ⟨.strayInParent t.value t.line, t.line⟩
    else .ok (m.place t) := by
  unfold step
  rcases ht with h | h | h | h <;> rw [h]

theorem canOpen_of_opens (ht : t.kind.Opens)
    (hblocks : t.kind = .block ∨ t.kind = .parent → m.pragmas.contains .blocks = true) :
    m.canOpen t = true := by
  unfold canOpen
  rcases ht with h | h | h | h <;> simp only [h]
  · rw [hblocks (.inl h), Bool.or_true]
  · exact hblocks (.inr h)

/-- **A tag that closes itself is read as it is opened and closed**, or neither has a place here. -/
theorem read_selfClosing (hname : Token.IsName name) (ho : o.kind.Opens) (huo : SameTag o u)
    (hu : u.value = name ++ " /") (hvalue : o.value = name) (hc : c.kind = .close)
    (hclose : c.value = name) (hstart : c.start = o.stop)
    (hself : m.pragmas.contains .selfClosing = true)
    (hblocks : o.kind = .block ∨ o.kind = .parent → m.pragmas.contains .blocks = true) :
    (∃ f, m.read [u] = .error f) ∧ (∃ f, m.read [o, c] = .error f) ∨
    m.read [u] = .ok (m.add (ofTag u name [] u.stop)) ∧
      m.read [o, c] = .ok (m.add (ofTag o name [] o.stop)) := by
  have hu' : u.kind.Opens := huo.kind ▸ ho
  have hone := step_of_opens (m := m) hu'
  have htwo := step_of_opens (m := m) ho
  rw [huo.kind] at hone
  by_cases hstray : (m.inParent && o.kind ≠ .block) = true
  · rw [if_pos hstray] at hone htwo
    exact .inl ⟨⟨_, read_cons_error hone []⟩, ⟨_, read_cons_error htwo [c]⟩⟩
  · rw [if_neg hstray] at hone htwo
    refine .inr ⟨?_, ?_⟩
    · have hplace : m.place u = m.add (ofTag u name [] u.stop) := by
        unfold place closesItself?
        rw [if_pos (canOpen_of_opens hu' (huo.kind ▸ hblocks)), if_pos hself,
          unslashed?_of_slash hname hu]
      rw [read_cons_ok hone, hplace]
      rfl
    · have hplace : m.place o = m.push o := by
        unfold place
        rw [if_pos (canOpen_of_opens ho hblocks),
          closesItself?_eq_none fun _ => hvalue ▸ hname.slash]
      have hclosed : (m.push o).step c = .ok (m.add (ofTag o name [] o.stop)) := by
        rw [step_close_cons hc rfl, if_pos (hvalue.trans hclose.symm), hstart, hvalue]
        rfl
      rw [read_cons_ok htwo, hplace, read_cons_ok hclosed]
      rfl

/-- The same of the tags as they are left in their line. -/
theorem read_keeps {kind : TokenKind} {f : Token → Token} (hkeeps : Token.Keeps f)
    (hkind : kind.Opens) (hname : Token.IsName name) (p : Token.Place)
    (hself : m.pragmas.contains .selfClosing = true)
    (hblocks : kind = .block ∨ kind = .parent → m.pragmas.contains .blocks = true) :
    let u := f (Token.slashed kind name p)
    let o := f (Token.opening kind name p)
    let c := Token.closing kind name p
    (∃ f, m.read [u] = .error f) ∧ (∃ f, m.read [o, c] = .error f) ∨
    m.read [u] = .ok (m.add (ofTag u name [] u.stop)) ∧
      m.read [o, c] = .ok (m.add (ofTag o name [] o.stop)) := by
  intro u o c
  obtain ⟨i, hu⟩ := hkeeps.exists_indent (Token.slashed kind name p)
  obtain ⟨j, ho⟩ := hkeeps.exists_indent (Token.opening kind name p)
  have hkindo : o.kind = kind := congrArg Token.kind ho
  have hsame : SameTag o u := sameTag_of_keeps hkeeps ⟨rfl, rfl, rfl, rfl⟩
  exact read_selfClosing hname (hkindo ▸ hkind) hsame (congrArg Token.value hu)
    (congrArg Token.value ho) rfl rfl (congrArg Token.stop ho).symm hself (hkindo ▸ hblocks)

end Machine

end Node

namespace Template

open Node (Machine movedAll)

section

variable {source source' : List Char} {strictVariables : Bool} {ch : Step.Change} {c : PragmaSet}
  {ns ns' : List Node}

/-- The nodes compile to the same steps. -/
theorem Differ.of_follows (h : Follows source source' strictVariables ns ns') (hne : ns ≠ [])
    (hne' : ns' ≠ []) (hblocks : (∀ n ∈ ns, n.isBlock = true) → ∀ n ∈ ns', n.isBlock = true)
    (hindent : ∀ own, blockIndent ns' own = blockIndent ns own) :
    Differ source source' strictVariables ch c ns ns' where
  ne_nil := hne
  ne_nil' := hne'
  blocks := hblocks
  compiles w _ _ _ hrun := ⟨_, h w _ hrun, .inl ⟨rfl, hindent⟩⟩

theorem bodyText_self (source : List Char) (i : Nat) : bodyText source i i = "" := by
  have hguard : (guard (i ≤ i) : Option Unit) = some () := if_pos (Nat.le_refl i)
  unfold bodyText Text.sliceBytes?
  rw [Nat.sub_self, hguard]
  rcases Text.splitAtByte? i source with _ | ⟨front, rest⟩
  · rfl
  · show String.ofList (((Text.splitAtByte? 0 rest).bind _).getD []) = ""
    rw [Text.splitAtByte?]
    rfl

/-- An empty tag is compiled to the same steps wherever it stands in its source. -/
theorem follows_ofTag {t t' : Token} (h : Node.SameTag t t') (name : String) :
    Follows source source' strictVariables [Node.ofTag t name [] t.stop]
      [Node.ofTag t' name [] t'.stop] := by
  rintro w ⟨steps, w'⟩ hrun
  rw [compileNodes_singleton] at hrun ⊢
  unfold Node.ofTag at hrun ⊢
  rw [h.kind]
  cases hkind : t.kind <;> simp only [hkind] at hrun ⊢
  case block | parent =>
    rw [h.indent, h.line]
    simpa only [compileNode, compileNodes, compileOverrides] using hrun
  all_goals simpa only [compileNode, bodyText_self, h.delimiters, compileNodes] using hrun

theorem Differ.empty {t t' : Token} (h : Node.SameTag t t') (name : String) :
    Differ source source' strictVariables ch c [Node.ofTag t name [] t.stop]
      [Node.ofTag t' name [] t'.stop] := by
  have hsame : (Node.ofTag t' name [] t'.stop).isBlock = (Node.ofTag t name [] t.stop).isBlock ∧
      ∀ own, blockIndent [Node.ofTag t' name [] t'.stop] own =
        blockIndent [Node.ofTag t name [] t.stop] own := by
    unfold Node.ofTag
    rw [h.kind]
    cases t.kind <;> exact ⟨rfl, fun _ => rfl⟩
  refine .of_follows (follows_ofTag h name) (List.cons_ne_nil _ _) (List.cons_ne_nil _ _) ?_ hsame.2
  rw [List.forall_mem_singleton, List.forall_mem_singleton, hsame.1]
  exact id

end

/-! ### The two sources -/

section

variable {s : PragmaSet} {head tail : List Char} {front back mid mid' : List Token} {m : Machine}
  {n n' : Node} {strictVariables : Bool}

/-- **Other tags in the place of a tag** leave the rest of a source as it is compiled, but for the
bodies of the sections around them. -/
theorem exists_compileNodes_replaced (h : Node.Stands s head tail front back m)
    (hmid : m.read mid = .ok (m.add n)) (hmid' : m.read mid' = .ok (m.add n'))
    (spot spot' : List Char) (ch : Step.Change)
    (haround : ∀ text, Encloses head spot tail text → ch.around text)
    (hnode : ∀ c,
      Differ (head ++ spot ++ tail) (head ++ spot' ++ tail) strictVariables ch c [n] [n'])
    {k : Nat} {tree : List Node}
    (htree : (Machine.start s).run (front ++ mid ++
      back.map (Token.moved (Text.byteLength (head ++ spot)) k)) = .ok tree)
    {w w' : Walk} {steps : List Step}
    (hsteps : compileNodes (head ++ spot ++ tail) strictVariables tree w = .ok (steps, w'))
    (k' : Nat) : ∃ tree' steps',
      (Machine.start s).run (front ++ mid' ++
        back.map (Token.moved (Text.byteLength (head ++ spot')) k')) = .ok tree' ∧
      compileNodes (head ++ spot' ++ tail) strictVariables tree' w = .ok (steps', w') ∧
      Step.Matches ch steps steps' := by
  have hruns {us : List Token} {a : Node} (hread : m.read us = .ok (m.add a)) (rest : List Token) :
      (Machine.start s).run (front ++ us ++ rest) =
        (m.bare.addAll m.pragmas (m.below ++ [a])).run rest := by
    rw [Machine.run_eq_read, Machine.read_append, Machine.read_append, h.read, Machine.addAll_bare,
      ← Machine.add_eq_addAll, Machine.run_eq_read]
    change ((m.read us).bind _).bind _ = _
    rw [hread]
    rfl
  have hfront : Follows (head ++ spot ++ tail) (head ++ spot' ++ tail) strictVariables m.below
      m.below := by
    intro w r hrun
    rw [List.append_assoc, compileNodes_append_right _ _ _ _ h.stops.below] at hrun
    rwa [List.append_assoc, compileNodes_append_right _ _ _ _ h.stops.below]
  rw [hruns hmid] at htree
  obtain ⟨tree', htree', hdiffer⟩ := exists_run_differ haround h.stops h.opened h.ends htree
    (.behind (c := m.bare.soFar.foldl Node.enables w.pragmas) hfront rfl (hnode _)) k'
  obtain ⟨steps', hsteps', hdiffers⟩ := hdiffer.compiles w steps w' rfl hsteps
  exact ⟨tree', steps', (hruns hmid' _).trans htree', hsteps', hdiffers.imp And.left And.left⟩

end

end Template

end Mustache
