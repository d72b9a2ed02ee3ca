import Mustache.Proofs.Node.Forest
import Mustache.Proofs.Token.Lines

/-!
What the trees of sources look like: a parent holds blocks alone, and every indent is white space.
Main statement: `regular_of_ofTokens`.
-/

namespace Mustache.Node

/-! ### Nodes of a tree -/

/-- The nodes right under a node. -/
def children : Node → List Node
  | sectionNode _ _ children _ _ _ _ => children
  | parent _ _ blocks _ => blocks
  | block _ children _ _ => children
  | _ => []

/-- The node stands somewhere in the trees. -/
inductive In (n : Node) : List Node → Prop
  | here {ns : List Node} (h : n ∈ ns) : In n ns
  | inside {m : Node} {ns : List Node} (hm : m ∈ ns) (h : In n m.children) : In n ns

theorem In.cons_iff {n m : Node} {ns : List Node} :
    n.In (m :: ns) ↔ n = m ∨ n.In m.children ∨ n.In ns := by
  constructor
  · intro h
    cases h with
    | here h =>
      rcases List.mem_cons.mp h with rfl | h
      · exact Or.inl rfl
      · exact Or.inr (Or.inr (.here h))
    | inside hm h =>
      rcases List.mem_cons.mp hm with rfl | hm
      · exact Or.inr (Or.inl h)
      · exact Or.inr (Or.inr (.inside hm h))
  · rintro (rfl | h | h)
    · exact .here List.mem_cons_self
    · exact .inside List.mem_cons_self h
    · cases h with
      | here h => exact .here (List.mem_cons_of_mem m h)
      | inside hm h => exact .inside (List.mem_cons_of_mem m hm) h

theorem not_in_nil {n : Node} : ¬ n.In [] := by
  intro h
  cases h with
  | here h => cases h
  | inside hm _ => cases hm

/-- The indent that a node's tag pulls in. -/
def indent? : Node → Option String
  | partialNode _ _ indent _ => indent
  | parent _ indent _ _ => indent
  | block _ _ indent _ => indent
  | _ => none

def isBlock : Node → Bool
  | block .. => true
  | _ => false

/-- What no node of a source's tree lacks. -/
structure Regular (n : Node) : Prop where
  blank : ∀ own ∈ n.indent?, Text.isBlank own.toList = true
  blocks : ∀ name indent blocks line, n = parent name indent blocks line →
    ∀ b ∈ blocks, b.isBlock = true

/-! ### Readings -/

section

variable {s : PragmaSet} {inParent : Bool} {t : Token}

/-- A leaf stands outside of parents, and has its token's indent if any. -/
theorem Reading.leaf_spec {n : Node} (h : Reading.of s inParent t = .leaf n) :
    inParent = false ∧ n.children = [] ∧ (n.indent? = none ∨ n.indent? = t.indent) ∧
      ∀ name indent blocks line, n ≠ parent name indent blocks line := by
  unfold Reading.of at h
  cases inParent <;> split at h <;> (repeat' split at h) <;> simp_all <;> subst h <;>
    simp [children, indent?]

/-- An opened node has the children it is given, and its token's indent if any; in a parent it is
a block, and it is a parent only if its token is. -/
theorem Reading.opens_spec {node : String → List Node → Nat → Node}
    (h : Reading.of s inParent t = .opens node) (name : String) (ns : List Node) (stop : Nat) :
    (node name ns stop).children = ns ∧
      ((node name ns stop).indent? = none ∨ (node name ns stop).indent? = t.indent) ∧
      (inParent = true → (node name ns stop).isBlock = true) ∧
      ∀ name' indent blocks line, node name ns stop = parent name' indent blocks line →
        t.kind = .parent := by
  unfold Reading.of at h
  cases inParent <;> split at h <;> (repeat' split at h) <;> simp_all <;> subst h <;>
    simp [children, indent?, isBlock]

end

/-! ### Forests -/

/-- What holds of the nodes between a tag and what closes it. -/
structure Orderly (opened : Option Token) (ts : List Token) (f : Forest ts) : Prop where
  rest : f.rest ⊆ ts
  blocks : underParent opened = true → ∀ n ∈ f.nodes, n.isBlock = true
  regular : ∀ n : Node, n.In f.nodes → n.Regular

variable {opened : Option Token} {t : Token} {ts : List Token}

theorem Orderly.skip {f : Forest ts} (h : Orderly opened ts f) :
    Orderly opened (t :: ts) f.skip where
  rest := fun _ hu => List.mem_cons_of_mem t (h.rest hu)
  blocks := h.blocks
  regular := h.regular

theorem Orderly.cons {f : Forest ts} {n : Node} (h : Orderly opened ts f)
    (hblock : underParent opened = true → n.isBlock = true) (hn : n.Regular)
    (hchildren : ∀ m : Node, m.In n.children → m.Regular) :
    Orderly opened (t :: ts) (f.cons n) where
  rest := fun _ hu => List.mem_cons_of_mem t (h.rest hu)
  blocks hparent := List.forall_mem_cons.mpr ⟨hblock hparent, h.blocks hparent⟩
  regular m hm := by
    rcases In.cons_iff.mp hm with rfl | hm | hm
    · exact hn
    · exact hchildren m hm
    · exact h.regular m hm

theorem regular_of_leaf {s : PragmaSet} {inParent : Bool} {n : Node}
    (ht : ∀ own ∈ t.indent, Text.isBlank own.toList = true)
    (h : Reading.of s inParent t = .leaf n) : n.Regular := by
  obtain ⟨-, -, hindent, hnot⟩ := Reading.leaf_spec h
  refine ⟨fun own hown => ?_, fun name indent blocks line hn => absurd hn (hnot _ _ _ _)⟩
  rcases hindent with hnone | hsame
  · rw [hnone] at hown
    cases hown
  · rw [hsame] at hown
    exact ht own hown

theorem regular_of_opens {s : PragmaSet} {inParent : Bool} {node : String → List Node → Nat → Node}
    {name : String} {ns : List Node} {stop : Nat}
    (ht : ∀ own ∈ t.indent, Text.isBlank own.toList = true)
    (h : Reading.of s inParent t = .opens node)
    (hblocks : t.kind = .parent → ∀ n ∈ ns, n.isBlock = true) : (node name ns stop).Regular := by
  obtain ⟨hchildren, hindent, -, hparent⟩ := Reading.opens_spec h name ns stop
  refine ⟨fun own hown => ?_, fun name' indent blocks line hn => ?_⟩
  · rcases hindent with hnone | hsame
    · rw [hnone] at hown
      cases hown
    · rw [hsame] at hown
      exact ht own hown
  · have hkind := hparent name' indent blocks line hn
    rw [hn] at hchildren
    change blocks = ns at hchildren
    rw [hchildren]
    exact hblocks hkind

theorem orderly_of_forest {s : PragmaSet} {f : Forest ts}
    (hts : ∀ t ∈ ts, ∀ own ∈ t.indent, Text.isBlank own.toList = true)
    (h : forest opened s ts = .ok f) : Orderly opened ts f := by
  induction opened, s, ts using forest_induction with
  | nil opened s =>
    cases opened with
    | none =>
      rw [forest_nil_none, Except.ok.injEq] at h
      subst h
      exact ⟨List.Subset.refl _, fun _ _ hn => (nomatch hn), fun _ hn => absurd hn not_in_nil⟩
    | some o => simp [forest_nil_some] at h
  | nothing opened s t ts hread ih =>
    rw [forest_nothing hread] at h
    obtain ⟨g, hg, rfl⟩ := map_eq_ok_iff.mp h
    exact (ih (List.forall_mem_cons.mp hts).2 hg).skip
  | leaf opened s t ts n hread ih =>
    rw [forest_leaf hread] at h
    obtain ⟨g, hg, rfl⟩ := map_eq_ok_iff.mp h
    obtain ⟨ht, hts⟩ := List.forall_mem_cons.mp hts
    obtain ⟨houtside, hchildren, -, -⟩ := Reading.leaf_spec hread
    refine (ih hts hg).cons (fun hparent => ?_) (regular_of_leaf ht hread) fun m hm => ?_
    · rw [houtside] at hparent
      cases hparent
    · rw [hchildren] at hm
      exact absurd hm not_in_nil
  | enables opened s t ts hread ih =>
    rw [forest_enables hread] at h
    obtain ⟨g, hg, rfl⟩ := map_eq_ok_iff.mp h
    have hg := ih (List.forall_mem_cons.mp hts).2 hg
    split
    · exact hg.skip
    · rename_i houtside
      refine hg.cons (fun hparent => absurd hparent houtside) ⟨?_, ?_⟩ fun m hm => ?_
      · exact fun _ hown => nomatch hown
      · exact fun _ _ _ _ hn => nomatch hn
      · exact absurd hm not_in_nil
  | closes opened s t ts hread =>
    cases opened with
    | none => simp [forest_closes_none hread] at h
    | some o =>
      rw [forest_closes_some hread] at h
      split at h
      · obtain rfl := Except.ok.inj h
        exact ⟨List.subset_cons_self t ts, fun _ _ hn => (nomatch hn),
          fun _ hn => absurd hn not_in_nil⟩
      · simp at h
  | stray opened s t ts hread => simp [forest_stray hread] at h
  | opensClosed opened s t ts node name hread hself ih =>
    rw [forest_opens_closed hread hself] at h
    obtain ⟨g, hg, rfl⟩ := map_eq_ok_iff.mp h
    obtain ⟨ht, hts⟩ := List.forall_mem_cons.mp hts
    obtain ⟨hchildren, -, hblock, -⟩ := Reading.opens_spec hread name [] t.stop
    have hnode : (node name [] t.stop).Regular :=
      regular_of_opens ht hread fun _ _ hn => nomatch hn
    refine (ih hts hg).cons hblock hnode fun m hm => ?_
    rw [hchildren] at hm
    exact absurd hm not_in_nil
  | opens opened s t ts node hread hself ihbody ihrest =>
    rw [forest_opens hread hself] at h
    obtain ⟨ht, hts⟩ := List.forall_mem_cons.mp hts
    split at h
    · simp at h
    · rename_i body hbody
      obtain ⟨g, hg, rfl⟩ := map_eq_ok_iff.mp h
      have hbody := ihbody hts hbody
      have hg := ihrest body (fun u hu => hts u (hbody.rest hu)) hg
      have hspec := Reading.opens_spec hread t.value body.nodes
        ((body.close.map Token.start).getD t.stop)
      have hnode : (node t.value body.nodes ((body.close.map Token.start).getD t.stop)).Regular :=
        regular_of_opens ht hread fun hkind => hbody.blocks (by simp [underParent, hkind])
      refine ⟨fun u hu => ?_, fun hparent => ?_, fun m hm => ?_⟩
      · exact List.mem_cons_of_mem t (hbody.rest (hg.rest hu))
      · exact List.forall_mem_cons.mpr ⟨hspec.2.2.1 hparent, hg.blocks hparent⟩
      · rcases In.cons_iff.mp hm with rfl | hm | hm
        · exact hnode
        · rw [hspec.1] at hm
          exact hbody.regular m hm
        · exact hg.regular m hm

end Mustache.Node

/-! ### Scanned tokens -/

namespace Mustache.Token

theorem isBlank_trailing {indent : String} {ts : List Token}
    (hindent : Text.isBlank indent.toList = true)
    (hts : ∀ t ∈ ts, t.isText = true → Text.isBlank t.value.toList = true) :
    Text.isBlank (trailing indent ts).toList = true := by
  induction ts generalizing indent with
  | nil => exact hindent
  | cons t ts ih =>
    obtain ⟨ht, hts⟩ := List.forall_mem_cons.mp hts
    refine ih ?_ hts
    split
    · rename_i htext
      rw [String.toList_append]
      unfold Text.isBlank at hindent ht ⊢
      rw [List.all_append, hindent, ht htext]
      rfl
    · rfl

/-- Indents are white space. -/
theorem isBlank_indent_of_scan {d : Delimiters} {source : String} {ts : List Token}
    (h : scan d source = .ok ts) {t : Token} (ht : t ∈ ts) {own : String} (hown : own ∈ t.indent) :
    Text.isBlank own.toList = true := by
  unfold scan at h
  split at h
  · rename_i raw hraw
    obtain rfl := Except.ok.inj h
    obtain ⟨before, line, after, -, hmem, hcase⟩ :=
      exists_line_of_mem_settle (tiling_of_pieces hraw) ht
    rcases hcase with ⟨-, hnone⟩ | ⟨halone, -, front, back, rfl, hindent⟩
    · rw [hnone] at hown
      cases hown
    · rw [hindent] at hown
      split at hown
      · rw [← Option.some.inj hown]
        refine isBlank_trailing rfl fun u hu htext => ?_
        unfold standsAlone at halone
        have hall := (Bool.and_eq_true_iff.mp halone).2
        have hu := List.all_eq_true.mp hall u (List.mem_append_left _ hu)
        rw [if_pos htext] at hu
        exact (Bool.and_eq_true_iff.mp hu).2
      · cases hown
  · cases h

end Mustache.Token

namespace Mustache.Node

/-- **In the tree of a source a parent holds blocks alone, and indents are white space.** -/
theorem regular_of_ofTokens {d : Delimiters} {source : String} {s : PragmaSet} {ts : List Token}
    {tree : List Node} (hscan : Token.scan d source = .ok ts) (h : ofTokens s ts = .ok tree)
    {n : Node} (hn : n.In tree) : n.Regular := by
  unfold ofTokens at h
  split at h
  · rename_i f hforest
    obtain rfl := Except.ok.inj h
    have hblank : ∀ t ∈ ts, ∀ own ∈ t.indent, Text.isBlank own.toList = true :=
      fun t ht own hown => Token.isBlank_indent_of_scan hscan ht hown
    exact (orderly_of_forest hblank hforest).regular n hn
  · cases h

end Mustache.Node
