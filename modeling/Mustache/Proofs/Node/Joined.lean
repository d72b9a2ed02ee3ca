import Mustache.Proofs.Node.Parsed
import Mustache.Proofs.Node.Visits
import Mustache.Proofs.Token.Joined

/-!
Trees of tokens put together. Tokens that make a tree of their own make the same nodes wherever they
stand, as long as that is not directly in a parent tag: the machine that reads them goes on over what
it holds already. Main statements: `Machine.read_atop` and `ofTokens_append`.
-/

namespace Mustache.Node

theorem In.append_iff {n : Node} {ns ms : List Node} :
    n.In (ns ++ ms) ↔ n.In ns ∨ n.In ms := by
  induction ns with
  | nil => exact ⟨Or.inr, fun h => h.resolve_left not_in_nil⟩
  | cons m ns ih => rw [List.cons_append, In.cons_iff, In.cons_iff, ih, or_assoc, or_assoc]

theorem In.singleton_iff {n m : Node} : n.In [m] ↔ n = m ∨ n.In m.children := by
  rw [In.cons_iff]
  exact or_congr_right (or_iff_left not_in_nil)

namespace Machine

/-! ### Reading without an end -/

/-- Reads all tokens, up to the first error, and leaves open what they leave open. -/
def read (m : Machine) : List Token → Except Fault Machine
  | [] => .ok m
  | t :: ts => (m.step t).bind fun m => m.read ts

theorem read_cons_ok {m m' : Machine} {t : Token} (h : m.step t = .ok m') (ts : List Token) :
    m.read (t :: ts) = m'.read ts := by
  rw [read, h]
  rfl

theorem run_eq_read (m : Machine) (ts : List Token) : m.run ts = (m.read ts).bind finish := by
  induction ts generalizing m with
  | nil => rfl
  | cons t ts ih =>
    rw [run, read]
    cases m.step t with
    | error f => rfl
    | ok m' => exact ih m'

theorem read_append (m : Machine) (ts us : List Token) :
    m.read (ts ++ us) = (m.read ts).bind fun m => m.read us := by
  induction ts generalizing m with
  | nil => rfl
  | cons t ts ih =>
    rw [List.cons_append, read, read]
    cases m.step t with
    | error f => rfl
    | ok m' => exact ih m'

theorem pragmas_read {m m' : Machine} {ts : List Token} (h : m.read ts = .ok m') :
    m'.pragmas = m.pragmas.through ts := by
  induction ts generalizing m with
  | nil =>
    obtain rfl := Except.ok.inj h
    rfl
  | cons t ts ih =>
    rw [read] at h
    cases hstep : m.step t with
    | error f =>
      rw [hstep] at h
      cases h
    | ok mid =>
      rw [hstep] at h
      rw [ih h, PragmaSet.through_cons, pragmas_step hstep]

/-- A tree is read with nothing left open. -/
theorem read_of_run {s : PragmaSet} {ts : List Token} {nodes : List Node}
    (h : (start s).run ts = .ok nodes) : (start s).read ts = .ok ⟨s.through ts, [], nodes⟩ := by
  rw [run_eq_read] at h
  cases hread : (start s).read ts with
  | error f =>
    rw [hread] at h
    cases h
  | ok m =>
    rw [hread] at h
    have hpragmas := pragmas_read hread
    obtain ⟨s', stack, ns⟩ := m
    cases stack with
    | nil =>
      obtain rfl := Except.ok.inj h
      obtain rfl : s' = s.through ts := hpragmas
      rfl
    | cons f fs => cases h

/-! ### Reading over what is there -/

/-- The machine `m` on top of another one, under whose innermost open tag it hangs its nodes. -/
def atop (m base : Machine) : Machine :=
  { pragmas := m.pragmas
    stack := m.stack ++ (base.addAll m.pragmas m.nodes).stack
    nodes := (base.addAll m.pragmas m.nodes).nodes }

theorem atop_start (base : Machine) : (start base.pragmas).atop base = base := by
  obtain ⟨s, stack, nodes⟩ := base
  cases stack <;> simp [atop, start, addAll]

variable {m m' base : Machine} {t : Token}

theorem inParent_atop (hbase : base.inParent = false) : (m.atop base).inParent = m.inParent := by
  obtain ⟨s, stack, nodes⟩ := m
  obtain ⟨s', stack', nodes'⟩ := base
  cases stack with
  | nil => cases stack' <;> exact hbase
  | cons f fs => rfl

theorem add_atop (n : Node) : (m.add n).atop base = (m.atop base).add n := by
  obtain ⟨s, stack, nodes⟩ := m
  obtain ⟨s', stack', nodes'⟩ := base
  cases stack <;> cases stack' <;> simp [atop, add, addAll]

theorem enable_atop (name : String) : (m.enable name).atop base = (m.atop base).enable name := by
  obtain ⟨s', stack', nodes'⟩ := base
  cases stack' <;> rfl

theorem place_atop (hbase : base.inParent = false) (t : Token) :
    (m.place t).atop base = (m.atop base).place t := by
  have hopen : (m.atop base).canOpen t = m.canOpen t := by
    unfold canOpen
    rw [inParent_atop hbase]
    rfl
  have hself : (m.atop base).closesItself? t = m.closesItself? t := rfl
  unfold place
  rw [hopen, hself]
  split
  · split
    · exact add_atop _
    · rfl
  · exact add_atop _

theorem step_atop (hbase : base.inParent = false) (h : m.step t = .ok m') :
    (m.atop base).step t = .ok (m'.atop base) := by
  unfold step at h ⊢
  rw [inParent_atop hbase]
  cases hkind : t.kind <;> simp only [hkind] at h ⊢
  case comment | delimiters =>
    obtain rfl := Except.ok.inj h
    rfl
  case text =>
    obtain rfl := Except.ok.inj h
    split
    · rfl
    · rw [add_atop]
  case pragma =>
    obtain rfl := Except.ok.inj h
    split
    · rw [enable_atop]
    · rw [add_atop, enable_atop]
  case close =>
    obtain ⟨s, stack, nodes⟩ := m
    cases stack with
    | nil => cases h
    | cons f fs =>
      change (if f.tag.value = t.value then _ else _) = _ at h
      change (if f.tag.value = t.value then _ else _) = _
      split
      · rename_i hvalue
        rw [if_pos hvalue] at h
        obtain rfl := Except.ok.inj h
        rw [add_atop]
        rfl
      · rename_i hvalue
        rw [if_neg hvalue] at h
        cases h
  all_goals
    split at h
    · cases h
    · rename_i hstray
      obtain rfl := Except.ok.inj h
      rw [if_neg hstray, place_atop hbase]

/-- **Tokens are read in the same way over what is there**, if that is not directly in a parent. -/
theorem read_atop (hbase : base.inParent = false) {ts : List Token} (h : m.read ts = .ok m') :
    (m.atop base).read ts = .ok (m'.atop base) := by
  induction ts generalizing m with
  | nil =>
    obtain rfl := Except.ok.inj h
    rfl
  | cons t ts ih =>
    rw [read] at h
    cases hstep : m.step t with
    | error f =>
      rw [hstep] at h
      cases h
    | ok mid =>
      rw [hstep] at h
      rw [read_cons_ok (step_atop hbase hstep)]
      exact ih h

/-- The tokens of a tree hang their nodes up where they are read. -/
theorem read_of_tree {ts : List Token} {nodes : List Node} (hbase : base.inParent = false)
    (h : ofTokens base.pragmas ts = .ok nodes) :
    base.read ts = .ok (base.addAll (base.pragmas.through ts) nodes) := by
  have hread := read_atop hbase (read_of_run (run_of_ofTokens h))
  rw [atop_start] at hread
  rw [hread]
  obtain ⟨s, stack, nodes'⟩ := base
  cases stack <;> rfl

theorem closesItself?_eq_none {m : Machine} {tag : Token}
    (h : m.pragmas.contains .selfClosing = true → tag.value.toList.getLast? ≠ some '/') :
    m.closesItself? tag = none := by
  unfold closesItself? unslashed?
  split
  · rename_i hself
    rw [if_neg (h hself)]
  · rfl

/-- A block is read up to its closing tag. -/
theorem read_block {m : Machine} {tag close : Token} {ts : List Token} {nodes : List Node}
    (hkind : tag.kind = .block) (hopen : m.canOpen tag = true) (hself : m.closesItself? tag = none)
    (htree : ofTokens m.pragmas ts = .ok nodes) (hclose : close.kind = .close)
    (hvalue : close.value = tag.value) :
    m.read (tag :: (ts ++ [close])) = .ok ({ m with pragmas := m.pragmas.through ts }.add
      (.block tag.value nodes tag.indent tag.line)) := by
  have hopened : m.step tag = .ok (m.push tag) := by
    simp [step, hkind, place, hopen, hself]
  have hinside : (m.push tag).inParent = false := by
    simp [inParent, top?, push, hkind]
  have hread := read_of_tree hinside htree
  have hclosed : step ⟨m.pragmas.through ts, ⟨tag, nodes⟩ :: m.stack, m.nodes⟩ close =
      .ok ({ m with pragmas := m.pragmas.through ts }.add
        (.block tag.value nodes tag.indent tag.line)) := by
    simp only [step, hclose, hvalue, if_true, ofTag, hkind]
  rw [read_cons_ok hopened, read_append, hread]
  show read ⟨m.pragmas.through ts, ⟨tag, [] ++ nodes⟩ :: m.stack, m.nodes⟩ [close] = _
  rw [List.nil_append, read_cons_ok hclosed]
  rfl

end Machine

/-- A parent tag and its closing tag make one node of what is read between them. -/
theorem ofTokens_parent {s s' : PragmaSet} {opening closing : Token} {ts : List Token}
    {blocks : List Node} (hblocks : s.contains .blocks = true) (hkind : opening.kind = .parent)
    (hself : (Machine.start s).closesItself? opening = none)
    (hread : Machine.read ⟨s, [⟨opening, []⟩], []⟩ ts = .ok ⟨s', [⟨opening, blocks⟩], []⟩)
    (hclose : closing.kind = .close) (hvalue : closing.value = opening.value) :
    ofTokens s (opening :: (ts ++ [closing])) =
      .ok [.parent opening.value opening.indent blocks opening.line] := by
  have hopened : (Machine.start s).step opening = .ok ⟨s, [⟨opening, []⟩], []⟩ := by
    have houtside : (Machine.start s).inParent = false := rfl
    simp only [Machine.step, hkind, houtside, Machine.place, Machine.canOpen, hself]
    rw [show (Machine.start s).pragmas.contains .blocks = true from hblocks]
    rfl
  have hclosed : Machine.step ⟨s', [⟨opening, blocks⟩], []⟩ closing =
      .ok ⟨s', [], [.parent opening.value opening.indent blocks opening.line]⟩ := by
    simp only [Machine.step, hclose, hvalue, if_true, ofTag, hkind]
    rfl
  rw [ofTokens_run, Machine.run_eq_read, Machine.read_cons_ok hopened, Machine.read_append, hread]
  show Except.mapError _ (Except.bind (Machine.read _ [closing]) Machine.finish) = _
  rw [Machine.read_cons_ok hclosed]
  rfl

/-! ### One tree behind the other -/

theorem through_of_plain {s : PragmaSet} {ts : List Token} (h : ∀ t ∈ ts, t.kind ≠ .pragma) :
    s.through ts = s := by
  induction ts with
  | nil => rfl
  | cons t ts ih =>
    obtain ⟨ht, hts⟩ := List.forall_mem_cons.mp h
    rw [PragmaSet.through_cons, if_neg ht, ih hts]

/-- **The tree of tokens behind those of another tree** follows its nodes, if these hold no pragma
tag. -/
theorem ofTokens_append {s : PragmaSet} {ts us : List Token} {nodes more : List Node}
    (h : ofTokens s ts = .ok nodes) (hplain : ∀ t ∈ ts, t.kind ≠ .pragma)
    (hmore : ofTokens s us = .ok more) : ofTokens s (ts ++ us) = .ok (nodes ++ more) := by
  have hfirst := Machine.read_of_run (run_of_ofTokens h)
  rw [through_of_plain hplain] at hfirst
  have hsecond := Machine.read_of_tree (show Machine.inParent ⟨s, [], nodes⟩ = false from rfl) hmore
  rw [ofTokens_run, Machine.run_eq_read, Machine.read_append, hfirst]
  change (((Machine.read _ us).bind Machine.finish).mapError _) = _
  rw [hsecond]
  rfl

/-! ### Where bodies end -/

/-- If the node is a section, its body does not reach beyond this byte. -/
def StopsBy (limit : Nat) (n : Node) : Prop :=
  ∀ name inverted children start stop delimiters line,
    n = sectionNode name inverted children start stop delimiters line → stop ≤ limit

theorem stopsBy_ofTag {limit stop : Nat} (h : stop ≤ limit) (t : Token) (name : String)
    (children : List Node) : (ofTag t name children stop).StopsBy limit := by
  intro name' inverted children' start stop' delimiters line heq
  cases hkind : t.kind <;> simp only [ofTag, hkind] at heq <;> cases heq <;> exact h

theorem stopsBy_ofLeaf (limit : Nat) (s : PragmaSet) (t : Token) :
    (ofLeaf s t).StopsBy limit ∧ (ofLeaf s t).children = [] := by
  unfold ofLeaf
  refine ⟨fun name inverted children start stop delimiters line heq => ?_, ?_⟩
  · split at heq <;> (try split at heq) <;> cases heq
  · split <;> (try split) <;> rfl

theorem children_ofTag (t : Token) (name : String) (children : List Node) (stop : Nat) :
    (ofTag t name children stop).children = children := by
  cases hkind : t.kind <;> simp [ofTag, hkind, Node.children]

namespace Machine

/-- No section that the machine holds has a body that reaches beyond this byte. -/
structure StopsBy (limit : Nat) (m : Machine) : Prop where
  nodes : ∀ n : Node, n.In m.nodes → n.StopsBy limit
  within : ∀ f ∈ m.stack, ∀ n : Node, n.In f.nodes → n.StopsBy limit

variable {limit : Nat} {m m' : Machine} {t : Token}

theorem StopsBy.add (h : m.StopsBy limit) {n : Node} (hn : n.StopsBy limit)
    (hchildren : ∀ k : Node, k.In n.children → k.StopsBy limit) : (m.add n).StopsBy limit := by
  have hadded : ∀ ns : List Node, (∀ k : Node, k.In ns → k.StopsBy limit) →
      ∀ k : Node, k.In (ns ++ [n]) → k.StopsBy limit := by
    intro ns hns k hk
    rcases In.append_iff.mp hk with hk | hk
    · exact hns k hk
    · rcases In.singleton_iff.mp hk with rfl | hk
      · exact hn
      · exact hchildren k hk
  obtain ⟨s, stack, nodes⟩ := m
  cases stack with
  | nil => exact ⟨hadded nodes h.nodes, h.within⟩
  | cons f fs =>
    obtain ⟨hf, hfs⟩ := List.forall_mem_cons.mp h.within
    exact ⟨h.nodes, List.forall_mem_cons.mpr ⟨hadded f.nodes hf, hfs⟩⟩

theorem StopsBy.place (h : m.StopsBy limit) (hstop : t.stop ≤ limit) :
    (m.place t).StopsBy limit := by
  unfold Machine.place
  split
  · split
    · refine h.add (stopsBy_ofTag hstop t _ []) fun k hk => ?_
      rw [children_ofTag] at hk
      exact absurd hk not_in_nil
    · exact ⟨h.nodes, List.forall_mem_cons.mpr ⟨fun _ hk => absurd hk not_in_nil, h.within⟩⟩
  · obtain ⟨hleaf, hchildren⟩ := stopsBy_ofLeaf limit m.pragmas t
    refine h.add hleaf fun k hk => ?_
    rw [hchildren] at hk
    exact absurd hk not_in_nil

theorem StopsBy.step (h : m.StopsBy limit) (hstart : t.start ≤ limit) (hstop : t.stop ≤ limit)
    (hstep : m.step t = .ok m') : m'.StopsBy limit := by
  have hleaf : ∀ n : Node, n.StopsBy limit → n.children = [] → (m.add n).StopsBy limit := by
    intro n hn hchildren
    refine h.add hn fun k hk => ?_
    rw [hchildren] at hk
    exact absurd hk not_in_nil
  unfold Machine.step at hstep
  cases hkind : t.kind <;> simp only [hkind] at hstep
  case comment | delimiters =>
    obtain rfl := Except.ok.inj hstep
    exact h
  case text =>
    obtain rfl := Except.ok.inj hstep
    split
    · exact h
    · exact hleaf _ (fun _ _ _ _ _ _ _ heq => nomatch heq) rfl
  case pragma =>
    obtain rfl := Except.ok.inj hstep
    split
    · exact ⟨h.nodes, h.within⟩
    · have hadded := hleaf (.pragma t.value t.line) (fun _ _ _ _ _ _ _ heq => nomatch heq) rfl
      rw [enable, add_pragmas]
      exact ⟨hadded.nodes, hadded.within⟩
  case close =>
    obtain ⟨s, stack, nodes⟩ := m
    cases stack with
    | nil => cases hstep
    | cons f fs =>
      change (if f.tag.value = t.value then _ else _) = _ at hstep
      split at hstep
      · obtain rfl := Except.ok.inj hstep
        obtain ⟨hf, hfs⟩ := List.forall_mem_cons.mp h.within
        have hrest : StopsBy limit ⟨s, fs, nodes⟩ := ⟨h.nodes, hfs⟩
        refine hrest.add (stopsBy_ofTag hstart _ _ _) fun k hk => ?_
        rw [children_ofTag] at hk
        exact hf k hk
      · cases hstep
  all_goals
    split at hstep
    · cases hstep
    · obtain rfl := Except.ok.inj hstep
      exact h.place hstop

theorem StopsBy.run (h : m.StopsBy limit) {ts : List Token} {nodes : List Node}
    (hts : ∀ t ∈ ts, t.start ≤ limit ∧ t.stop ≤ limit) (hrun : m.run ts = .ok nodes) :
    ∀ n : Node, n.In nodes → n.StopsBy limit := by
  induction ts generalizing m with
  | nil =>
    obtain ⟨s, stack, ns⟩ := m
    cases stack with
    | nil =>
      obtain rfl := Except.ok.inj hrun
      exact h.nodes
    | cons f fs => cases hrun
  | cons t ts ih =>
    obtain ⟨⟨hstart, hstop⟩, hts⟩ := List.forall_mem_cons.mp hts
    rw [Machine.run] at hrun
    cases hstep : m.step t with
    | error f =>
      rw [hstep] at hrun
      cases hrun
    | ok mid =>
      rw [hstep] at hrun
      exact ih (h.step hstart hstop hstep) hts hrun

end Machine

theorem stopsBy_of_within {limit : Nat} {s : PragmaSet} {ts : List Token} {tree : List Node}
    (hts : ∀ t ∈ ts, t.start ≤ limit ∧ t.stop ≤ limit) (h : ofTokens s ts = .ok tree) {n : Node}
    (hn : n.In tree) : n.StopsBy limit := by
  have hstart : (Machine.start s).StopsBy limit :=
    ⟨fun _ hk => absurd hk not_in_nil, fun _ hf => nomatch hf⟩
  exact hstart.run hts (run_of_ofTokens h) n hn

/-- The bodies of sections lie within the source. -/
theorem stopsBy_of_ofTokens {d : Delimiters} {source : String} {s : PragmaSet} {ts : List Token}
    {tree : List Node} (hscan : Token.scan d source = .ok ts) (h : ofTokens s ts = .ok tree)
    {n : Node} (hn : n.In tree) : n.StopsBy (Text.byteLength source.toList) :=
  stopsBy_of_within (fun _ ht => Token.bounds_of_scan hscan ht) h hn

end Mustache.Node
