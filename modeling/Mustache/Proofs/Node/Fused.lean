import Mustache.Proofs.Node.Joined
import Mustache.Proofs.Node.Moved
import Mustache.Proofs.Node.Spans
import Mustache.Proofs.Token.Unwrapped

/-!
Trees of tokens of which texts have run on. The machine that reads them comes to the same nodes,
but for texts that have run on as well, and behind that it goes on as it did. Main statements:
`Machine.read_join_tree` and `Machine.run_join` about texts that run on, `Machine.run_below` about
what is read up to the tag that closes the innermost open one.
-/

namespace Mustache.Node

/-! ### Nodes put together -/

/-- The third list is the second one behind the first. A text at the end of the first that does not
end its line may have run on into a text that the second begins with. -/
inductive Joins : List Node → List Node → List Node → Prop
  | apart (ns ms : List Node) : Joins ns ms (ns ++ ms)
  | fused (front back : List Node) {text more : String} (h : text.toList.getLast? ≠ some '\n') :
    Joins (front ++ [.text text]) (.text more :: back) (front ++ .text (text ++ more) :: back)

theorem Joins.append {ns ms ks : List Node} (h : Joins ns ms ks) (more : List Node) :
    Joins ns (ms ++ more) (ks ++ more) := by
  cases h with
  | apart =>
    rw [List.append_assoc]
    exact .apart ns (ms ++ more)
  | fused front back h =>
    rw [List.append_assoc, List.cons_append, List.cons_append]
    exact .fused front (back ++ more) h

theorem Joins.ne_nil {ns ms ks : List Node} (h : Joins ns ms ks) (hne : ns ≠ [] ∨ ms ≠ []) :
    ks ≠ [] := by
  cases h with
  | apart => exact fun hnil => by simp_all
  | fused front back h => simp

/-- What the nodes begin with is what the first list does, or that is one text, which has run on. -/
theorem Joins.head? {ns ms ks : List Node} (h : Joins ns ms ks) (hns : ns ≠ []) :
    ks.head? = ns.head? ∨ ∃ text more back, ns = [.text text] ∧ ms = .text more :: back ∧
      ks.head? = some (.text (text ++ more)) := by
  cases h with
  | apart =>
    obtain ⟨n, ns, rfl⟩ := List.exists_cons_of_ne_nil hns
    exact .inl rfl
  | @fused front back text more h =>
    cases front with
    | nil => exact .inr ⟨text, more, back, rfl, rfl, rfl⟩
    | cons n front => exact .inl rfl

theorem Joins.head?_of_joins {ns ms ks more ls : List Node} (h : Joins ns ms ks)
    (h' : Joins ks more ls) (hns : ns ≠ []) (hms : ms ≠ []) :
    ls.head? = ns.head? ∨ ∃ text inner behind back, ns = [.text text] ∧ ms = .text inner :: back ∧
      ls.head? = some (.text (text ++ (inner ++ behind))) := by
  cases h with
  | apart =>
    obtain ⟨n, ns, rfl⟩ := List.exists_cons_of_ne_nil hns
    rcases h'.head? (List.cons_ne_nil _ _) with hhead | ⟨text, behind, back, hks, -, -⟩
    · exact .inl hhead
    · obtain ⟨-, hnil⟩ := List.cons.inj hks
      exact absurd (List.append_eq_nil_iff.mp hnil).2 hms
  | @fused front back text inner h =>
    cases front with
    | nil =>
      refine .inr ?_
      rcases h'.head? (List.cons_ne_nil _ _) with hhead | ⟨text', behind, back', hks, -, hhead⟩
      · exact ⟨text, inner, "", back, rfl, rfl, by rw [hhead, String.append_empty]; rfl⟩
      · obtain ⟨rfl, rfl⟩ : text' = text ++ inner ∧ back = [] := by simpa [eq_comm] using hks
        exact ⟨text, inner, behind, [], rfl, rfl, by rw [hhead, String.append_assoc]⟩
    | cons n front =>
      rcases h'.head? (List.cons_ne_nil _ _) with hhead | ⟨text', behind, back', hks, -, -⟩
      · exact .inl hhead
      · simp at hks

/-- A text at the beginning is the first node. -/
theorem ofTokens_text_cons (s : PragmaSet) {u : Token} (hu : u.isText = true) (us : List Token) :
    ofTokens s (u :: us) = (ofTokens s us).map (.text u.value :: ·) := by
  have hread : Reading.of s (underParent none) u = .leaf (.text u.value) := by
    have hkind : u.kind = .text := by simpa [Token.isText] using hu
    simp [Reading.of, hkind, underParent]
  rw [ofTokens, forest_leaf hread, ofTokens]
  cases forest none s us <;> rfl

/-! ### Forests of moved tokens -/

section

variable (n m : Nat)

/-- What a moved token means. -/
def Reading.moved (t : Token) : Reading → Reading
  | .leaf node => .leaf (node.moved n m)
  | .opens _ => .opens (ofTag (t.moved n m))
  | r => r

theorem reading_moved (s : PragmaSet) (inParent : Bool) (t : Token) :
    Reading.of s inParent (t.moved n m) = (Reading.of s inParent t).moved n m t := by
  unfold Reading.of
  rw [Token.kind_moved]
  cases hkind : t.kind <;> cases inParent <;> cases s.blocks <;> cases s.dynamicNames <;>
    simp [Reading.moved, Node.moved, ofTag, hkind, Token.moved]

theorem Reading.eq_ofTag {s : PragmaSet} {inParent : Bool} {t : Token}
    {node : String → List Node → Nat → Node} (h : Reading.of s inParent t = .opens node) :
    node = ofTag t := by
  unfold Reading.of at h
  unfold ofTag
  cases hkind : t.kind <;> rw [hkind] at h <;> simp only at h <;> (repeat' split at h) <;> simp_all

variable {n m}

/-- The second outcome is the forest of the first, moved, or neither is a forest. -/
def Forest.MovesTo (n m : Nat) {ts us : List Token} :
    Except Fault (Forest ts) → Except Fault (Forest us) → Prop
  | .ok f, .ok g => g.nodes = movedAll n m f.nodes ∧ g.close = f.close.map (Token.moved n m) ∧
      g.pragmas = f.pragmas ∧ g.rest = f.rest.map (Token.moved n m)
  | .error _, .error _ => True
  | _, _ => False

theorem Forest.MovesTo.map {ts us ts' us' : List Token} {x : Except Fault (Forest ts)}
    {y : Except Fault (Forest us)} (h : MovesTo n m x y) {a : Forest ts → Forest ts'}
    {b : Forest us → Forest us'} (hab : ∀ f g, MovesTo n m (.ok f) (.ok g) →
      MovesTo n m (.ok (a f)) (.ok (b g))) : MovesTo n m (x.map a) (y.map b) := by
  cases x <;> cases y
  · trivial
  · exact h
  · exact h
  · exact hab _ _ h

theorem Forest.MovesTo.exists_of_ok {ts us : List Token} {x : Except Fault (Forest ts)}
    {g : Forest us} (h : MovesTo n m x (.ok g)) : ∃ f, x = .ok f := by
  cases x with
  | error e => exact h.elim
  | ok f => exact ⟨f, rfl⟩

theorem Forest.MovesTo.exists_moved {ts us : List Token} {f : Forest ts}
    {y : Except Fault (Forest us)} (h : MovesTo n m (.ok f) y) :
    ∃ g, y = .ok g ∧ g.nodes = movedAll n m f.nodes ∧ g.close = f.close.map (Token.moved n m) ∧
      g.pragmas = f.pragmas ∧ g.rest = f.rest.map (Token.moved n m) := by
  cases y with
  | error e => exact h.elim
  | ok g => exact ⟨g, rfl, h⟩

/-- Two tags that are closed in the same way, or no tag twice. -/
def ClosedAlike (opened opened' : Option Token) : Prop :=
  opened'.map Token.kind = opened.map Token.kind ∧ opened'.map Token.value = opened.map Token.value

theorem ClosedAlike.underParent {opened opened' : Option Token} (h : ClosedAlike opened opened') :
    underParent opened' = Node.underParent opened := by
  have hkind := h.1
  cases opened <;> cases opened' <;> simp_all [Node.underParent]

/-- **Moved tokens make the same forest, moved**, below a tag that is closed in the same way. -/
theorem forest_moved {opened opened' : Option Token} (hopened : ClosedAlike opened opened')
    (s : PragmaSet) (ts : List Token) :
    Forest.MovesTo n m (forest opened s ts) (forest opened' s (ts.map (Token.moved n m))) := by
  have hmoved {opened opened' : Option Token} {s : PragmaSet} {t : Token} {r : Reading}
      (hopened : ClosedAlike opened opened') (hread : Reading.of s (underParent opened) t = r) :
      Reading.of s (underParent opened') (t.moved n m) = r.moved n m t := by
    rw [hopened.underParent, reading_moved, hread]
  have hskip {t t' : Token} {ts us : List Token} (f : Forest ts) (g : Forest us)
      (h : Forest.MovesTo n m (.ok f) (.ok g)) :
      Forest.MovesTo n m (.ok (f.skip : Forest (t :: ts))) (.ok (g.skip : Forest (t' :: us))) := h
  have hcons {t t' : Token} {ts us : List Token} {node : Node} (f : Forest ts) (g : Forest us)
      (h : Forest.MovesTo n m (.ok f) (.ok g)) :
      Forest.MovesTo n m (.ok (f.cons node : Forest (t :: ts)))
        (.ok (g.cons (node.moved n m) : Forest (t' :: us))) :=
    ⟨congrArg (node.moved n m :: ·) h.1, h.2⟩
  induction opened, s, ts using forest_induction generalizing opened' with
  | nil opened s =>
    cases opened <;> cases opened'
    · rw [forest_nil_none, List.map_nil, forest_nil_none]
      exact ⟨rfl, rfl, rfl, rfl⟩
    · cases hopened.1
    · cases hopened.1
    · rw [forest_nil_some, List.map_nil, forest_nil_some]
      trivial
  | nothing opened s t ts hread ih =>
    rw [forest_nothing hread, List.map_cons, forest_nothing (hmoved hopened hread)]
    exact (ih hopened).map hskip
  | leaf opened s t ts node hread ih =>
    rw [forest_leaf hread, List.map_cons, forest_leaf (hmoved hopened hread)]
    exact (ih hopened).map hcons
  | enables opened s t ts hread ih =>
    rw [forest_enables hread, List.map_cons, forest_enables (hmoved hopened hread),
      hopened.underParent]
    cases underParent opened with
    | true => exact (ih hopened).map hskip
    | false => exact (ih hopened).map hcons
  | closes opened s t ts hread =>
    cases opened <;> cases opened'
    · rw [forest_closes_none hread, List.map_cons, forest_closes_none (hmoved hopened hread)]
      trivial
    · cases hopened.1
    · cases hopened.1
    · rename_i o o'
      have hvalue : o'.value = o.value := Option.some.inj hopened.2
      rw [forest_closes_some hread, List.map_cons, forest_closes_some (hmoved hopened hread),
        hvalue, Token.value_moved]
      split
      · exact ⟨rfl, rfl, rfl, rfl⟩
      · trivial
  | stray opened s t ts hread =>
    rw [forest_stray hread, List.map_cons, forest_stray (hmoved hopened hread)]
    trivial
  | opensClosed opened s t ts node name hread hself ih =>
    rw [forest_opens_closed hread hself, List.map_cons,
      forest_opens_closed (hmoved hopened hread) hself]
    obtain rfl := Reading.eq_ofTag hread
    have hnode := moved_ofTag n m t name [] t.stop
    exact (ih hopened).map (hnode ▸ hcons)
  | opens opened s t ts node hread hself ihbody ihrest =>
    obtain rfl := Reading.eq_ofTag hread
    rw [forest_opens hread hself, List.map_cons, forest_opens (hmoved hopened hread) hself]
    have hbody := @ihbody (some (t.moved n m)) ⟨rfl, rfl⟩
    cases hforest : forest (some t) s ts <;>
      cases hforest' : forest (some (t.moved n m)) s (ts.map (Token.moved n m)) <;>
      rw [hforest, hforest'] at hbody
    · trivial
    · exact hbody.elim
    · exact hbody.elim
    · rename_i body body'
      obtain ⟨nodes, close, pragmas, rest, hle⟩ := body'
      obtain ⟨rfl, rfl, rfl, rfl⟩ := hbody
      refine (ihrest body hopened).map fun f g h => ⟨?_, h.2⟩
      refine congrArg₂ List.cons ?_ h.1
      rw [moved_ofTag]
      cases body.close <;> rfl

end

namespace Machine

/-! ### The innermost list of nodes -/

/-- The nodes below the innermost open tag. -/
def below (m : Machine) : List Node :=
  match m.stack with
  | [] => m.nodes
  | f :: _ => f.nodes

/-- The machine with no nodes below the innermost open tag. -/
def bare (m : Machine) : Machine :=
  match m.stack with
  | [] => { m with nodes := [] }
  | f :: fs => { m with stack := { f with nodes := [] } :: fs }

variable {m m' : Machine} {t : Token} {ts us : List Token}

theorem addAll_bare (m : Machine) (s : PragmaSet) (ns : List Node) :
    m.bare.addAll s (m.below ++ ns) = m.addAll s ns := by
  obtain ⟨s', stack, nodes⟩ := m
  cases stack <;> simp [bare, below, addAll]

theorem add_eq_addAll (m : Machine) (n : Node) : m.add n = m.addAll m.pragmas [n] := by
  rw [addAll_cons, ← pragmas_add m n, addAll_nil]

@[simp] theorem pragmas_addAll (m : Machine) (s : PragmaSet) (ns : List Node) :
    (m.addAll s ns).pragmas = s := by
  unfold addAll
  split <;> rfl

@[simp] theorem top?_addAll (m : Machine) (s : PragmaSet) (ns : List Node) :
    (m.addAll s ns).top? = m.top? := by
  unfold addAll top?
  cases m.stack <;> rfl

@[simp] theorem inParent_addAll (m : Machine) (s : PragmaSet) (ns : List Node) :
    (m.addAll s ns).inParent = m.inParent := by
  rw [inParent, inParent, top?_addAll]

theorem addAll_addAll (m : Machine) (s s' : PragmaSet) (ns ms : List Node) :
    (m.addAll s ns).addAll s' ms = m.addAll s' (ns ++ ms) := by
  obtain ⟨s₀, stack, nodes⟩ := m
  cases stack <;> simp [addAll]

@[simp] theorem top?_bare (m : Machine) : m.bare.top? = m.top? := by
  unfold bare top?
  cases m.stack <;> rfl

@[simp] theorem inParent_bare (m : Machine) : m.bare.inParent = m.inParent := by
  rw [inParent, inParent, top?_bare]

theorem below_addAll (m : Machine) (s : PragmaSet) (ns : List Node) :
    (m.addAll s ns).below = m.below ++ ns := by
  obtain ⟨s', stack, nodes⟩ := m
  cases stack <;> simp [below, addAll]

@[simp] theorem below_bare (m : Machine) : m.bare.below = [] := by
  obtain ⟨s, stack, nodes⟩ := m
  cases stack <;> rfl

@[simp] theorem bare_bare (m : Machine) : m.bare.bare = m.bare := by
  obtain ⟨s, stack, nodes⟩ := m
  cases stack <;> rfl

theorem bare_addAll (m : Machine) (s s' : PragmaSet) (ns ms : List Node) :
    (m.addAll s ns).bare.addAll s' ms = m.bare.addAll s' ms := by
  obtain ⟨s₀, stack, nodes⟩ := m
  cases stack <;> rfl

theorem soFar_bare (m : Machine) : m.soFar = m.bare.soFar ++ outlineAll m.below := by
  obtain ⟨s, stack, nodes⟩ := m
  cases stack <;> simp [soFar, bare, below, outlineOpen, outlineAll]

/-- A node that was added last can be another one. -/
theorem addAll_bare_add (m : Machine) (n n' : Node) :
    ∃ front, (m.add n).below = front ++ [n] ∧
      (m.add n).bare.addAll m.pragmas (front ++ [n']) = m.add n' := by
  obtain ⟨s, stack, nodes⟩ := m
  cases stack with
  | nil => exact ⟨nodes, rfl, rfl⟩
  | cons f fs => exact ⟨f.nodes, rfl, rfl⟩

/-! ### Texts that have run on -/

theorem step_text (ht : t.isText = true) :
    m.step t = .ok (if m.inParent then m else m.add (.text t.value)) := by
  have hkind : t.kind = .text := by simpa [Token.isText] using ht
  simp [step, hkind]

theorem step_text_outside (ht : t.isText = true) (hm : m.inParent = false) :
    m.step t = .ok (m.add (.text t.value)) := by
  rw [step_text ht, hm]
  rfl

/-- **Tokens of which one may have run on into the next** are read as they are, or what is read of
both texts is one node. -/
theorem read_join {start : Machine} (hread : start.read ts = .ok m) (hm : m.inParent = false)
    (us : List Token) :
    start.read (Token.join ts us) = m.read us ∨
      ∃ front text u us', m.below = front ++ [.text text] ∧ text.toList.getLast? ≠ some '\n' ∧
        us = u :: us' ∧ u.isText = true ∧ start.read (Token.join ts us) =
          (m.bare.addAll m.pragmas (front ++ [.text (text ++ u.value)])).read us' := by
  rcases List.eq_nil_or_concat ts with rfl | ⟨ts, t, rfl⟩
  · obtain rfl := Except.ok.inj hread
    exact .inl rfl
  rw [List.concat_eq_append] at hread ⊢
  rw [read_append] at hread
  cases hfront : start.read ts with
  | error f =>
    rw [hfront] at hread
    cases hread
  | ok mid =>
    rw [hfront] at hread
    have hstep : mid.step t = .ok m := by
      change (mid.step t).bind _ = _ at hread
      cases hstep : mid.step t with
      | error f =>
        rw [hstep] at hread
        cases hread
      | ok m₁ =>
        rw [hstep] at hread
        exact hread
    have hgo (ws : List Token) : start.read (ts ++ ws) = mid.read ws := by
      rw [read_append, hfront]
      rfl
    rw [Token.join_concat, hgo]
    cases us with
    | nil => exact .inl (read_cons_ok hstep [])
    | cons u us =>
      rw [Token.attach]
      split
      · rename_i hfuse
        simp only [Bool.and_eq_true, Bool.not_eq_true'] at hfuse
        obtain ⟨⟨ht, hopen⟩, hu⟩ := hfuse
        have hmid : mid.inParent = false := by
          rw [step_text ht] at hstep
          split at hstep
          · obtain rfl := Except.ok.inj hstep
            exact hm
          · rename_i hmid
            exact Bool.eq_false_iff.mpr hmid
        rw [step_text_outside ht hmid] at hstep
        obtain rfl := Except.ok.inj hstep
        obtain ⟨front, hbelow, hother⟩ :=
          mid.addAll_bare_add (.text t.value) (.text (t.value ++ u.value))
        refine .inr ⟨front, t.value, u, us, hbelow, ?_, rfl, hu, ?_⟩
        · simpa [Token.endsLine, ht] using hopen
        · have hfused : (t.fuse u).isText = true := ht
          rw [read_cons_ok (step_text_outside hfused hmid), pragmas_add, hother]
          rfl
      · exact .inl (read_cons_ok hstep _)

/-- Tokens of a tree hang its nodes up where they are read, even if the text in front of them has
run on into the first of them. -/
theorem read_join_tree {start : Machine} (hread : start.read ts = .ok m) (hm : m.inParent = false)
    {nodes : List Node} (htree : ofTokens m.pragmas us = .ok nodes) :
    ∃ ns, Joins m.below nodes ns ∧
      start.read (Token.join ts us) = .ok (m.bare.addAll (m.pragmas.through us) ns) := by
  rcases read_join hread hm us with happ | ⟨front, text, u, us', hbelow, hline, rfl, hu, happ⟩
  · refine ⟨_, .apart _ _, ?_⟩
    rw [happ, addAll_bare, read_of_tree hm htree]
  · have hkind : u.kind = .text := by simpa [Token.isText] using hu
    have hpragmas : m.pragmas.through (u :: us') = m.pragmas.through us' := by
      rw [PragmaSet.through_cons, if_neg (by simp [hkind])]
    -- the first token leaves the first node
    rw [ofTokens_text_cons _ hu, map_eq_ok_iff] at htree
    obtain ⟨more, hmore, rfl⟩ := htree
    refine ⟨_, by rw [hbelow]; exact .fused front more hline, ?_⟩
    rw [happ]
    have htree' : ofTokens (m.bare.addAll m.pragmas (front ++ [.text (text ++ u.value)])).pragmas
        us' = .ok more := by rwa [pragmas_addAll]
    rw [read_of_tree (by simpa using hm) htree', addAll_addAll, pragmas_addAll, hpragmas,
      List.append_assoc]
    rfl

/-- **A tree read between others.** The text in front of it may have run on into it, and it may have
run on into the text behind it. What comes behind that is read as behind anything else. -/
theorem run_join_join {start : Machine} (hread : start.read ts = .ok m) (hm : m.inParent = false)
    {nodes : List Node} (htree : ofTokens m.pragmas us = .ok nodes) (hne : us ≠ [])
    (hplain : m.pragmas.through us = m.pragmas) (vs : List Token) (n k : Nat) :
    ∃ (ns more ns' : List Node) (rest : List Token), Joins m.below nodes ns ∧ Joins ns more ns' ∧
      (more = [] ∨ ∃ text, more = [.text text]) ∧ rest <:+ vs ∧
      start.run (Token.join ts (Token.join us (vs.map (Token.moved n k)))) =
        (m.bare.addAll m.pragmas ns').run (rest.map (Token.moved n k)) ∧
      ∀ ms n k, (m.bare.addAll m.pragmas ms).run (vs.map (Token.moved n k)) =
        (m.bare.addAll m.pragmas (ms ++ more)).run (rest.map (Token.moved n k)) := by
  obtain ⟨ns, hns, htree'⟩ := read_join_tree hread hm htree
  rw [hplain] at htree'
  have hoff : (m.bare.addAll m.pragmas ns).inParent = false := by simpa using hm
  rw [← Token.join_assoc hne, run_eq_read]
  rcases read_join htree' hoff (vs.map (Token.moved n k)) with
    happ | ⟨front, text, u, us', hlast, hline, hvs, hu, happ⟩
  · refine ⟨ns, [], ns, vs, hns, ?_, .inl rfl, List.suffix_rfl, ?_, fun ms n k => by
      rw [List.append_nil]⟩
    · simpa using Joins.apart ns []
    · rw [happ, ← run_eq_read]
  · rw [below_addAll, below_bare, List.nil_append] at hlast
    obtain ⟨v, rest, rfl, rfl, rfl⟩ := List.map_eq_cons_iff.mp hvs
    refine ⟨ns, [.text v.value], _, rest, hns, hlast ▸ Joins.fused front [] hline,
      .inr ⟨v.value, rfl⟩, List.suffix_cons v rest, ?_, fun ms n k => ?_⟩
    · rw [happ, bare_addAll, bare_bare, pragmas_addAll, ← run_eq_read]
      rfl
    · have hv : (v.moved n k).isText = true := hu
      have hoff : (m.bare.addAll m.pragmas ms).inParent = false := by simpa using hm
      rw [List.map_cons, run_cons_ok (step_text_outside hv hoff), add_eq_addAll, addAll_addAll,
        pragmas_addAll]
      rfl

/-! ### A section read -/

/-- A section has no place directly in a parent tag. -/
theorem inParent_of_step {o : Token} (ho : o.kind = .sectionTag) (h : m.step o = .ok m') :
    m.inParent = false := by
  cases hm : m.inParent with
  | false => rfl
  | true => simp [step, ho, hm] at h

/-- A section is read up to its closing tag. -/
theorem read_section {o c : Token} {nodes : List Node} (ho : o.kind = .sectionTag)
    (hm : m.inParent = false) (hself : m.closesItself? o = none)
    (htree : ofTokens m.pragmas ts = .ok nodes) (hc : c.kind = .close)
    (hvalue : c.value = o.value) :
    m.read (o :: (ts ++ [c])) = .ok ({ m with pragmas := m.pragmas.through ts }.add
      (.sectionNode o.value false nodes o.stop c.start o.delimiters o.line)) := by
  have hopened : m.step o = .ok (m.push o) := by
    simp [step, ho, place, canOpen, hself, hm]
  have hinside : (m.push o).inParent = false := by
    simp [inParent, top?, push, ho]
  have hread := read_of_tree hinside htree
  have hclosed : step ⟨m.pragmas.through ts, ⟨o, nodes⟩ :: m.stack, m.nodes⟩ c =
      .ok ({ m with pragmas := m.pragmas.through ts }.add
        (.sectionNode o.value false nodes o.stop c.start o.delimiters o.line)) := by
    simp only [step, hc, hvalue, if_true, ofTag, ho]
  rw [read_cons_ok hopened, read_append, hread]
  show read ⟨m.pragmas.through ts, ⟨o, [] ++ nodes⟩ :: m.stack, m.nodes⟩ [c] = _
  rw [List.nil_append, read_cons_ok hclosed]
  rfl

theorem StopsBy.read {limit : Nat} (h : m.StopsBy limit)
    (hts : ∀ t ∈ ts, t.start ≤ limit ∧ t.stop ≤ limit) (hread : m.read ts = .ok m') :
    m'.StopsBy limit := by
  induction ts generalizing m with
  | nil =>
    obtain rfl := Except.ok.inj hread
    exact h
  | cons t ts ih =>
    obtain ⟨⟨hstart, hstop⟩, hts⟩ := List.forall_mem_cons.mp hts
    rw [Machine.read] at hread
    cases hstep : m.step t with
    | error f =>
      rw [hstep] at hread
      cases hread
    | ok mid =>
      rw [hstep] at hread
      exact ih (h.step hstart hstop hstep) hts hread

/-- The tags that are open were so before, or have been read. -/
theorem tag_of_step (h : m.step t = .ok m') :
    ∀ f ∈ m'.stack, (∃ g ∈ m.stack, g.tag = f.tag) ∨ f.tag = t := by
  have hadd : ∀ (m : Machine) (n : Node), ∀ f ∈ (m.add n).stack, ∃ g ∈ m.stack, g.tag = f.tag := by
    rintro ⟨s, stack, nodes⟩ n f hf
    cases stack with
    | nil => exact absurd hf List.not_mem_nil
    | cons g gs =>
      rcases List.mem_cons.mp hf with rfl | hf
      · exact ⟨g, List.mem_cons_self, rfl⟩
      · exact ⟨f, List.mem_cons_of_mem g hf, rfl⟩
  have hsame : ∀ f ∈ m.stack, ∃ g ∈ m.stack, g.tag = f.tag := fun f hf => ⟨f, hf, rfl⟩
  unfold step at h
  cases hkind : t.kind <;> simp only [hkind] at h
  case comment | delimiters =>
    obtain rfl := Except.ok.inj h
    exact fun f hf => .inl (hsame f hf)
  case text =>
    obtain rfl := Except.ok.inj h
    split
    · exact fun f hf => .inl (hsame f hf)
    · exact fun f hf => .inl (hadd _ _ f hf)
  case pragma =>
    obtain rfl := Except.ok.inj h
    split
    · exact fun f hf => .inl (hsame f hf)
    · exact fun f hf => .inl (hadd (m.enable t.value) _ f hf)
  case close =>
    obtain ⟨s, stack, nodes⟩ := m
    cases stack with
    | nil => cases h
    | cons g gs =>
      change (if g.tag.value = t.value then _ else _) = _ at h
      split at h
      · obtain rfl := Except.ok.inj h
        intro f hf
        obtain ⟨g', hg', htag⟩ := hadd _ _ f hf
        exact .inl ⟨g', List.mem_cons_of_mem g hg', htag⟩
      · cases h
  all_goals
    split at h
    · cases h
    · obtain rfl := Except.ok.inj h
      unfold place
      split
      · split
        · exact fun f hf => .inl (hadd _ _ f hf)
        · intro f hf
          rcases List.mem_cons.mp hf with rfl | hf
          · exact .inr rfl
          · exact .inl (hsame f hf)
      · exact fun f hf => .inl (hadd _ _ f hf)

theorem tag_of_read (h : m.read ts = .ok m') :
    ∀ f ∈ m'.stack, (∃ g ∈ m.stack, g.tag = f.tag) ∨ f.tag ∈ ts := by
  induction ts generalizing m with
  | nil =>
    obtain rfl := Except.ok.inj h
    exact fun f hf => .inl ⟨f, hf, rfl⟩
  | cons t ts ih =>
    rw [Machine.read] at h
    cases hstep : m.step t with
    | error f =>
      rw [hstep] at h
      cases h
    | ok mid =>
      rw [hstep] at h
      intro f hf
      rcases ih h f hf with ⟨g, hg, htag⟩ | hmem
      · rcases tag_of_step hstep g hg with hold | hnew
        · exact .inl (htag ▸ hold)
        · rw [← htag, hnew]
          exact .inr List.mem_cons_self
      · exact .inr (List.mem_cons_of_mem t hmem)

theorem StopsBy.below {limit : Nat} (h : m.StopsBy limit) (n : Node) (hn : n.In m.below) :
    n.StopsBy limit := by
  obtain ⟨s, stack, nodes⟩ := m
  cases stack with
  | nil => exact h.nodes n hn
  | cons f fs => exact h.within f List.mem_cons_self n hn

/-- Nothing is left so far, so no tag is open. -/
theorem inParent_of_soFar (h : m.soFar = []) : m.inParent = false := by
  obtain ⟨s, stack, nodes⟩ := m
  cases stack with
  | nil => rfl
  | cons f fs => simp [soFar, outlineOpen] at h

/-- A text stands in a tree, be it left out there: a tag that leaves out a text leaves a node. -/
theorem kept_ne_nil {nodes : List Node} (hrun : m.run ts = .ok nodes) (hm : m.soFar = [])
    (htext : ∃ t ∈ ts, t.isText = true) : m.kept ts ≠ [] := by
  induction ts generalizing m with
  | nil => simp at htext
  | cons t ts ih =>
    unfold run at hrun
    split at hrun
    · rename_i m' hstep
      rw [kept, hstep]
      intro hnil
      obtain ⟨hleft, hkept⟩ := List.append_eq_nil_iff.mp hnil
      have hm' : m'.soFar = [] := by rw [soFar_step hstep, hm, hleft]; rfl
      obtain ⟨u, hu, hutext⟩ := htext
      rcases List.mem_cons.mp hu with rfl | hu
      · have hkind : u.kind = .text := by simpa [Token.isText] using hutext
        simp [left, hkind, inParent_of_soFar hm] at hleft
      · exact ih hrun hm' ⟨u, hu, hutext⟩ hkept
    · cases hrun

/-! ### Up to the closing tag -/

/-- **What is read of moved tokens below the innermost open tag** is the same nodes, moved, wherever
the tokens come from. Either they end the tree, or behind them the tag is closed. -/
theorem run_below {s : PragmaSet} {nodes tree : List Node} {n k : Nat}
    (h : (m.addAll s nodes).run (ts.map (Token.moved n k)) = .ok tree) : ∃ more : List Node,
    (m.stack = [] ∧ ∀ ns n k, (m.addAll s ns).run (ts.map (Token.moved n k)) =
      .ok (m.nodes ++ ns ++ movedAll n k more)) ∨
    ∃ (f : Frame) (fs : List Frame) (s' : PragmaSet) (close : Token) (rest : List Token),
      m.stack = f :: fs ∧ close ∈ ts ∧ rest <:+ ts ∧
      ∀ ns n k, (m.addAll s ns).run (ts.map (Token.moved n k)) =
        (add ⟨s', fs, m.nodes⟩ (ofTag f.tag f.tag.value (f.nodes ++ ns ++ movedAll n k more)
          (close.start + n))).run (rest.map (Token.moved n k)) := by
  have hopened : ClosedAlike m.top? m.top? := ⟨rfl, rfl⟩
  have hforest (n k : Nat) := forest_moved (n := n) (m := k) hopened s ts
  have hrun (ns : List Node) (n k : Nat) : (m.addAll s ns).run (ts.map (Token.moved n k)) =
      (forest m.top? s (ts.map (Token.moved n k))).bind (m.addAll s ns).resume :=
    run_eq (m.addAll s ns) (pragmas_addAll m s ns) (top?_addAll m s ns)
  -- the tokens make a forest, so they do so anywhere
  obtain ⟨g, hg⟩ : ∃ g, forest m.top? s ts = .ok g := by
    have hmoves := hforest n k
    rw [hrun] at h
    cases hmoved : forest m.top? s (ts.map (Token.moved n k)) with
    | error e =>
      rw [hmoved] at h
      cases h
    | ok f =>
      rw [hmoved] at hmoves
      exact hmoves.exists_of_ok
  have hcloses := closes_of_forest hg
  simp only [hg] at hforest
  refine ⟨g.nodes, ?_⟩
  cases hstack : m.stack with
  | nil =>
    refine .inl ⟨rfl, fun ns n k => ?_⟩
    obtain ⟨g', hg', hnodes, hclose, -, -⟩ := (hforest n k).exists_moved
    rw [top?_eq_none_iff.mpr hstack] at hcloses
    rw [hcloses.eq_none] at hclose
    rw [hrun, hg']
    show (m.addAll s ns).resume g' = _
    rw [resume, hclose, hnodes, addAll_addAll, addAll, hstack, List.append_assoc]
    rfl
  | cons f fs =>
    have htop : m.top? = some f.tag := by rw [top?, hstack]
    rw [htop] at hcloses
    obtain ⟨c, hc, hkind, hvalue⟩ := hcloses.exists_close
    obtain ⟨used, hused, -, -, -⟩ := exists_consumes_of_forest hg
    rw [hc] at hused
    have hts : ts = used ++ c :: g.rest := hused
    have hsuffix : g.rest <:+ ts := ⟨used ++ [c], by rw [List.append_assoc]; exact hts.symm⟩
    refine .inr ⟨f, fs, g.pragmas, c, g.rest, rfl, by simp [hts], hsuffix, fun ns n k => ?_⟩
    obtain ⟨g', hg', hnodes, hclose, hpragmas, hrest⟩ := (hforest n k).exists_moved
    rw [hc] at hclose
    have hstep : (m.addAll g'.pragmas (ns ++ g'.nodes)).step (c.moved n k) =
        .ok (add ⟨g'.pragmas, fs, m.nodes⟩
          (ofTag f.tag f.tag.value (f.nodes ++ (ns ++ g'.nodes)) (c.start + n))) := by
      have hstack' : (m.addAll g'.pragmas (ns ++ g'.nodes)).stack =
          ⟨f.tag, f.nodes ++ (ns ++ g'.nodes)⟩ :: fs := by rw [addAll, hstack]
      refine (step_close_cons (t := c.moved n k) hkind hstack').trans
        ((if_pos hvalue.symm).trans ?_)
      rw [addAll, hstack]
      rfl
    rw [hrun, hg']
    show (m.addAll s ns).resume g' = _
    rw [resume, hclose]
    show ((m.addAll s ns).addAll g'.pragmas g'.nodes).run (c.moved n k :: g'.rest) = _
    rw [addAll_addAll, run_cons_ok hstep, hpragmas, hrest, hnodes, List.append_assoc]

end Machine

/-! ### Tokens in front of a place and behind it -/

theorem exists_stop_of_scan_append {d : Delimiters} {source : String} {front back : List Token}
    {t : Token} (h : Token.scan d source = .ok (front ++ t :: back)) {before after : List Char}
    (hsource : source.toList = before ++ after) (hstart : t.start = Text.byteLength before) :
    ∀ u ∈ front, ∃ pre x, before = pre ++ x ∧ u.stop = Text.byteLength pre := by
  intro u hu
  obtain ⟨-, pre, rest, hpre, hstop⟩ := exists_ends_of_scan h (List.mem_append_left _ hu)
  have hle := (Token.bounds_of_scan_append h u hu).2
  obtain ⟨x, hx⟩ := Text.exists_append_of_byteLength_le hpre hsource (by omega)
  exact ⟨pre, x, hx, hstop⟩

theorem exists_start_of_scan_moved {d : Delimiters} {source : String} {ts : List Token}
    (h : Token.scan d source = .ok ts) {before after : List Char}
    (hsource : source.toList = before ++ after) {t : Token} {k : Nat}
    (ht : t.moved (Text.byteLength before) k ∈ ts) :
    ∃ y z, after = y ++ z ∧ t.start = Text.byteLength y := by
  obtain ⟨⟨pre, rest, hpre, hstart⟩, -⟩ := exists_ends_of_scan h ht
  simp only [Token.moved] at hstart
  obtain ⟨y, rfl⟩ := Text.exists_append_of_byteLength_le hsource hpre (by omega)
  rw [Text.byteLength_append] at hstart
  refine ⟨y, rest, (List.append_right_inj before).mp ?_, by omega⟩
  rw [← hsource, hpre, List.append_assoc]

/-- The tokens `front` lie in `head`, and the machine comes to `m` with them. The tokens `back` lie
in `tail`. -/
structure Stands (s : PragmaSet) (head tail : List Char) (front back : List Token) (m : Machine) :
    Prop where
  read : (Machine.start s).read front = .ok m
  stops : m.StopsBy (Text.byteLength head)
  opened : ∀ f ∈ m.stack, ∃ pre x, head = pre ++ x ∧ f.tag.stop = Text.byteLength pre
  ends : ∀ t ∈ back, ∃ y z, tail = y ++ z ∧ t.start = Text.byteLength y

theorem stands_of_scan {d : Delimiters} {source : String} {front more back : List Token}
    {t : Token} (h : Token.scan d source = .ok (front ++ t :: more)) {head rest : List Char}
    (hhead : source.toList = head ++ rest) (ht : t.start = Text.byteLength head)
    {before tail : List Char} (htail : source.toList = before ++ tail) {k : Nat}
    (hback : ∀ u ∈ back, u.moved (Text.byteLength before) k ∈ more) {s : PragmaSet} {m : Machine}
    (hread : (Machine.start s).read front = .ok m) : Stands s head tail front back m where
  read := hread
  stops := by
    have hstart : (Machine.start s).StopsBy (Text.byteLength head) :=
      ⟨fun _ hn => absurd hn not_in_nil, fun _ hf => absurd hf List.not_mem_nil⟩
    exact hstart.read (ht ▸ Token.bounds_of_scan_append h) hread
  opened f hf := by
    have hmem := (Machine.tag_of_read hread f hf).resolve_left
      fun ⟨_, hg, _⟩ => absurd hg List.not_mem_nil
    exact exists_stop_of_scan_append h hhead ht f.tag hmem
  ends u hu := exists_start_of_scan_moved h htail
    (List.mem_append_right front (List.mem_cons_of_mem t (hback u hu)))

/-- The tree of tokens with a text among them has a node. -/
theorem ne_nil_of_text {s : PragmaSet} {ts : List Token} {nodes : List Node}
    (h : ofTokens s ts = .ok nodes) (htext : ∃ t ∈ ts, t.isText = true) : nodes ≠ [] := by
  have hrun := run_of_ofTokens h
  have houtline := Machine.outlineAll_of_run hrun
  rintro rfl
  exact Machine.kept_ne_nil hrun rfl htext houtline.symm

end Mustache.Node
