import Mustache.Proofs.Node.Machine

/-!
What the tree of a template holds, node by node: its outline is what the tokens leave, one after
the other, as a machine with a stack of open tags reads them. Main statement: `ofTokens_eq_run`,
by which the tree is the machine's tree and the error the machine's first error.
-/

namespace Mustache.Node

/-! ### Outlines -/

mutual

/-- A node and what is below it, in the order of the source, each node without its children and a
section with an empty body. -/
def outline : Node → List Node
  | sectionNode name inverted children start _ delimiters line =>
    sectionNode name inverted [] start start delimiters line :: outlineAll children
  | parent name indent blocks line => parent name indent [] line :: outlineAll blocks
  | block name children indent line => block name [] indent line :: outlineAll children
  | n => [n]

def outlineAll : List Node → List Node
  | [] => []
  | n :: ns => outline n ++ outlineAll ns

end

theorem outlineAll_append (ns ms : List Node) :
    outlineAll (ns ++ ms) = outlineAll ns ++ outlineAll ms := by
  induction ns with
  | nil => rfl
  | cons n ns ih => simp [outlineAll, ih]

theorem outlineAll_singleton (n : Node) : outlineAll [n] = outline n := by
  simp [outlineAll]

theorem outline_ofTag (t : Token) (name : String) (children : List Node) (stop : Nat) :
    outline (ofTag t name children stop) = ofTag t name [] t.stop :: outlineAll children := by
  unfold ofTag
  cases t.kind <;> rfl

theorem outline_ofLeaf (s : PragmaSet) (t : Token) : outline (ofLeaf s t) = [ofLeaf s t] := by
  unfold ofLeaf
  split
  case h_4 => split <;> rfl
  all_goals rfl

namespace Machine

/-! ### What a token leaves -/

/-- What a token adds to the outline of the tree. -/
def left (m : Machine) (t : Token) : List Node :=
  match t.kind with
  | .comment | .delimiters | .close => []
  | .text => if m.inParent then [] else [text t.value]
  | .pragma => if m.inParent then [] else [pragma t.value t.line]
  | _ =>
    if m.canOpen t then [ofTag t ((m.closesItself? t).getD t.value) [] t.stop]
    else [ofLeaf m.pragmas t]

/-- What the tokens add, up to the first error. -/
def kept (m : Machine) : List Token → List Node
  | [] => []
  | t :: ts =>
    match m.step t with
    | .ok m' => m.left t ++ m'.kept ts
    | .error _ => []

/-- The outline of the open tags, innermost first, and of what is below them. -/
def outlineOpen : List Frame → List Node
  | [] => []
  | f :: fs => outlineOpen fs ++ ofTag f.tag f.tag.value [] f.tag.stop :: outlineAll f.nodes

/-- The outline of the tree so far. -/
def soFar (m : Machine) : List Node := outlineAll m.nodes ++ outlineOpen m.stack

@[simp] theorem soFar_start (s : PragmaSet) : (start s).soFar = [] := rfl

@[simp] theorem soFar_enable (m : Machine) (name : String) : (m.enable name).soFar = m.soFar := rfl

@[simp] theorem soFar_add (m : Machine) (n : Node) : (m.add n).soFar = m.soFar ++ outline n := by
  obtain ⟨s, stack, nodes⟩ := m
  cases stack with
  | nil => simp [add, soFar, outlineOpen, outlineAll_append, outlineAll_singleton]
  | cons f fs => simp [add, soFar, outlineOpen, outlineAll_append, outlineAll_singleton]

@[simp] theorem soFar_push (m : Machine) (t : Token) :
    (m.push t).soFar = m.soFar ++ [ofTag t t.value [] t.stop] := by
  simp [push, soFar, outlineOpen, outlineAll]

/-- Closing the innermost tag moves its node and leaves the outline as it is. -/
theorem soFar_pop {m : Machine} {f : Frame} {fs : List Frame} (h : m.stack = f :: fs) (stop : Nat) :
    ({ m with stack := fs }.add (ofTag f.tag f.tag.value f.nodes stop)).soFar = m.soFar := by
  rw [soFar_add, outline_ofTag]
  simp [soFar, h, outlineOpen]

theorem soFar_place (m : Machine) (t : Token) :
    (m.place t).soFar = m.soFar ++
      if m.canOpen t then [ofTag t ((m.closesItself? t).getD t.value) [] t.stop]
      else [ofLeaf m.pragmas t] := by
  unfold place
  split
  · cases m.closesItself? t with
    | some name => simp [outline_ofTag, outlineAll]
    | none => simp
  · simp [outline_ofLeaf]

theorem soFar_step {m m' : Machine} {t : Token} (h : m.step t = .ok m') :
    m'.soFar = m.soFar ++ m.left t := by
  unfold step at h
  unfold left
  cases hkind : t.kind <;> simp only [hkind] at h
  case comment | delimiters =>
    obtain rfl := Except.ok.inj h
    simp
  case text =>
    obtain rfl := Except.ok.inj h
    cases m.inParent <;> simp [outline]
  case pragma =>
    obtain rfl := Except.ok.inj h
    cases m.inParent <;> simp [outline]
  case close =>
    split at h
    · simp at h
    · rename_i f fs hstack
      split at h
      · obtain rfl := Except.ok.inj h
        rw [soFar_pop hstack, List.append_nil]
      · simp at h
  all_goals
    split at h
    · simp at h
    · obtain rfl := Except.ok.inj h
      exact m.soFar_place t

theorem outlineAll_of_run {m : Machine} {ts : List Token} {nodes : List Node}
    (h : m.run ts = .ok nodes) : outlineAll nodes = m.soFar ++ m.kept ts := by
  induction ts generalizing m with
  | nil =>
    unfold run finish at h
    split at h
    · rename_i hstack
      obtain rfl := Except.ok.inj h
      simp [soFar, hstack, outlineOpen, kept]
    · simp at h
  | cons t ts ih =>
    unfold run at h
    split at h
    · rename_i m' hstep
      rw [ih h, soFar_step hstep, kept, hstep, List.append_assoc]
    · simp at h

end Machine

/-! ### The tree -/

/-- **The tree of a template is the machine's tree, and its error the machine's first error.** -/
theorem ofTokens_eq_run (s : PragmaSet) (ts : List Token) :
    (ofTokens s ts = match (Machine.start s).run ts with
      | .ok nodes => .ok nodes
      | .error fault => .error fault.toError) ∧
    ∀ nodes, ofTokens s ts = .ok nodes → outlineAll nodes = (Machine.start s).kept ts := by
  have hrun : (Machine.start s).run ts = (forest none s ts).bind (Machine.start s).resume :=
    Machine.run_eq _ rfl rfl
  have heq : ofTokens s ts = match (Machine.start s).run ts with
      | .ok nodes => .ok nodes
      | .error fault => .error fault.toError := by
    rw [hrun, ofTokens]
    cases h : forest none s ts with
    | error fault => rfl
    | ok f =>
      have hclose : f.close = none := (closes_of_forest h).eq_none
      simp [Except.bind, Machine.resume, hclose, Machine.addAll, Machine.start, Machine.finish]
  refine ⟨heq, fun nodes h => ?_⟩
  rw [heq] at h
  split at h
  · rename_i nodes' hnodes
    obtain rfl := Except.ok.inj h
    simpa using Machine.outlineAll_of_run hnodes
  · simp at h

/-- A parent tag whose only block closes itself, behind the pragmas that both need. -/
theorem ofTokens_eq_run_parent :
    let d := Delimiters.standard
    let ts : List Token :=
      [⟨.pragma, "BLOCKS", 1, 0, 11, d, none⟩, ⟨.pragma, "SELF-CLOSING", 1, 11, 28, d, none⟩,
        ⟨.parent, "p", 1, 28, 34, d, none⟩, ⟨.text, "left out", 1, 34, 42, d, none⟩,
        ⟨.block, "b /", 1, 42, 50, d, none⟩, ⟨.close, "p", 1, 50, 56, d, none⟩]
    let nodes := [pragma "BLOCKS" 1, pragma "SELF-CLOSING" 1,
      parent "p" none [block "b" [] none 1] 1]
    ofTokens PragmaSet.empty ts = .ok nodes ∧
      outlineAll nodes = (Machine.start PragmaSet.empty).kept ts := by
  intro d ts nodes
  have h : ofTokens PragmaSet.empty ts = .ok nodes := by
    rw [(ofTokens_eq_run _ _).1]
    cbv
  exact ⟨h, (ofTokens_eq_run _ _).2 nodes h⟩

end Mustache.Node
