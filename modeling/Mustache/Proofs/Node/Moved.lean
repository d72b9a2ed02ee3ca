import Mustache.Proofs.Node.Machine
import Mustache.Proofs.Token.Moved

/-!
Trees of tokens from another place. Where a source begins only moves the lines of its nodes and the
bodies of its sections, and the lines of what is wrong with it. Main statement: `ofTokens_moved`.
-/

namespace Mustache

/-- The defect with its lines `m` further down. -/
def Malformed.moved (m : Nat) : Malformed → Malformed
  | .unexpectedClose name line => .unexpectedClose name (line + m)
  | .mismatchedClose opened openedOn closed closedOn =>
    .mismatchedClose opened (openedOn + m) closed (closedOn + m)
  | .missingClose name line => .missingClose name (line + m)
  | .strayInParent name line => .strayInParent name (line + m)
  | defect => defect

@[simp] theorem mapError_ok {ε ε' α : Type} (f : ε → ε') (a : α) :
    (Except.ok a).mapError f = .ok a := rfl

@[simp] theorem mapError_error {ε ε' α : Type} (f : ε → ε') (err : ε) :
    (Except.error err : Except ε α).mapError f = .error (f err) := rfl

namespace Node

variable (n m : Nat)

def Fault.moved (f : Fault) : Fault := ⟨f.defect.moved m, f.line + m⟩

mutual

/-- The node of a source that begins `n` bytes further on and `m` lines further down. -/
def moved : Node → Node
  | text t => text t
  | interpolation name escape line => interpolation name escape (line + m)
  | sectionNode name inverted children start stop delimiters line =>
    sectionNode name inverted (movedAll children) (start + n) (stop + n) delimiters (line + m)
  | partialNode name dynamic indent line => partialNode name dynamic indent (line + m)
  | parent name indent blocks line => parent name indent (movedAll blocks) (line + m)
  | block name children indent line => block name (movedAll children) indent (line + m)
  | pragma name line => pragma name (line + m)

def movedAll : List Node → List Node
  | [] => []
  | node :: nodes => moved node :: movedAll nodes

end

theorem movedAll_eq_map (nodes : List Node) : movedAll n m nodes = nodes.map (moved n m) := by
  induction nodes with
  | nil => rfl
  | cons node nodes ih => rw [movedAll, ih, List.map_cons]

theorem moved_ofTag (t : Token) (name : String) (children : List Node) (stop : Nat) :
    (ofTag t name children stop).moved n m =
      ofTag (t.moved n m) name (movedAll n m children) (stop + n) := by
  unfold ofTag
  rw [Token.kind_moved]
  cases t.kind <;> rfl

theorem moved_ofLeaf (s : PragmaSet) (t : Token) :
    (ofLeaf s t).moved n m = ofLeaf s (t.moved n m) := by
  unfold ofLeaf
  rw [Token.kind_moved]
  split
  case h_4 => split <;> rfl
  all_goals rfl

namespace Machine

/-! ### The machine -/

def movedFrame (f : Frame) : Frame := ⟨f.tag.moved n m, movedAll n m f.nodes⟩

def moved (a : Machine) : Machine :=
  ⟨a.pragmas, a.stack.map (movedFrame n m), movedAll n m a.nodes⟩

theorem moved_start (s : PragmaSet) : (start s).moved n m = start s := rfl

theorem inParent_moved (a : Machine) : (a.moved n m).inParent = a.inParent := by
  unfold inParent top? moved
  cases a.stack <;> rfl

theorem moved_add (a : Machine) (node : Node) :
    (a.add node).moved n m = (a.moved n m).add (node.moved n m) := by
  unfold add moved
  cases a.stack <;> simp [movedFrame, movedAll_eq_map]

theorem canOpen_moved (a : Machine) (t : Token) :
    (a.moved n m).canOpen (t.moved n m) = a.canOpen t := by
  unfold canOpen
  rw [Token.kind_moved, inParent_moved]
  rfl

theorem moved_place (a : Machine) (t : Token) :
    (a.place t).moved n m = (a.moved n m).place (t.moved n m) := by
  have hself : (a.moved n m).closesItself? (t.moved n m) = a.closesItself? t := rfl
  unfold place
  rw [canOpen_moved, hself]
  split
  · cases a.closesItself? t with
    | none => rfl
    | some name => simp only [moved_add, moved_ofTag]; rfl
  · rw [moved_add, moved_ofLeaf]
    rfl

theorem moved_enable (a : Machine) (name : String) :
    (a.enable name).moved n m = (a.moved n m).enable name := rfl

/-- Closing the innermost tag. -/
theorem moved_pop (a : Machine) (f : Frame) (fs : List Frame) (stop : Nat) :
    ({ a with stack := fs }.add (ofTag f.tag f.tag.value f.nodes stop)).moved n m =
      { a.moved n m with stack := fs.map (movedFrame n m) }.add
        (ofTag (f.tag.moved n m) f.tag.value (movedAll n m f.nodes) (stop + n)) := by
  rw [moved_add, moved_ofTag]
  rfl

theorem step_moved (a : Machine) (t : Token) :
    (a.moved n m).step (t.moved n m) =
      ((a.step t).map (moved n m)).mapError (Fault.moved m) := by
  unfold step
  rw [Token.kind_moved, inParent_moved]
  cases t.kind
  case comment | delimiters => rfl
  case text =>
    cases a.inParent with
    | true => rfl
    | false =>
      show Except.ok ((a.moved n m).add _) = .ok (moved n m (a.add _))
      rw [moved_add]
      rfl
  case pragma =>
    cases a.inParent with
    | true => rfl
    | false =>
      show Except.ok (((a.moved n m).enable _).add _) = .ok (moved n m ((a.enable _).add _))
      rw [moved_add, moved_enable]
      rfl
  case close =>
    obtain ⟨s, stack, nodes⟩ := a
    cases stack with
    | nil => rfl
    | cons f fs =>
      by_cases hvalue : f.tag.value = t.value
      · have hpop := moved_pop n m ⟨s, f :: fs, nodes⟩ f fs t.start
        simpa [moved, movedFrame, hvalue, Except.map, Token.moved]
          using hpop.symm
      · simp [moved, movedFrame, hvalue, Except.map, Fault.moved,
          Malformed.moved, Token.moved]
  all_goals
    cases a.inParent <;>
      simp [Except.map, Fault.moved, Malformed.moved, moved_place, Token.moved]

theorem run_moved (a : Machine) (ts : List Token) :
    (a.moved n m).run (ts.map (Token.moved n m)) =
      ((a.run ts).map (movedAll n m)).mapError (Fault.moved m) := by
  induction ts generalizing a with
  | nil =>
    obtain ⟨s, stack, nodes⟩ := a
    cases stack <;> rfl
  | cons t ts ih =>
    rw [List.map_cons]
    cases hstep : a.step t with
    | error f =>
      have hmoved : (a.moved n m).step (t.moved n m) = .error (f.moved m) := by
        rw [step_moved, hstep]
        rfl
      rw [run_cons_error hmoved, run_cons_error hstep]
      rfl
    | ok a' =>
      have hmoved : (a.moved n m).step (t.moved n m) = .ok (a'.moved n m) := by
        rw [step_moved, hstep]
        rfl
      rw [run_cons_ok hmoved, run_cons_ok hstep, ih]

end Machine

/-! ### Trees -/

/-- **Moved tokens make the same tree, moved**, and what is wrong with them is on moved lines. -/
theorem ofTokens_moved (s : PragmaSet) (ts : List Token) :
    ofTokens s (ts.map (Token.moved n m)) =
      (((Machine.start s).run ts).map (movedAll n m)).mapError
        fun f => (f.moved m).toError := by
  have hrun := Machine.run_moved n m (Machine.start s) ts
  rw [Machine.moved_start] at hrun
  rw [ofTokens_run, hrun]
  cases (Machine.start s).run ts <;> rfl

end Node

end Mustache
