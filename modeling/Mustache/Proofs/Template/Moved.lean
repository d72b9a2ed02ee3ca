import Mustache.Proofs.Node.Moved
import Mustache.Proofs.Text.Slice
import Mustache.Template

/-!
Compiling a tree from another place. A section finds its body in the longer source as well, so the
steps are the same. Main statement: `moves_compileNodes`.
-/

namespace Mustache.Template

variable {α β : Type} {m : Nat}

/-- `act'` does what `act` does, and what is wrong is on lines `m` further down. -/
def Moves (m : Nat) (act' act : Compile α) : Prop :=
  ∀ w, act' w = (act w).mapError (Node.Fault.moved m)

theorem moves_pure (a : α) : Moves m (pure a) (pure a) := fun _ => rfl

theorem moves_get : Moves m get get := fun _ => rfl

theorem moves_modify (f : Walk → Walk) : Moves m (modify f) (modify f) := fun _ => rfl

theorem moves_takeLineStart : Moves m takeLineStart takeLineStart := fun _ => rfl

theorem Moves.bind {act' act : Compile α} {next' next : α → Compile β} (hact : Moves m act' act)
    (hnext : ∀ a, Moves m (next' a) (next a)) : Moves m (act' >>= next') (act >>= next) := by
  intro w
  show (act' w >>= fun p => next' p.1 p.2) = (act w >>= fun p => next p.1 p.2).mapError _
  rw [hact w]
  cases act w with
  | error f => rfl
  | ok p => exact hnext p.1 p.2

theorem blockIndent_moved (n m : Nat) (children : List Node) (tag : String) :
    blockIndent (Node.movedAll n m children) tag = blockIndent children tag := by
  cases children with
  | nil => rfl
  | cons node nodes => cases node <;> rfl

section

variable (before source : List Char) (strictVariables : Bool) (m : Nat)

mutual

theorem moves_compileNode : ∀ node : Node,
    Moves m (compileNode (before ++ source) strictVariables
      (node.moved (Text.byteLength before) m)) (compileNode source strictVariables node)
  | .text text => by
    rw [Node.moved, compileNode, compileNode]
    exact moves_takeLineStart.bind fun _ => (moves_modify _).bind fun _ => moves_pure _
  | .interpolation name escape line => by
    rw [Node.moved, compileNode, compileNode]
    exact moves_get.bind fun _ => moves_takeLineStart.bind fun _ => moves_pure _
  | .sectionNode name false children start stop delimiters line => by
    rw [Node.moved, compileNode, compileNode]
    refine moves_get.bind fun _ => (moves_compileNodes children).bind fun _ => ?_
    rw [bodyText, Text.sliceBytes?_behind]
    exact moves_pure _
  | .sectionNode name true children start stop delimiters line => by
    rw [Node.moved, compileNode, compileNode]
    exact moves_get.bind fun _ => (moves_compileNodes children).bind fun _ => moves_pure _
  | .partialNode name dynamic indent line => by
    rw [Node.moved, compileNode, compileNode]
    exact moves_pure _
  | .parent name indent blocks line => by
    rw [Node.moved, compileNode, compileNode]
    exact (moves_compileOverrides name line blocks).bind fun _ => moves_pure _
  | .block name children indent line => by
    rw [Node.moved, compileNode, compileNode]
    refine (moves_compileNodes children).bind fun _ => ?_
    simp only [funext (blockIndent_moved (Text.byteLength before) m children)]
    exact moves_pure _
  | .pragma name line => by
    rw [Node.moved, compileNode, compileNode]
    exact (moves_modify _).bind fun _ => moves_pure _

theorem moves_compileNodes : ∀ nodes : List Node,
    Moves m (compileNodes (before ++ source) strictVariables
      (Node.movedAll (Text.byteLength before) m nodes)) (compileNodes source strictVariables nodes)
  | [] => by
    rw [Node.movedAll, compileNodes, compileNodes]
    exact moves_pure _
  | node :: nodes => by
    rw [Node.movedAll, compileNodes, compileNodes]
    exact (moves_compileNode node).bind fun _ => (moves_compileNodes nodes).bind fun _ =>
      moves_pure _

theorem moves_compileOverrides (parent : String) (line : Nat) : ∀ nodes : List Node,
    Moves m (compileOverrides (before ++ source) strictVariables parent (line + m)
      (Node.movedAll (Text.byteLength before) m nodes))
      (compileOverrides source strictVariables parent line nodes)
  | [] => by
    rw [Node.movedAll, compileOverrides, compileOverrides]
    exact moves_pure _
  | .block name children indent _ :: nodes => by
    rw [Node.movedAll, Node.moved, compileOverrides, compileOverrides]
    exact (moves_compileNodes children).bind fun _ =>
      (moves_compileOverrides parent line nodes).bind fun _ => moves_pure _
  | .text _ :: _ => fun _ => rfl
  | .interpolation .. :: _ => fun _ => rfl
  | .sectionNode .. :: _ => fun _ => rfl
  | .partialNode .. :: _ => fun _ => rfl
  | .parent .. :: _ => fun _ => rfl
  | .pragma .. :: _ => fun _ => rfl

end

end

end Mustache.Template
