import Mustache.Proofs.Engine.History
import Mustache.Proofs.Node.Parsed
import Mustache.Proofs.Render.Sources

/-!
The indent of a standalone partial. A partial that gets an indent puts out what its tree puts out
once the indent stands in front of each text and each interpolation that begins a line, and in the
indents of standalone partials. What begins a line is settled along the tree, before any data are
seen: a body that is rendered again begins as it did the first time, and a partial within a line
starts afresh, wherever its tag stands. Main statement: `renderLevels_indented`.
-/

namespace Mustache

/-! ### Indents written in -/

namespace Node

mutual

/-- The node with an indent in front of what begins a line in it, and whether what comes after it
begins a line. -/
def indented (w : String) (lineStart : Bool) : Node → List Node × Bool
  | .text piece => ([.text (if lineStart then w ++ piece else piece)], Template.endsInNewline piece)
  | .interpolation name escape line =>
    (if lineStart then [.text w, .interpolation name escape line]
      else [.interpolation name escape line], false)
  | .sectionNode name inverted children start stop delimiters line =>
    let (children, next) := allIndented w lineStart children
    ([.sectionNode name inverted children start stop delimiters line], next)
  | .partialNode name dynamic own line =>
    ([.partialNode name dynamic (own.map (w ++ ·)) line], lineStart)
  | n => ([n], lineStart)

def allIndented (w : String) (lineStart : Bool) : List Node → List Node × Bool
  | [] => ([], lineStart)
  | n :: ns =>
    let (first, next) := indented w lineStart n
    let (rest, last) := allIndented w next ns
    (first ++ rest, last)

end

/-- The node is neither a parent nor a block. -/
def isOrdinary : Node → Bool
  | .parent .. => false
  | .block .. => false
  | _ => true

end Node

namespace Step

mutual

/-- The step with an indent written in front of what begins a line. -/
def indented (w : String) : Step → List Step
  | .text piece true => [.text (w ++ piece) true]
  | .interpolation name escape strict true =>
    [.text w true, .interpolation name escape strict false]
  | .sectionStep name strict body delimiters steps =>
    [.sectionStep name strict body delimiters (allIndented w steps)]
  | .inverted name steps => [.inverted name (allIndented w steps)]
  | .partialStep name own => [.partialStep name (own.map (w ++ ·))]
  | .parent name own overrides => [.parent name (own.map (w ++ ·)) overrides]
  | step => [step]

def allIndented (w : String) : List Step → List Step
  | [] => []
  | step :: steps => indented w step ++ allIndented w steps

end

mutual

/-- The step holds no block, whose override would be moved as a whole. -/
def BlockFree : Step → Prop
  | .sectionStep _ _ _ _ steps => AllBlockFree steps
  | .inverted _ steps => AllBlockFree steps
  | .block _ _ _ => False
  | _ => True

def AllBlockFree : List Step → Prop
  | [] => True
  | step :: steps => BlockFree step ∧ AllBlockFree steps

end

theorem allIndented_append (w : String) (steps others : List Step) :
    allIndented w (steps ++ others) = allIndented w steps ++ allIndented w others := by
  induction steps with
  | nil => rfl
  | cons step steps ih => rw [List.cons_append, allIndented, allIndented, ih, List.append_assoc]

theorem allBlockFree_append {steps others : List Step} (h : AllBlockFree steps)
    (h' : AllBlockFree others) : AllBlockFree (steps ++ others) := by
  induction steps with
  | nil => exact h'
  | cons step steps ih => exact ⟨h.1, ih h.2⟩

end Step

/-! ### Compiling what was written in -/

namespace Template

theorem endsInNewline_append {w : String} (hw : endsInNewline w = false) (piece : String) :
    endsInNewline (w ++ piece) = endsInNewline piece := by
  unfold endsInNewline at *
  rw [String.toList_append, List.getLast?_append]
  cases h : piece.toList.getLast? with
  | none => simpa using hw
  | some c => rfl

section

variable (source : List Char) (strictVariables : Bool)

theorem compileNodes_append (ns ms : List Node) :
    compileNodes source strictVariables (ns ++ ms) = do
      let steps ← compileNodes source strictVariables ns
      return steps ++ (← compileNodes source strictVariables ms) := by
  induction ns with
  | nil => simp [compileNodes]
  | cons n ns ih =>
    rw [List.cons_append, compileNodes, compileNodes, ih]
    simp only [bind_assoc, pure_bind, List.append_assoc]

theorem compileNodes_singleton (n : Node) :
    compileNodes source strictVariables [n] = compileNode source strictVariables n := by
  simp [compileNodes]

theorem bind_eq_ok {α β : Type} {act : Compile α} {next : α → Compile β} {walk walk' : Walk}
    {b : β} :
    (act >>= next) walk = .ok (b, walk') ↔
      ∃ a mid, act walk = .ok (a, mid) ∧ next a mid = .ok (b, walk') := by
  change (act walk >>= fun p => next p.1 p.2) = _ ↔ _
  cases act walk with
  | error f => simp [bind, Except.bind]
  | ok p =>
    obtain ⟨a, mid⟩ := p
    simp [bind, Except.bind]

mutual

theorem compileNode_indented {w : String} (hw : endsInNewline w = false) : ∀ n : Node,
    n.isOrdinary = true → (∀ m : Node, m.In n.children → m.isOrdinary = true) →
    ∀ {walk steps walk'},
    compileNode source strictVariables n walk = .ok (steps, walk') →
      Step.AllBlockFree steps ∧ (n.indented w walk.lineStart).2 = walk'.lineStart ∧
        compileNodes source strictVariables (n.indented w walk.lineStart).1 walk =
          .ok (Step.allIndented w steps, walk')
  | .text piece, _, _, ⟨pragmas, lineStart⟩, steps, walk', h => by
    cases h
    cases lineStart with
    | false => exact ⟨⟨trivial, trivial⟩, rfl, rfl⟩
    | true =>
      refine ⟨⟨trivial, trivial⟩, rfl, ?_⟩
      change Except.ok (_, Walk.mk pragmas (endsInNewline (w ++ piece))) = _
      rw [endsInNewline_append hw]
      rfl
  | .interpolation name escape line, _, _, ⟨pragmas, lineStart⟩, steps, walk', h => by
    cases h
    cases lineStart with
    | false => exact ⟨⟨trivial, trivial⟩, rfl, rfl⟩
    | true =>
      refine ⟨⟨trivial, trivial⟩, rfl, ?_⟩
      change Except.ok ([Step.text w true, Step.interpolation _ escape _ (endsInNewline w)], _) = _
      rw [hw]
      rfl
  | .sectionNode name false children start stop delimiters line, _, hchildren, walk, steps,
      walk', h => by
    rw [compileNode, bind_eq_ok] at h
    obtain ⟨_, _, hget, h⟩ := h
    cases hget
    rw [bind_eq_ok] at h
    obtain ⟨inner, mid, hinner, h⟩ := h
    cases h
    obtain ⟨hfree, hend, hrun⟩ := compileNodes_indented hw children hchildren hinner
    refine ⟨⟨hfree, trivial⟩, hend, ?_⟩
    rw [Node.indented, compileNodes_singleton, compileNode]
    exact bind_eq_ok.mpr ⟨_, _, rfl, bind_eq_ok.mpr ⟨_, _, hrun, rfl⟩⟩
  | .sectionNode name true children start stop delimiters line, _, hchildren, walk, steps,
      walk', h => by
    rw [compileNode, bind_eq_ok] at h
    obtain ⟨_, _, hget, h⟩ := h
    cases hget
    rw [bind_eq_ok] at h
    obtain ⟨inner, mid, hinner, h⟩ := h
    cases h
    obtain ⟨hfree, hend, hrun⟩ := compileNodes_indented hw children hchildren hinner
    refine ⟨⟨hfree, trivial⟩, hend, ?_⟩
    rw [Node.indented, compileNodes_singleton, compileNode]
    exact bind_eq_ok.mpr ⟨_, _, rfl, bind_eq_ok.mpr ⟨_, _, hrun, rfl⟩⟩
  | .partialNode name dynamic indent line, hn, _, walk, steps, walk', h => by
    cases h
    exact ⟨⟨trivial, trivial⟩, rfl, rfl⟩
  | .pragma name line, _, _, walk, steps, walk', h => by
    cases h
    exact ⟨trivial, rfl, rfl⟩

theorem compileNodes_indented {w : String} (hw : endsInNewline w = false) : ∀ ns : List Node,
    (∀ m : Node, m.In ns → m.isOrdinary = true) →
    ∀ {walk steps walk'}, compileNodes source strictVariables ns walk = .ok (steps, walk') →
      Step.AllBlockFree steps ∧ (Node.allIndented w walk.lineStart ns).2 = walk'.lineStart ∧
        compileNodes source strictVariables (Node.allIndented w walk.lineStart ns).1 walk =
          .ok (Step.allIndented w steps, walk')
  | [], _, walk, steps, walk', h => by
    cases h
    exact ⟨trivial, rfl, rfl⟩
  | n :: ns, hns, walk, steps, walk', h => by
    have hn := hns n (.here List.mem_cons_self)
    have hchildren : ∀ m : Node, m.In n.children → m.isOrdinary = true :=
      fun m hm => hns m (.inside List.mem_cons_self hm)
    have hrest : ∀ m : Node, m.In ns → m.isOrdinary = true :=
      fun m hm => hns m (Node.In.cons_iff.mpr (Or.inr (Or.inr hm)))
    rw [compileNodes] at h
    obtain ⟨first, mid, hfirst, h⟩ := bind_eq_ok.mp h
    obtain ⟨others, last, hothers, h⟩ := bind_eq_ok.mp h
    cases h
    obtain ⟨hfree, hend, hrun⟩ := compileNode_indented hw n hn hchildren hfirst
    obtain ⟨hfree', hend', hrun'⟩ := compileNodes_indented hw ns hrest hothers
    rw [← hend] at hend' hrun'
    refine ⟨Step.allBlockFree_append hfree hfree', hend', ?_⟩
    rw [Step.allIndented_append]
    refine (congrFun (compileNodes_append source strictVariables _ _) walk).trans ?_
    exact bind_eq_ok.mpr ⟨_, _, hrun, bind_eq_ok.mpr ⟨_, _, hrun', rfl⟩⟩

end

end

end Template

/-! ### Rendering what was written in -/

namespace Render

open Step

variable {σ : Type} (e : Engine σ) (deeper : Renderer σ) (t : Template)

theorem renderSteps_append (indent : String) (steps others : List Step) (out : String) :
    renderSteps e deeper t indent (steps ++ others) out =
      renderSteps e deeper t indent steps out >>= renderSteps e deeper t indent others := by
  induction steps generalizing out with
  | nil => simp [renderSteps]
  | cons step steps ih => simp [renderSteps, ih]

theorem renderSteps_singleton (indent : String) (step : Step) (out : String) :
    renderSteps e deeper t indent [step] out = renderStep e deeper t indent step out := by
  simp [renderSteps]

theorem innerIndent_append (own : Option String) (indent w : String) :
    innerIndent own (indent ++ w) = innerIndent (own.map (w ++ ·)) indent := by
  cases own with
  | none => rfl
  | some own => exact String.append_assoc

variable (others : List Step)

theorem interpolate_steps (name : Name) (strict : Bool) :
    interpolate e deeper { t with steps := others } name strict =
      interpolate e deeper t name strict := rfl

mutual

/-- What a step puts out behind an indent, it puts out with the indent written into it. -/
theorem renderStep_append_indent (indent w : String) :
    ∀ (step : Step), step.BlockFree → ∀ out,
      renderStep e deeper t (indent ++ w) step out =
        renderSteps e deeper { t with steps := others } indent (indented w step) out
  | .text piece true, _, out => by
    simp [indented, renderSteps, renderStep, String.append_assoc]
  | .text piece false, _, out => by
    simp [indented, renderSteps, renderStep]
  | .interpolation name escape strict true, _, out => by
    simp [indented, renderSteps, renderStep, interpolate_steps, String.append_assoc]
  | .interpolation name escape strict false, _, out => by
    simp [indented, renderSteps, renderStep, interpolate_steps]
  | .sectionStep name strict body delimiters steps, hfree, out => by
    have hbody := renderSteps_append_indent indent w steps hfree
    simp only [indented, renderSteps_singleton, renderStep, hbody]
  | .inverted name steps, hfree, out => by
    have hbody := renderSteps_append_indent indent w steps hfree
    simp only [indented, renderSteps_singleton, renderStep, hbody]
  | .partialStep name own, _, out => by
    simp only [indented, renderSteps_singleton, renderStep, innerIndent_append]
  | .parent name own overrides, _, out => by
    simp only [indented, renderSteps_singleton, renderStep, innerIndent_append]
  | .block _ _ _, hfree, _ => hfree.elim

theorem renderSteps_append_indent (indent w : String) :
    ∀ (steps : List Step), AllBlockFree steps → ∀ out,
      renderSteps e deeper t (indent ++ w) steps out =
        renderSteps e deeper { t with steps := others } indent (allIndented w steps) out
  | [], _, _ => rfl
  | step :: steps, hfree, out => by
    rw [allIndented, renderSteps_append, ← renderStep_append_indent indent w step hfree.1 out,
      renderSteps]
    congr 1
    funext out
    exact renderSteps_append_indent indent w steps hfree.2 out

end

theorem renderLevels_append_indent (levels : Nat) (indent w : String) {steps : List Step}
    (hfree : AllBlockFree steps) (out : String) :
    renderLevels e levels t (indent ++ w) steps out =
      renderLevels e levels { t with steps := others } indent (allIndented w steps) out := by
  cases levels with
  | zero => rfl
  | succ n => exact renderSteps_append_indent e (renderLevels e n) t others indent w steps hfree out

/-- **A partial that gets an indent puts out what its tree does with the indent written in**, at
any depth, whatever the data are and whatever is called. -/
theorem renderLevels_indented {options : CompileOptions} {name source : String}
    {tree : List Node} (htree : ∀ n : Node, n.In tree → n.isOrdinary = true) {p : Template}
    (hp : Template.compile options name source tree = .ok p) {w : String}
    (hw : Template.endsInNewline w = false) :
    ∃ p', Template.compile options name source (Node.allIndented w true tree).1 = .ok p' ∧
      ∀ levels indent out, renderLevels e levels p (indent ++ w) p.steps out =
        renderLevels e levels p' indent p'.steps out := by
  unfold Template.compile at hp
  split at hp
  · rename_i steps walk hsteps
    obtain ⟨hfree, -, hrun⟩ :=
      Template.compileNodes_indented source.toList options.strictVariables hw tree htree hsteps
    obtain rfl := Except.ok.inj hp
    refine ⟨⟨name, options.key, source, options.escape, options.strictCallables,
      allIndented w steps⟩, ?_, fun levels indent out => ?_⟩
    · unfold Template.compile StateT.run
      rw [hrun]
    · exact renderLevels_append_indent e _ (allIndented w steps) levels indent w hfree out
  · cases hp

end Render

end Mustache
