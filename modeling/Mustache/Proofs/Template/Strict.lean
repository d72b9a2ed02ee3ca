import Mustache.Template

/-!
Templates under strict variables. Strictness is settled for each tag while a template is compiled,
and it is the one thing in a template that the option has a part in: under strict variables a
source compiles to the same steps, with all lookups of variables and sections strict. Main
statement: `compile_strict`.
-/

namespace Mustache

namespace Step

mutual

/-- The step with the lookups of its variables and sections strict. -/
def strict : Step → Step
  | .text s lineStart => .text s lineStart
  | .interpolation name escape _ lineStart => .interpolation name escape true lineStart
  | .sectionStep name _ body delimiters steps =>
    .sectionStep name true body delimiters (strictAll steps)
  | .inverted name steps => .inverted name (strictAll steps)
  | .partialStep name indent => .partialStep name indent
  | .parent name indent overrides => .parent name indent (strictOverrides overrides)
  | .block name indent steps => .block name indent (strictAll steps)

def strictAll : List Step → List Step
  | [] => []
  | step :: steps => strict step :: strictAll steps

def strictOverrides : List (Override Step) → List (Override Step)
  | [] => []
  | ⟨name, dedent, steps⟩ :: os => ⟨name, dedent, strictAll steps⟩ :: strictOverrides os

end

theorem strictAll_append (steps others : List Step) :
    strictAll (steps ++ others) = strictAll steps ++ strictAll others := by
  induction steps with
  | nil => rfl
  | cons step steps ih => rw [List.cons_append, strictAll, strictAll, ih, List.cons_append]

end Step

/-- The override with the lookups in its steps strict. -/
def Override.strict (o : Override Step) : Override Step :=
  { o with steps := Step.strictAll o.steps }

theorem Step.strictOverrides_eq_map (os : List (Override Step)) :
    strictOverrides os = os.map Override.strict := by
  induction os with
  | nil => rfl
  | cons o os ih => rw [strictOverrides, ih]; rfl

namespace Template

/-- The second template differs from the first in its key at most, and in that all lookups of
variables and sections in it are strict. -/
def Strict (t t' : Template) : Prop :=
  t' = { t with key := t'.key, steps := Step.strictAll t.steps }

namespace Strict

variable {t t' : Template} (h : Strict t t')

include h

theorem name : t'.name = t.name := by rw [h]

theorem escape : t'.escape = t.escape := by rw [h]

theorem strictCallables : t'.strictCallables = t.strictCallables := by rw [h]

theorem steps : t'.steps = Step.strictAll t.steps := by rw [h]

end Strict

section

variable (source : List Char) (strictVariables : Bool)

mutual

theorem compileNode_strict : ∀ n : Node, compileNode source true n =
    Step.strictAll <$> compileNode source strictVariables n
  | .text text => by
    simp only [compileNode, map_bind, map_pure]
    rfl
  | .interpolation name escape line => by
    simp only [compileNode, map_bind, map_pure]
    rfl
  | .sectionNode name false children start stop delimiters line => by
    simp only [compileNode, compileNodes_strict children, map_bind, bind_map_left, map_pure]
    rfl
  | .sectionNode name true children start stop delimiters line => by
    simp only [compileNode, compileNodes_strict children, map_bind, bind_map_left, map_pure]
    rfl
  | .partialNode name dynamic indent line => by
    simp only [compileNode, map_pure]
    rfl
  | .parent name indent blocks line => by
    simp only [compileNode, compileOverrides_strict name line blocks, map_bind, bind_map_left,
      map_pure]
    rfl
  | .block name children indent line => by
    simp only [compileNode, compileNodes_strict children, map_bind, bind_map_left, map_pure]
    rfl
  | .pragma name line => by
    simp only [compileNode, map_bind, map_pure]
    rfl

theorem compileNodes_strict : ∀ ns : List Node, compileNodes source true ns =
    Step.strictAll <$> compileNodes source strictVariables ns
  | [] => by
    simp only [compileNodes, map_pure]
    rfl
  | n :: ns => by
    simp only [compileNodes, compileNode_strict n, compileNodes_strict ns, map_bind,
      bind_map_left, map_pure, Step.strictAll_append]

theorem compileOverrides_strict (parent : String) (line : Nat) : ∀ ns : List Node,
    compileOverrides source true parent line ns =
      Step.strictOverrides <$> compileOverrides source strictVariables parent line ns
  | [] => by
    simp only [compileOverrides, map_pure]
    rfl
  | .block name children indent line' :: ns => by
    simp only [compileOverrides, compileNodes_strict children,
      compileOverrides_strict parent line ns, map_bind, bind_map_left, map_pure]
    rfl
  | .text _ :: _ | .interpolation .. :: _ | .sectionNode .. :: _ | .partialNode .. :: _
  | .parent .. :: _ | .pragma .. :: _ => rfl

end

end

/-- **Strict variables make lookups strict and change nothing else**: a tree compiles under them to
the strict form of what it compiles to without, or fails in the same way. -/
theorem compile_strict (options : CompileOptions) (key name source : String) (tree : List Node) :
    compile { options with strictVariables := true, key } name source tree =
      (fun t => { t with key, steps := Step.strictAll t.steps }) <$>
        compile options name source tree := by
  unfold compile
  rw [compileNodes_strict source.toList options.strictVariables tree, StateT.run_map]
  cases (compileNodes source.toList options.strictVariables tree).run ⟨options.pragmas, true⟩ <;>
    rfl

end Template

end Mustache
