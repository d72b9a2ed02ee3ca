import Mustache.Proofs.Reindent
import Mustache.Render

/-!
The characters that a template puts out. They come from its texts and indents, and from values
that are escaped or not; moving text to another indent adds none but those of the indent.
-/

namespace Mustache

/-- Every character of the text has `ok`. -/
def MadeOf (ok : Char → Prop) (text : String) : Prop := ∀ c ∈ text.toList, ok c

section

variable {ok : Char → Prop}

theorem madeOf_empty : MadeOf ok "" := fun _ hc => nomatch hc

theorem madeOf_ofList {cs : List Char} : MadeOf ok (String.ofList cs) ↔ ∀ c ∈ cs, ok c := by
  unfold MadeOf
  rw [String.toList_ofList]

theorem MadeOf.append {a b : String} (ha : MadeOf ok a) (hb : MadeOf ok b) :
    MadeOf ok (a ++ b) := by
  unfold MadeOf
  rw [String.toList_append]
  exact List.forall_mem_append.mpr ⟨ha, hb⟩

theorem MadeOf.ite {p : Prop} [Decidable p] {a b : String} (ha : MadeOf ok a) (hb : MadeOf ok b) :
    MadeOf ok (if p then a else b) := by
  split
  · exact ha
  · exact hb

end

/-! ### Steps -/

/-- What the step puts out of its own has `ok`, and so has what it is put in for a value. -/
inductive Step.Prints (ok : Char → Prop) : Step → Prop
  | text {text : String} {lineStart : Bool} (h : MadeOf ok text) : Prints ok (.text text lineStart)
  | interpolation {name : Name} {escape strict lineStart : Bool}
      (h : escape = false → ∀ c, ok c) : Prints ok (.interpolation name escape strict lineStart)
  | sectionStep {name : Name} {strict : Bool} {body : String} {delimiters : Delimiters}
      {steps : List Step} (h : ∀ step ∈ steps, Prints ok step) :
      Prints ok (.sectionStep name strict body delimiters steps)
  | inverted {name : Name} {steps : List Step} (h : ∀ step ∈ steps, Prints ok step) :
      Prints ok (.inverted name steps)
  | partialStep {name : PartialName} {indent : Option String}
      (h : ∀ own ∈ indent, MadeOf ok own) : Prints ok (.partialStep name indent)
  | parent {name : String} {indent : Option String} {overrides : List (Override Step)}
      (h : ∀ own ∈ indent, MadeOf ok own)
      (hoverrides : ∀ o ∈ overrides, ∀ step ∈ o.steps, Prints ok step) :
      Prints ok (.parent name indent overrides)
  | block {name : String} {indent : Option String} {steps : List Step}
      (h : ∀ own ∈ indent, MadeOf ok own) (hsteps : ∀ step ∈ steps, Prints ok step) :
      Prints ok (.block name indent steps)

/-- Host objects are not called, and all that the steps put out has `ok`, escaped values
included. -/
structure Template.Prints (ok : Char → Prop) (t : Template) : Prop where
  strict : t.strictCallables = true
  escaped : ∀ text, MadeOf ok (t.escape.apply text)
  steps : ∀ step ∈ t.steps, step.Prints ok

mutual

theorem Step.prints_of_forall {ok : Char → Prop} (h : ∀ c, ok c) : ∀ step : Step, step.Prints ok
  | .text _ _ => .text fun c _ => h c
  | .interpolation .. => .interpolation fun _ => h
  | .sectionStep _ _ _ _ steps => .sectionStep (Step.all_print_of_forall h steps)
  | .inverted _ steps => .inverted (Step.all_print_of_forall h steps)
  | .partialStep .. => .partialStep fun _ _ c _ => h c
  | .parent _ _ overrides =>
    .parent (fun _ _ c _ => h c) (Step.overrides_print_of_forall h overrides)
  | .block _ _ steps => .block (fun _ _ c _ => h c) (Step.all_print_of_forall h steps)

theorem Step.all_print_of_forall {ok : Char → Prop} (h : ∀ c, ok c) :
    ∀ steps : List Step, ∀ step ∈ steps, step.Prints ok
  | [] => fun _ hmem => nomatch hmem
  | step :: steps =>
    List.forall_mem_cons.mpr ⟨Step.prints_of_forall h step, Step.all_print_of_forall h steps⟩

theorem Step.overrides_print_of_forall {ok : Char → Prop} (h : ∀ c, ok c) :
    ∀ overrides : List (Override Step), ∀ o ∈ overrides, ∀ step ∈ o.steps, step.Prints ok
  | [] => fun _ hmem => nomatch hmem
  | ⟨_, _, steps⟩ :: overrides =>
    List.forall_mem_cons.mpr
      ⟨Step.all_print_of_forall h steps, Step.overrides_print_of_forall h overrides⟩

end

/-! ### Indents and overrides -/

namespace Render

variable {ok : Char → Prop}

theorem madeOf_innerIndent {own : Option String} {indent : String}
    (hown : ∀ o ∈ own, MadeOf ok o) (hindent : MadeOf ok indent) :
    MadeOf ok (innerIndent own indent) := by
  cases own with
  | none => exact madeOf_empty
  | some own => exact hindent.append (hown own rfl)

theorem prints_of_findOverride? {frames : List (List (Override Step))} {name : String}
    {o : Override Step} (hframes : ∀ os ∈ frames, ∀ o ∈ os, ∀ step ∈ o.steps, step.Prints ok)
    (h : findOverride? frames name = some o) : ∀ step ∈ o.steps, step.Prints ok := by
  obtain ⟨os, hos, hfind⟩ := List.exists_of_findSome?_eq_some h
  exact hframes os (List.mem_reverse.mp hos) o (List.mem_of_find?_eq_some hfind)

theorem madeOf_placeOverride {site : Option String} {dedent : Bool} {indent body out : String}
    (hnewline : ok '\n') (hsite : ∀ own ∈ site, MadeOf ok own) (hindent : MadeOf ok indent)
    (hbody : MadeOf ok body) (hout : MadeOf ok out) :
    MadeOf ok (placeOverride site dedent indent body out) := by
  have hmoved : ∀ strip (indent : String) first, MadeOf ok indent →
      MadeOf ok (String.ofList (Reindent.move strip indent.toList first body.toList)) := by
    intro strip indent first hindent
    rw [madeOf_ofList]
    intro c hc
    rcases Reindent.mem_of_mem_move hc with hc | hc
    · exact hindent c hc
    · exact hbody c hc
  have hend : MadeOf ok "\n" := by
    intro c hc
    rw [List.mem_singleton.mp hc]
    exact hnewline
  unfold placeOverride
  dsimp only
  cases site with
  | none => exact hout.append (hmoved _ indent _ hindent)
  | some site =>
    have hmoved := hout.append (hmoved (if dedent then Text.leadingBlanks body.toList else [])
      (indent ++ site) true (hindent.append (hsite site rfl)))
    exact MadeOf.ite hmoved (hmoved.append hend)

end Render

end Mustache
