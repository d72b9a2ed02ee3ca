import Mustache.Proofs.Node.Indented
import Mustache.Proofs.Render.Indent
import Mustache.Proofs.Template.Joined

/-!
Templates of sources with an indent in front of each line. Main statement:
`exists_compileNodes_indents`.
-/

namespace Mustache

/-! ### Steps -/

namespace Step

/-- The second steps are the first ones with an indent in front of each line, from one margin to
another. Bodies as texts may be any. -/
inductive Indents (w : String) : Margin → List Step → List Step → Margin → Prop
  | nil {k : Margin} : Indents w k [] [] k
  | margin {steps steps' : List Step} {m : Margin} (h : Indents w .written steps steps' m) :
      Indents w .ahead steps (.text w true :: steps') m
  | text {k m : Margin} {steps steps' : List Step} (text : String)
      (h : Indents w (.after text) steps steps' m) :
      Indents w k (.text text k.first :: steps) (.text (k.piece w text) k.second :: steps') m
  | interpolation {k m : Margin} {steps steps' : List Step} (hk : k ≠ .ahead) (name : Name)
      (escape strict : Bool) (h : Indents w .behind steps steps' m) :
      Indents w k (.interpolation name escape strict k.first :: steps)
        (.interpolation name escape strict k.second :: steps') m
  | sectionStep {k k' m : Margin} {inner inner' steps steps' : List Step} (hk : k ≠ .written)
      (hk' : k' ≠ .written) (name : Name) (strict : Bool) (body body' : String) (d : Delimiters)
      (hinner : Indents w k inner inner' k') (h : Indents w k' steps steps' m) :
      Indents w k (.sectionStep name strict body d inner :: steps)
        (.sectionStep name strict body' d inner' :: steps') m
  | inverted {k k' m : Margin} {inner inner' steps steps' : List Step} (hk : k ≠ .written)
      (hk' : k' ≠ .written) (name : Name) (hinner : Indents w k inner inner' k')
      (h : Indents w k' steps steps' m) :
      Indents w k (.inverted name inner :: steps) (.inverted name inner' :: steps') m
  | partialStep {k m : Margin} {steps steps' : List Step} (hk : k ≠ .written) (name : PartialName)
      (own : Option String) (h : Indents w k steps steps' m) :
      Indents w k (.partialStep name own :: steps)
        (.partialStep name (own.map (w ++ ·)) :: steps') m

end Step

/-! ### From nodes to steps -/

namespace Template

section

variable {source : List Char} {strictVariables : Bool} {walk mid last : Walk}

theorem compileNodes_cons_of_ok {n : Node} {ns : List Node} {front steps : List Step}
    (h : compileNode source strictVariables n walk = .ok (front, mid))
    (hrest : compileNodes source strictVariables ns mid = .ok (steps, last)) :
    compileNodes source strictVariables (n :: ns) walk = .ok (front ++ steps, last) :=
  bind_eq_ok.mpr ⟨front, mid, h, bind_eq_ok.mpr ⟨steps, last, hrest, rfl⟩⟩

theorem compileNode_section_of_ok {children : List Node} {inner : List Step}
    (h : compileNodes source strictVariables children walk = .ok (inner, mid)) (name : String)
    (start stop : Nat) (d : Delimiters) (line : Nat) :
    compileNode source strictVariables (.sectionNode name false children start stop d line) walk =
      .ok ([.sectionStep (Name.parse walk.pragmas.filters name)
        (strictVariables || walk.pragmas.strictVariables) (bodyText source start stop) d inner],
        mid) :=
  bind_eq_ok.mpr ⟨walk, walk, rfl, bind_eq_ok.mpr ⟨inner, mid, h, rfl⟩⟩

theorem compileNode_inverted_of_ok {children : List Node} {inner : List Step}
    (h : compileNodes source strictVariables children walk = .ok (inner, mid)) (name : String)
    (start stop : Nat) (d : Delimiters) (line : Nat) :
    compileNode source strictVariables (.sectionNode name true children start stop d line) walk =
      .ok ([.inverted (Name.parse walk.pragmas.filters name) inner], mid) :=
  bind_eq_ok.mpr ⟨walk, walk, rfl, bind_eq_ok.mpr ⟨inner, mid, h, rfl⟩⟩

end

theorem endsInNewline_piece {w : String} (hw : endsInNewline w = false) (k : Margin)
    (text : String) : endsInNewline (k.piece w text) = endsInNewline text := by
  cases k with
  | ahead => exact endsInNewline_append hw text
  | written => rfl
  | behind => rfl

/-- Nodes with an indent in front of each line are compiled to steps with one. -/
theorem exists_compileNodes_indents {w : String} (hw : endsInNewline w = false) {k m : Margin}
    {ns ns' : List Node} (h : Node.Indents w k ns ns' m) (source source' : List Char)
    (strictVariables : Bool) (s : PragmaSet) : ∃ steps steps' s',
      compileNodes source strictVariables ns ⟨s, k.first⟩ = .ok (steps, ⟨s', m.first⟩) ∧
      compileNodes source' strictVariables ns' ⟨s, k.second⟩ = .ok (steps', ⟨s', m.second⟩) ∧
      Step.Indents w k steps steps' m := by
  induction h generalizing s with
  | nil => exact ⟨[], [], s, rfl, rfl, .nil⟩
  | margin h ih =>
    obtain ⟨steps, steps', s', hrun, hrun', hsteps⟩ := ih s
    have htext : compileNode source' strictVariables (.text w) ⟨s, true⟩ =
        .ok ([.text w true], ⟨s, false⟩) := by
      rw [← hw]
      rfl
    exact ⟨steps, _, s', hrun, compileNodes_cons_of_ok htext hrun', .margin hsteps⟩
  | @text k m ns ns' text h ih =>
    obtain ⟨steps, steps', s', hrun, hrun', hsteps⟩ := ih s
    rw [Margin.first_after] at hrun
    rw [Margin.second_after, ← endsInNewline_piece hw k] at hrun'
    exact ⟨_, _, s', compileNodes_cons_of_ok rfl hrun, compileNodes_cons_of_ok rfl hrun',
      .text text hsteps⟩
  | interpolation hk name escape line h ih =>
    obtain ⟨steps, steps', s', hrun, hrun', hsteps⟩ := ih s
    exact ⟨_, _, s', compileNodes_cons_of_ok rfl hrun, compileNodes_cons_of_ok rfl hrun',
      .interpolation hk _ escape _ hsteps⟩
  | sectionNode hk hk' name inverted start start' stop stop' d line _ _ ihinner ih =>
    obtain ⟨inner, inner', s₁, hinner, hinner', hbodies⟩ := ihinner s
    obtain ⟨steps, steps', s', hrun, hrun', hsteps⟩ := ih s₁
    cases inverted with
    | false =>
      exact ⟨_, _, s',
        compileNodes_cons_of_ok (compileNode_section_of_ok hinner name start stop d line) hrun,
        compileNodes_cons_of_ok (compileNode_section_of_ok hinner' name start' stop' d line) hrun',
        .sectionStep hk hk' _ _ _ _ d hbodies hsteps⟩
    | true =>
      exact ⟨_, _, s',
        compileNodes_cons_of_ok (compileNode_inverted_of_ok hinner name start stop d line) hrun,
        compileNodes_cons_of_ok (compileNode_inverted_of_ok hinner' name start' stop' d line) hrun',
        .inverted hk hk' _ hbodies hsteps⟩
  | partialNode hk name dynamic own line h ih =>
    obtain ⟨steps, steps', s', hrun, hrun', hsteps⟩ := ih s
    exact ⟨_, _, s', compileNodes_cons_of_ok rfl hrun, compileNodes_cons_of_ok rfl hrun',
      .partialStep hk _ own hsteps⟩
  | pragma name line h ih =>
    obtain ⟨steps, steps', s', hrun, hrun', hsteps⟩ := ih (s.enable name)
    exact ⟨_, _, s', compileNodes_cons_of_ok rfl hrun, compileNodes_cons_of_ok rfl hrun', hsteps⟩

end Template

end Mustache
