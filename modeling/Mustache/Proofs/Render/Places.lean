import Mathlib.Logic.Relation
import Mustache.Proofs.Render.Parts

/-!
The places that a render comes to. A place is a run of steps with all that they are carried out
with, and a render goes on from one place to another: to the next step, into the body of a section
or of a block, into a partial, a parent or an override, and into the text that a callable gave.
What goes wrong at a place the render comes to goes wrong in the render, so it fails where it comes
to a strict lookup of a path that does not resolve. Main statement: `Place.Meets.fails`.
-/

namespace Mustache

/-- The path of a variable or of a section, if its lookup is strict. That of an inverted section
never is. -/
def Step.strictPath? : Step → Option String
  | .interpolation name _ true _ | .sectionStep name true .. => some name.path
  | _ => none

namespace Render

variable {σ : Type}

/-! ### Places -/

/-- Steps to be carried out, and what they are carried out with: the levels that may be entered
below, the template they are from, the indent, the output so far and the state. -/
structure Place (σ : Type) where
  levels : Nat
  template : Template
  indent : String
  steps : List Step
  out : String
  state : State σ

/-- The steps of the place carried out. -/
def Place.run (e : Engine σ) (p : Place σ) : EStateM.Result Error (State σ) String :=
  renderSteps e (renderLevels e p.levels) p.template p.indent p.steps p.out p.state

/-- The first step is a variable or a section, its lookup strict, of a path that the scopes do not
resolve. -/
def Place.Unresolved (p : Place σ) (path : String) : Prop :=
  p.steps.head?.bind Step.strictPath? = some path ∧ p.state.scopes.lookup? path = none

def State.entered (s : State σ) : State σ := { s with depth := s.depth + 1 }

section

variable (e : Engine σ) (deeper : Renderer σ)

/-- What a callable that a section is over gives. -/
def callSection (body : String) (delimiters : Delimiters) : Callable → RenderM σ Value
  | ⟨id, .unary⟩ => callUnary e deeper id (.string body) delimiters
  | ⟨id, .nullary⟩ => callNullary e id

/-- In the state `s`, rendering the text comes to the template `t`, in the state `s'`. -/
structure OpensText (text : String) (delimiters : Option Delimiters) (s : State σ) (t : Template)
    (s' : State σ) : Prop where
  opening : Text.contains (delimiters.getD e.delimiters).opening.toList text.toList
  load : onStore (e.loadLambda text delimiters) s = .ok t s'
  depth : s'.depth < e.config.maxDepth

/-- A render at the first place goes on to the second. What callables ask for while they are called
does not count. -/
inductive Advance : Place σ → Place σ → Prop
  /-- The first step is done. -/
  | next {n t indent step steps out s out' s'}
      (h : renderStep e (renderLevels e n) t indent step out s = .ok out' s') :
      Advance ⟨n, t, indent, step :: steps, out, s⟩ ⟨n, t, indent, steps, out', s'⟩
  /-- The text that calling the value of a variable gave. -/
  | called {n t indent name escape strict lineStart steps out s v s₁ result s₂ t' s'}
      (hresolve : resolve name.path strict s = .ok v s₁)
      (hcalled : called e t.strictCallables v s₁ = .ok (some result) s₂)
      (htext : OpensText e result.display none s₂ t' s') :
      Advance ⟨n + 1, t, indent, .interpolation name escape strict lineStart :: steps, out, s⟩
        ⟨n, t', "", t'.steps, "", s'.entered⟩
  /-- The text that the callable of a section gave. -/
  | answered {n t indent name strict body delimiters inner steps out s c s₁ result s₂ t' s'}
      (hvalue : sectionValue e (renderLevels e (n + 1)) name strict s = .ok (.callable c) s₁)
      (hcall : callSection e (renderLevels e (n + 1)) body delimiters c s₁ = .ok result s₂)
      (htext : OpensText e result.display (some delimiters) s₂ t' s') :
      Advance ⟨n + 1, t, indent, .sectionStep name strict body delimiters inner :: steps, out, s⟩
        ⟨n, t', "", t'.steps, "", s'.entered⟩
  /-- The body of a section, in one of its scopes. -/
  | body {n t indent name strict body delimiters inner steps out s v s₁ before scope after out' s'}
      (hvalue : sectionValue e (renderLevels e n) name strict s = .ok v s₁)
      (hplain : ∀ c, v ≠ .callable c)
      (hscopes : sectionScopes t.strictCallables v = before ++ scope :: after)
      (hbefore : before.foldlM (fun out scope =>
        inScope scope (renderSteps e (renderLevels e n) t indent inner out)) out s₁ = .ok out' s') :
      Advance ⟨n, t, indent, .sectionStep name strict body delimiters inner :: steps, out, s⟩
        ⟨n, t, indent, inner, out', { s' with scopes := scope :: s'.scopes }⟩
  | inverted {n t indent name inner steps out s v s'}
      (hvalue : sectionValue e (renderLevels e n) name false s = .ok v s')
      (hfalsy : v.truthy = false) :
      Advance ⟨n, t, indent, .inverted name inner :: steps, out, s⟩ ⟨n, t, indent, inner, out, s'⟩
  | partialStep {n t indent name own steps out s named s₁ p s'}
      (hname : partialName name s = .ok named s₁)
      (hload : onStore (e.loadPartial named) s₁ = .ok (some p) s')
      (hdepth : s'.depth < e.config.maxDepth) :
      Advance ⟨n + 1, t, indent, .partialStep name own :: steps, out, s⟩
        ⟨n, p, innerIndent own indent, p.steps, out, s'.entered⟩
  | parent {n t indent name own overrides steps out s p s'}
      (hload : onStore (e.loadPartial name) s = .ok (some p) s')
      (hdepth : s'.depth < e.config.maxDepth) :
      Advance ⟨n + 1, t, indent, .parent name own overrides :: steps, out, s⟩
        ⟨n, p, innerIndent own indent, p.steps, out,
          { s'.entered with overrides := overrides :: s'.overrides }⟩
  /-- The default text of a block that no override is for. -/
  | block {n t indent name site inner steps out s}
      (hnone : findOverride? s.overrides name = none) :
      Advance ⟨n, t, indent, .block name site inner :: steps, out, s⟩ ⟨n, t, indent, inner, out, s⟩
  /-- An override where a block stands. -/
  | override {n t indent name site inner steps out s o}
      (hfound : findOverride? s.overrides name = some o) (hplace : site.isNone ∧ !o.dedent)
      (hdepth : s.depth < e.config.maxDepth) :
      Advance ⟨n + 1, t, indent, .block name site inner :: steps, out, s⟩
        ⟨n, t, indent, o.steps, out, s.entered⟩
  /-- An override whose text is moved as a whole starts afresh. -/
  | moved {n t indent name site inner steps out s o}
      (hfound : findOverride? s.overrides name = some o) (hplace : ¬(site.isNone ∧ !o.dedent))
      (hdepth : s.depth < e.config.maxDepth) :
      Advance ⟨n + 1, t, indent, .block name site inner :: steps, out, s⟩
        ⟨n, t, "", o.steps, "", s.entered⟩

/-- A render at the place comes to a variable or a section, its lookup strict, whose path does not
resolve there. -/
def Place.Meets (p : Place σ) (path : String) : Prop :=
  ∃ q, Relation.ReflTransGen (Advance e) p q ∧ q.Unresolved path

end

variable {e : Engine σ} {p q : Place σ} {path : String}

theorem Place.Unresolved.meets (h : p.Unresolved path) : p.Meets e path := ⟨p, .refl, h⟩

theorem Advance.meets (h : Advance e p q) (hq : q.Meets e path) : p.Meets e path := by
  obtain ⟨r, hreaches, hr⟩ := hq
  exact ⟨r, .head h hreaches, hr⟩

/-! ### Failures -/

/-- It is a failure with this error, whatever the state. -/
def FailsWith (err : Error) (r : EStateM.Result Error (State σ) α) : Prop := ∃ s, r = .error err s

section

variable {α β : Type} {err : Error} {act : RenderM σ α} {s s' : State σ}

theorem FailsWith.bind (h : FailsWith err (act s)) (next : α → RenderM σ β) :
    FailsWith err ((act >>= next) s) := by
  obtain ⟨s', h⟩ := h
  exact ⟨s', bind_of_error next h⟩

theorem failsWith_bind_of_ok {a : α} {next : α → RenderM σ β} (hact : act s = .ok a s')
    (h : FailsWith err (next a s')) : FailsWith err ((act >>= next) s) := by
  rwa [bind_of_ok next hact]

theorem FailsWith.between {before back : State σ → State σ} (h : FailsWith err (act (before s))) :
    FailsWith err (between before back act s) := by
  obtain ⟨s', h⟩ := h
  exact ⟨back s', between_of_error h⟩

theorem FailsWith.entering {limit : Nat} (hdepth : s.depth < limit) (name : String)
    (h : FailsWith err (act s.entered)) : FailsWith err (entering limit name act s) := by
  rw [entering_of_lt hdepth]
  exact FailsWith.between h

theorem failsWith_foldlM {f : β → α → RenderM σ β} {before after : List α} {x : α} {b b' : β}
    (hbefore : before.foldlM f b s = .ok b' s') (h : FailsWith err (f b' x s')) :
    FailsWith err ((before ++ x :: after).foldlM f b s) := by
  rw [List.foldlM_append]
  refine failsWith_bind_of_ok hbefore ?_
  rw [List.foldlM_cons]
  exact h.bind _

end

variable {err : Error} {deeper : Renderer σ} {text : String} {delimiters : Option Delimiters}
  {s s' : State σ} {t : Template}

theorem OpensText.fails {n : Nat} (h : OpensText e text delimiters s t s')
    (hrun : FailsWith err (Place.run e ⟨n, t, "", t.steps, "", s'.entered⟩)) :
    FailsWith err (renderText e (renderLevels e (n + 1)) text delimiters s) := by
  unfold renderText
  rw [if_pos h.opening]
  exact failsWith_bind_of_ok h.load (hrun.entering h.depth t.name)

theorem sectionStep_eq {name : Name} {strict : Bool} {body : String} {delimiters : Delimiters}
    {inner : List Step} {indent out : String} :
    renderStep e deeper t indent (.sectionStep name strict body delimiters inner) out =
      sectionValue e deeper name strict >>= fun v => match v with
        | .callable c => do
          let result ← callSection e deeper body delimiters c
          return out ++ (← renderText e deeper result.display (some delimiters))
        | v => (sectionScopes t.strictCallables v).foldlM
            (fun out scope => inScope scope (renderSteps e deeper t indent inner out)) out := by
  rw [renderStep, sectionValue, bind_assoc]
  refine bind_congr fun v => bind_congr fun v => ?_
  split
  · rfl
  · rfl
  · rename_i hunary hnullary
    split
    · rename_i c
      obtain ⟨id, _ | _⟩ := c
      · exact absurd rfl (hnullary id)
      · exact absurd rfl (hunary id)
    · rfl

theorem inverted_eq {name : Name} {inner : List Step} {indent out : String} :
    renderStep e deeper t indent (.inverted name inner) out =
      sectionValue e deeper name false >>= fun v =>
        if v.truthy then return out else renderSteps e deeper t indent inner out := by
  rw [renderStep, sectionValue, bind_assoc]

theorem FailsWith.interpolation {name : Name} {escape strict lineStart : Bool} {indent out : String}
    {s₁ s₂ : State σ} {v result : Value} (hresolve : resolve name.path strict s = .ok v s₁)
    (hcalled : called e t.strictCallables v s₁ = .ok (some result) s₂)
    (h : FailsWith err (renderText e deeper result.display none s₂)) :
    FailsWith err
      (renderStep e deeper t indent (.interpolation name escape strict lineStart) out s) := by
  rw [renderStep]
  refine FailsWith.bind ?_ _
  unfold interpolate
  refine failsWith_bind_of_ok hresolve (failsWith_bind_of_ok hcalled ?_)
  dsimp only
  rw [map_eq_pure_bind]
  exact (h.bind _).bind _

theorem FailsWith.step {n : Nat} {indent out : String} {step : Step} {steps : List Step}
    (h : FailsWith err (renderStep e (renderLevels e n) t indent step out s)) :
    FailsWith err (Place.run e ⟨n, t, indent, step :: steps, out, s⟩) := by
  unfold Place.run
  rw [renderSteps]
  exact h.bind _

/-- What fails at a place makes the place in front of it fail with the same error. -/
theorem fails_of_advance (h : Advance e p q) (hq : FailsWith err (q.run e)) :
    FailsWith err (p.run e) := by
  cases h with
  | next h =>
    unfold Place.run
    rw [renderSteps]
    exact failsWith_bind_of_ok h hq
  | called hresolve hcalled htext =>
    have hrun := htext.fails hq
    exact (hrun.interpolation hresolve hcalled).step
  | answered hvalue hcall htext =>
    refine FailsWith.step ?_
    rw [sectionStep_eq]
    refine failsWith_bind_of_ok hvalue (failsWith_bind_of_ok hcall ?_)
    exact (htext.fails hq).bind _
  | body hvalue hplain hscopes hbefore =>
    refine FailsWith.step ?_
    rw [sectionStep_eq]
    refine failsWith_bind_of_ok hvalue ?_
    split
    · exact absurd rfl (hplain _)
    · rw [hscopes]
      exact failsWith_foldlM hbefore hq.between
  | inverted hvalue hfalsy =>
    refine FailsWith.step ?_
    rw [inverted_eq]
    refine failsWith_bind_of_ok hvalue ?_
    rw [hfalsy]
    exact hq
  | partialStep hname hload hdepth =>
    refine FailsWith.step ?_
    rw [renderStep]
    refine failsWith_bind_of_ok hname (failsWith_bind_of_ok hload ?_)
    exact FailsWith.entering hdepth _ hq
  | parent hload hdepth =>
    refine FailsWith.step ?_
    rw [renderStep]
    refine failsWith_bind_of_ok hload ?_
    exact FailsWith.entering hdepth _ hq.between
  | block hnone =>
    refine FailsWith.step ?_
    rw [renderStep]
    refine failsWith_bind_of_ok (get_eq _) ?_
    rw [hnone]
    exact hq
  | override hfound hplace hdepth =>
    refine FailsWith.step ?_
    rw [renderStep]
    refine failsWith_bind_of_ok (get_eq _) ?_
    rw [hfound]
    dsimp only
    unfold renderOverride
    rw [if_pos hplace]
    exact FailsWith.entering hdepth _ hq
  | moved hfound hplace hdepth =>
    refine FailsWith.step ?_
    rw [renderStep]
    refine failsWith_bind_of_ok (get_eq _) ?_
    rw [hfound]
    dsimp only
    unfold renderOverride
    rw [if_neg hplace]
    exact (FailsWith.entering hdepth _ hq).bind _

/-- What fails at a place that a render comes to fails in the render, with the same error. -/
theorem fails_of_reaches (h : Relation.ReflTransGen (Advance e) p q)
    (hq : FailsWith err (q.run e)) : FailsWith err (p.run e) := by
  induction h using Relation.ReflTransGen.head_induction_on with
  | refl => exact hq
  | head hadvance _ ih => exact fails_of_advance hadvance ih

theorem Place.Unresolved.fails (h : p.Unresolved path) :
    FailsWith (.unknownVariable path) (p.run e) := by
  obtain ⟨n, t, indent, steps, out, s⟩ := p
  obtain ⟨hhead, hnone⟩ := h
  have hresolve : FailsWith (.unknownVariable path) (resolve path true s) := by
    unfold resolve Scopes.resolve
    rw [bind_of_ok _ (get_eq s), hnone]
    exact ⟨s, rfl⟩
  obtain ⟨step, hstep, hpath⟩ := Option.bind_eq_some_iff.mp hhead
  obtain ⟨rest, rfl⟩ := List.head?_eq_some_iff.mp hstep
  refine FailsWith.step ?_
  unfold Step.strictPath? at hpath
  split at hpath
  · obtain rfl := Option.some.inj hpath
    rw [renderStep]
    unfold interpolate
    exact (hresolve.bind _).bind _
  · obtain rfl := Option.some.inj hpath
    rw [renderStep]
    exact hresolve.bind _
  · cases hpath

/-- **A render fails where it comes to a strict lookup of a path that does not resolve**, and says
so of this path. -/
theorem Place.Meets.fails (h : p.Meets e path) :
    FailsWith (.unknownVariable path) (p.run e) := by
  obtain ⟨q, hreaches, hq⟩ := h
  exact fails_of_reaches hreaches hq.fails

end Render

end Mustache
