import Mustache.Proofs.Render.Places
import Mustache.Proofs.Render.Restore

/-!
The overrides in force at each place that a render comes to, the texts included that callables ask
for while they are called: those of the parent tags that are being expanded there, and no others.
What a tag, a section or a callable that is done with had in force is gone. Main statement:
`Expanding.overrides_eq`.
-/

namespace Mustache

namespace Render

variable {σ α β : Type}

/-! ### What callables ask for -/

section

variable (e : Engine σ) (deeper : Renderer σ)

/-- Carrying out a call in the state `s` comes to a text that the callable asks for, in the state
`s'`. -/
inductive Asks (delimiters : Delimiters) : Act σ → State σ → String → State σ → Prop
  | first {text w next s} : Asks delimiters (.render text w next) s text (setWorld w s)
  | later {text w next s out r asked s'}
      (htext : renderText e deeper text (some delimiters) (setWorld w s) = .ok out r)
      (hasks : Asks delimiters (next (.ok out) r.store.world) r asked s') :
      Asks delimiters (.render text w next) s asked s'
  /-- The callable goes on after a failure. -/
  | afterFailure {text w next s err r asked s'}
      (htext : renderText e deeper text (some delimiters) (setWorld w s) = .error err r)
      (hasks : Asks delimiters (next (.error err) r.store.world) r asked s') :
      Asks delimiters (.render text w next) s asked s'

/-- Sending the value `v` through filters comes to a call, which is to be carried out in the state
`s'`. -/
inductive FilterCalls (v : Value) (s : State σ) : List String → Act σ → State σ → Prop
  | intro {before name after u s₁ id s'}
      (hbefore : before.foldlM (applyFilter e deeper) v s = .ok u s₁)
      (hresolve : resolve name false s₁ = .ok (.callable ⟨id, .unary⟩) s') :
      FilterCalls v s (before ++ name :: after) (e.host.unary id u e.delimiters s'.store.world) s'

/-- Carrying out a step comes to a call of a callable under these delimiters, in the state `s'`. -/
inductive StepCalls (t : Template) (s : State σ) : Step → Delimiters → Act σ → State σ → Prop
  | interpolation {name escape strict lineStart v s₁ s₂ act s'}
      (hresolve : resolve name.path strict s = .ok v s₁)
      (hcalled : called e t.strictCallables v s₁ = .ok none s₂)
      (hfilter : FilterCalls e deeper v s₂ name.filters act s') :
      StepCalls t s (.interpolation name escape strict lineStart) e.delimiters act s'
  /-- What calling the value gave is rendered before filters see it. -/
  | calledInterpolation {name escape strict lineStart v s₁ result s₂ text s₃ act s'}
      (hresolve : resolve name.path strict s = .ok v s₁)
      (hcalled : called e t.strictCallables v s₁ = .ok (some result) s₂)
      (htext : renderText e deeper result.display none s₂ = .ok text s₃)
      (hfilter : FilterCalls e deeper (.string text) s₃ name.filters act s') :
      StepCalls t s (.interpolation name escape strict lineStart) e.delimiters act s'
  | sectionName {name strict body delimiters inner v s₁ act s'}
      (hresolve : resolve name.path strict s = .ok v s₁)
      (hfilter : FilterCalls e deeper v s₁ name.filters act s') :
      StepCalls t s (.sectionStep name strict body delimiters inner) e.delimiters act s'
  | sectionBody {name strict body delimiters inner id s'}
      (hvalue : sectionValue e deeper name strict s = .ok (.callable ⟨id, .unary⟩) s') :
      StepCalls t s (.sectionStep name strict body delimiters inner) delimiters
        (e.host.unary id (.string body) delimiters s'.store.world) s'
  | inverted {name inner v s₁ act s'} (hresolve : resolve name.path false s = .ok v s₁)
      (hfilter : FilterCalls e deeper v s₁ name.filters act s') :
      StepCalls t s (.inverted name inner) e.delimiters act s'

/-- A render goes on to a place, or a callable that it calls asks for a text there. -/
inductive Visits (e : Engine σ) : Place σ → Place σ → Prop
  | advance {p q} (h : Advance e p q) : Visits e p q
  | asked {n t indent step steps out s delimiters act s₁ text s₂ t' s'}
      (hcalls : StepCalls e (renderLevels e (n + 1)) t s step delimiters act s₁)
      (hasks : Asks e (renderLevels e (n + 1)) delimiters act s₁ text s₂)
      (htext : OpensText e text (some delimiters) s₂ t' s') :
      Visits e ⟨n + 1, t, indent, step :: steps, out, s⟩ ⟨n, t', "", t'.steps, "", s'.entered⟩

end

/-! ### Parent tags that are being expanded -/

section

variable (e : Engine σ)

/-- The first step is a parent tag with these overrides, and the render goes on into its template. -/
inductive Expands : Place σ → List (Override Step) → Place σ → Prop
  | intro {n t indent name own overrides steps out s p s'}
      (hload : onStore (e.loadPartial name) s = .ok (some p) s')
      (hdepth : s'.depth < e.config.maxDepth) :
      Expands ⟨n + 1, t, indent, .parent name own overrides :: steps, out, s⟩ overrides
        ⟨n, p, innerIndent own indent, p.steps, out,
          { s'.entered with overrides := overrides :: s'.overrides }⟩

/-- A render from `p` comes to a place, and the overrides of the parent tags that it is then about
to expand are these, innermost first. -/
inductive Expanding (p : Place σ) : Place σ → List (List (Override Step)) → Prop
  | start : Expanding p p []
  | into {q r frames overrides} (h : Expanding p q frames) (hexpands : Expands e q overrides r) :
      Expanding p r (overrides :: frames)
  | onward {q r frames} (h : Expanding p q frames) (hvisits : Visits e q r)
      (hnot : ∀ overrides, ¬ Expands e q overrides r) : Expanding p r frames

end

variable {e : Engine σ} {n : Nat} {p q r : Place σ} {s s' : State σ}
  {frames : List (List (Override Step))}

/-- Every place that a render comes to is one with some parent tags being expanded. -/
theorem exists_expanding (h : Relation.ReflTransGen (Visits e) p q) :
    ∃ frames, Expanding e p q frames := by
  induction h with
  | refl => exact ⟨[], .start⟩
  | @tail q r _ hvisits ih =>
    obtain ⟨frames, hq⟩ := ih
    by_cases hexpands : ∃ overrides, Expands e q overrides r
    · obtain ⟨overrides, hexpands⟩ := hexpands
      exact ⟨overrides :: frames, hq.into hexpands⟩
    · exact ⟨frames, hq.onward hvisits fun overrides h => hexpands ⟨overrides, h⟩⟩

/-! ### Overrides in force -/

theorem Restores.of_ok {act : RenderM σ α} {a : α} (h : Restores act) (hrun : act s = .ok a s') :
    SamePlace s s' := by
  have hplace := h s
  rwa [after_of_ok hrun] at hplace

theorem Restores.of_error {act : RenderM σ α} {err : Error} (h : Restores act)
    (hrun : act s = .error err s') : SamePlace s s' := by
  have hplace := h s
  rwa [after_of_error hrun] at hplace

theorem samePlace_setWorld (w : σ) (s : State σ) : SamePlace s (setWorld w s) := ⟨rfl, rfl, rfl⟩

section

variable (e n)

theorem restores_renderLevels (t : Template) (indent : String) (steps : List Step) (out : String) :
    Restores (renderLevels e n t indent steps out) :=
  (compositional_restores e).renderLevels n t indent steps out

theorem restores_callSection (body : String) (delimiters : Delimiters) (c : Callable) :
    Restores (callSection e (renderLevels e n) body delimiters c) := by
  obtain ⟨id, _ | _⟩ := c
  · exact (compositional_restores e).callNullary id
  · exact (compositional_restores e).callUnary (restores_renderLevels e n) id _ delimiters

theorem restores_filters (filters : List String) (v : Value) :
    Restores (filters.foldlM (applyFilter e (renderLevels e n)) v) :=
  (compositional_restores e).applyFilters (restores_renderLevels e n) filters v

end

theorem OpensText.samePlace {text : String} {delimiters : Option Delimiters} {t : Template}
    (h : OpensText e text delimiters s t s') : SamePlace s s' :=
  (restores_onStore _).of_ok h.load

theorem Asks.samePlace {delimiters : Delimiters} {act : Act σ} {text : String}
    (h : Asks e (renderLevels e n) delimiters act s text s') : SamePlace s s' := by
  have hrestores := fun text =>
    (compositional_restores e).renderText (restores_renderLevels e n) text (some delimiters)
  induction h with
  | first => exact samePlace_setWorld _ _
  | later htext _ ih =>
    exact ((samePlace_setWorld _ _).trans ((hrestores _).of_ok htext)).trans ih
  | afterFailure htext _ ih =>
    exact ((samePlace_setWorld _ _).trans ((hrestores _).of_error htext)).trans ih

theorem FilterCalls.samePlace {v : Value} {filters : List String} {act : Act σ}
    (h : FilterCalls e (renderLevels e n) v s filters act s') : SamePlace s s' := by
  cases h with
  | intro hbefore hresolve =>
    exact ((restores_filters e n _ v).of_ok hbefore).trans
      (((compositional_restores e).resolve _ false).of_ok hresolve)

theorem StepCalls.samePlace {t : Template} {step : Step} {delimiters : Delimiters} {act : Act σ}
    (h : StepCalls e (renderLevels e n) t s step delimiters act s') : SamePlace s s' := by
  have hresolves := (compositional_restores e).resolve
  have hcalls := (compositional_restores e).called
  cases h with
  | interpolation hresolve hcalled hfilter =>
    exact (((hresolves _ _).of_ok hresolve).trans ((hcalls _ _).of_ok hcalled)).trans
      hfilter.samePlace
  | calledInterpolation hresolve hcalled htext hfilter =>
    have hrendered := ((compositional_restores e).renderText (restores_renderLevels e n) _
      none).of_ok htext
    exact ((((hresolves _ _).of_ok hresolve).trans ((hcalls _ _).of_ok hcalled)).trans
      hrendered).trans hfilter.samePlace
  | sectionName hresolve hfilter => exact ((hresolves _ _).of_ok hresolve).trans hfilter.samePlace
  | sectionBody hvalue => exact (restores_sectionValue (restores_renderLevels e n) _ _).of_ok hvalue
  | inverted hresolve hfilter => exact ((hresolves _ _).of_ok hresolve).trans hfilter.samePlace

/-- Wherever a render goes on to, it takes the overrides along, and adds those of a parent tag that
it goes into. -/
theorem overrides_of_advance (h : Advance e p q) :
    q.state.overrides = p.state.overrides ∨
      ∃ overrides, Expands e p overrides q ∧ q.state.overrides = overrides :: p.state.overrides := by
  have hcompositional := compositional_restores e
  cases h with
  | next h =>
    exact Or.inl ((hcompositional.renderStep (restores_renderLevels e _) _ _ _ _).of_ok h).overrides
  | called hresolve hcalled htext =>
    have hplace := (((hcompositional.resolve _ _).of_ok hresolve).trans
      ((hcompositional.called _ _).of_ok hcalled)).trans htext.samePlace
    exact Or.inl hplace.overrides
  | answered hvalue hcall htext =>
    have hplace := (((restores_sectionValue (restores_renderLevels e _) _ _).of_ok hvalue).trans
      ((restores_callSection e _ _ _ _).of_ok hcall)).trans htext.samePlace
    exact Or.inl hplace.overrides
  | @body n t indent _ _ _ _ inner _ out _ _ _ before _ _ _ _ hvalue _ _ hbefore =>
    have hscopes := hcompositional.foldlM (fun out scope => hcompositional.inScope scope
      (hcompositional.renderSteps (restores_renderLevels e n) t indent inner out)) before out
    exact Or.inl (((restores_sectionValue (restores_renderLevels e _) _ _).of_ok hvalue).trans
      (Restores.of_ok hscopes hbefore)).overrides
  | inverted hvalue _ =>
    exact Or.inl ((restores_sectionValue (restores_renderLevels e _) _ _).of_ok hvalue).overrides
  | partialStep hname hload _ =>
    exact Or.inl (((hcompositional.partialName _).of_ok hname).trans
      ((restores_onStore _).of_ok hload)).overrides
  | parent hload hdepth =>
    refine Or.inr ⟨_, .intro hload hdepth, ?_⟩
    exact congrArg _ ((restores_onStore _).of_ok hload).overrides
  | block _ => exact Or.inl rfl
  | override _ _ _ => exact Or.inl rfl
  | moved _ _ _ => exact Or.inl rfl

theorem overrides_of_visits (h : Visits e p q) (hnot : ∀ overrides, ¬ Expands e p overrides q) :
    q.state.overrides = p.state.overrides := by
  cases h with
  | advance h =>
    refine (overrides_of_advance h).resolve_right ?_
    rintro ⟨overrides, hexpands, -⟩
    exact hnot overrides hexpands
  | asked hcalls hasks htext =>
    exact ((hcalls.samePlace.trans hasks.samePlace).trans htext.samePlace).overrides

theorem overrides_of_expands {overrides : List (Override Step)} (h : Expands e p overrides q) :
    q.state.overrides = overrides :: p.state.overrides := by
  cases h with
  | intro hload _ => exact congrArg _ ((restores_onStore _).of_ok hload).overrides

/-- **The overrides in force are those of the parent tags being expanded**, at every place that a
render comes to. -/
theorem Expanding.overrides_eq (h : Expanding e p q frames) :
    q.state.overrides = frames ++ p.state.overrides := by
  induction h with
  | start => rfl
  | into _ hexpands ih => rw [overrides_of_expands hexpands, ih, List.cons_append]
  | onward _ hvisits hnot ih => rw [overrides_of_visits hvisits hnot, ih]

end Render

end Mustache
