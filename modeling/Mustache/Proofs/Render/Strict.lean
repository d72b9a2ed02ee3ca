import Mustache.Proofs.Render.Lockstep
import Mustache.Proofs.Render.Places
import Mustache.Proofs.Render.Sharing
import Mustache.Proofs.Template.Strict

/-!
Two renders side by side, the second of templates with strict lookups. They go on alike until the
second comes to a variable or a section whose path does not resolve there, which it then fails at.
Main statement: `Hardened.renderLevels`.
-/

namespace Mustache

variable {σ α β : Type}

namespace Render

/-! ### Outcomes -/

/-- The second run is lost for a path that does not resolve, or both runs end alike. -/
def Stricter (R : State σ → State σ → Prop) (A : α → α → Prop) (lost : String → Prop)
    (r r' : EStateM.Result Error (State σ) α) : Prop :=
  (∃ path s', r' = .error (.unknownVariable path) s' ∧ lost path) ∨ EndAlike R Eq A r r'

section

variable {R : State σ → State σ → Prop} {A : α → α → Prop} {B : β → β → Prop}
  {lost lost' : String → Prop} {r r' : EStateM.Result Error (State σ) α} {act act' : RenderM σ α}
  {s s' : State σ}

theorem Stricter.of_alike (h : Alike R Eq A act act') (hs : R s s') :
    Stricter R A lost (act s) (act' s') := Or.inr (h s s' hs)

theorem Stricter.mono (h : Stricter R A lost r r') (hlost : ∀ path, lost path → lost' path) :
    Stricter R A lost' r r' := by
  refine h.imp_left ?_
  rintro ⟨path, s', hr', hpath⟩
  exact ⟨path, s', hr', hlost path hpath⟩

theorem Stricter.bind {next next' : α → RenderM σ β}
    (hact : Stricter R A lost (act s) (act' s'))
    (hnext : ∀ a a' t t', act' s' = .ok a' t' → R t t' → A a a' →
      Stricter R B lost (next a t) (next' a' t')) :
    Stricter R B lost ((act >>= next) s) ((act' >>= next') s') := by
  rcases hact with ⟨path, t', hrun', hpath⟩ | hend
  · exact Or.inl ⟨path, t', bind_of_error next' hrun', hpath⟩
  · cases hrun : act s <;> cases hrun' : act' s' <;> rw [hrun, hrun'] at hend
    · rw [bind_of_ok next hrun, bind_of_ok next' hrun']
      exact hnext _ _ _ _ hrun' hend.1 hend.2
    · exact hend.elim
    · exact hend.elim
    · rw [bind_of_error next hrun, bind_of_error next' hrun']
      exact Or.inr hend

theorem Stricter.between {before before' back : State σ → State σ}
    (h : Stricter R A lost (act (before s)) (act' (before' s')))
    (hback : ∀ t t', R t t' → R (back t) (back t')) :
    Stricter R A lost (between before back act s) (between before' back act' s') := by
  unfold Render.between
  rcases h with ⟨path, t', hrun', hpath⟩ | hend
  · rw [hrun']
    exact Or.inl ⟨path, _, rfl, hpath⟩
  · cases hrun : act (before s) <;> cases hrun' : act' (before' s') <;> rw [hrun, hrun'] at hend
    · exact Or.inr ⟨hback _ _ hend.1, hend.2⟩
    · exact hend.elim
    · exact hend.elim
    · exact Or.inr ⟨hback _ _ hend.1, hend.2⟩

/-- Steps of a loop that each go on alike, or are lost, from where the earlier ones end. -/
theorem stricter_foldlM {f f' : β → α → RenderM σ β} {xs : List α} {b : β} (hs : R s s')
    (hf : ∀ before x after b' t t', xs = before ++ x :: after →
      before.foldlM f' b s' = .ok b' t' → R t t' →
      Stricter R Eq lost (f b' x t) (f' b' x t')) :
    Stricter R Eq lost (xs.foldlM f b s) (xs.foldlM f' b s') := by
  induction xs generalizing b s s' with
  | nil => exact Or.inr ⟨hs, rfl⟩
  | cons x xs ih =>
    rw [List.foldlM_cons, List.foldlM_cons]
    refine (hf [] x xs b s s' rfl rfl hs).bind ?_
    rintro b' _ t t' hrun ht rfl
    refine ih ht fun before y after c u u' hxs hbefore hu => ?_
    refine hf (x :: before) y after c u u' (by rw [hxs, List.cons_append]) ?_ hu
    rw [List.foldlM_cons, bind_of_ok _ hrun, hbefore]

end

/-! ### States in step -/

/-- Two states at one place of two renders, the overrides of the second strict. -/
structure InStep (S : Engine.Store σ → Engine.Store σ → Prop) (P : Callable → Prop)
    (s s' : State σ) : Prop where
  scopes : s'.scopes = s.scopes
  callables : ∀ v ∈ s.scopes, v.CallablesIn P
  overrides : s'.overrides = s.overrides.map Step.strictOverrides
  depth : s'.depth = s.depth
  store : S s.store s'.store

section

variable {S : Engine.Store σ → Engine.Store σ → Prop} {P : Callable → Prop} {s s' : State σ}
  {A : α → α → Prop} {lost : String → Prop} {act act' : RenderM σ α}

theorem InStep.inScope {v : Value} (hs : InStep S P s s') (hv : v.CallablesIn P) :
    InStep S P { s with scopes := v :: s.scopes } { s' with scopes := v :: s'.scopes } :=
  ⟨congrArg (v :: ·) hs.scopes, List.forall_mem_cons.mpr ⟨hv, hs.callables⟩, hs.overrides, hs.depth,
    hs.store⟩

theorem InStep.outOfScope (hs : InStep S P s s') :
    InStep S P { s with scopes := s.scopes.tail } { s' with scopes := s'.scopes.tail } :=
  ⟨congrArg List.tail hs.scopes, fun v hv => hs.callables v (List.mem_of_mem_tail hv), hs.overrides,
    hs.depth, hs.store⟩

theorem InStep.withOverrides (hs : InStep S P s s') (os : List (Override Step)) :
    InStep S P { s with overrides := os :: s.overrides }
      { s' with overrides := Step.strictOverrides os :: s'.overrides } :=
  ⟨hs.scopes, hs.callables, congrArg (Step.strictOverrides os :: ·) hs.overrides, hs.depth,
    hs.store⟩

theorem InStep.withoutOverrides (hs : InStep S P s s') :
    InStep S P { s with overrides := s.overrides.tail }
      { s' with overrides := s'.overrides.tail } :=
  ⟨hs.scopes, hs.callables, by rw [hs.overrides, List.map_tail], hs.depth, hs.store⟩

theorem InStep.entered (hs : InStep S P s s') : InStep S P s.entered s'.entered :=
  ⟨hs.scopes, hs.callables, hs.overrides, congrArg (· + 1) hs.depth, hs.store⟩

theorem InStep.left (hs : InStep S P s s') :
    InStep S P { s with depth := s.depth - 1 } { s' with depth := s'.depth - 1 } :=
  ⟨hs.scopes, hs.callables, hs.overrides, congrArg (· - 1) hs.depth, hs.store⟩

theorem Stricter.entering {limit : Nat} {name : String} (hs : InStep S P s s')
    (hact : s'.depth < limit → Stricter (InStep S P) A lost (act s.entered) (act' s'.entered)) :
    Stricter (InStep S P) A lost (entering limit name act s) (entering limit name act' s') := by
  by_cases hdepth : s'.depth < limit
  · rw [entering_of_lt hdepth, entering_of_lt (hs.depth ▸ hdepth)]
    exact (hact hdepth).between fun _ _ => InStep.left
  · have hle := Nat.le_of_not_lt hdepth
    rw [entering_of_le hle, entering_of_le (hs.depth ▸ hle)]
    exact Or.inr ⟨hs, rfl⟩

theorem alike_onStore_inStep {op op' : Engine.EngineM σ α} (hop : Alike S Eq A op op') :
    Alike (InStep S P) Eq A (onStore op) (onStore op') := by
  intro s s' hs
  have h := hop _ _ hs.store
  unfold onStore
  cases hrun : op s.store <;> cases hrun' : op' s'.store <;> rw [hrun, hrun'] at h
  · exact ⟨⟨hs.scopes, hs.callables, hs.overrides, hs.depth, h.1⟩, h.2⟩
  · exact h.elim
  · exact h.elim
  · exact ⟨⟨hs.scopes, hs.callables, hs.overrides, hs.depth, h.1⟩, h.2⟩

/-- The overrides of a strict parent tag are the strict forms of those of the tag. -/
theorem findOverride?_strict (frames : List (List (Override Step))) (name : String) :
    findOverride? (frames.map Step.strictOverrides) name =
      (findOverride? frames name).map Override.strict := by
  unfold findOverride?
  rw [← List.map_reverse, List.findSome?_map]
  induction frames.reverse with
  | nil => rfl
  | cons os frames ih =>
    have hfind : (Step.strictOverrides os).find? (fun o => o.name == name) =
        (os.find? fun o => o.name == name).map Override.strict := by
      rw [Step.strictOverrides_eq_map, List.find?_map]
      rfl
    rw [List.findSome?_cons, List.findSome?_cons, Function.comp_apply, hfind]
    cases os.find? fun o => o.name == name with
    | none => exact ih
    | some o => rfl

end

/-- What two engines need to have in common for a render with the second to go on as one with the
first, from stores related by `S`, until it is lost. -/
structure Hardened (e e' : Engine σ) (S : Engine.Store σ → Engine.Store σ → Prop)
    (P : Callable → Prop) : Prop where
  maxDepth : e'.config.maxDepth = e.config.maxDepth
  delimiters : e'.delimiters = e.delimiters
  host : e'.host = e.host
  prompt : e.host.Prompt P
  loadPartial : ∀ name,
    Alike S Eq (Option.Rel Template.Strict) (e.loadPartial name) (e'.loadPartial name)
  loadLambda : ∀ text d, Alike S Eq Template.Strict (e.loadLambda text d) (e'.loadLambda text d)

/-- The renderer of `n` levels comes to a path that does not resolve. -/
def Below (e : Engine σ) (n : Nat) (t : Template) (indent : String) (steps : List Step)
    (out : String) (s : State σ) (path : String) : Prop :=
  ∃ k, n = k + 1 ∧ Place.Meets e ⟨k, t, indent, steps, out, s⟩ path

/-- A render of `n` levels with the second engine goes on as one with the first until it is lost. -/
def KeepsUp (e e' : Engine σ) (S : Engine.Store σ → Engine.Store σ → Prop) (P : Callable → Prop)
    (n : Nat) : Prop :=
  ∀ ⦃t t' : Template⦄ (indent : String) (steps : List Step) (out : String) ⦃s s' : State σ⦄,
    Template.Strict t t' → InStep S P s s' →
    Stricter (InStep S P) Eq (Below e' n t' indent (Step.strictAll steps) out s')
      (renderLevels e n t indent steps out s)
      (renderLevels e' n t' indent (Step.strictAll steps) out s')

namespace Hardened

variable {e e' : Engine σ} {S : Engine.Store σ → Engine.Store σ → Prop} {P : Callable → Prop}
  {deeper deeper' : Renderer σ} {s s' : State σ}

/-! ### Names and calls -/

/-- A lookup that is strict in the second render. -/
theorem stricter_resolve (name : String) (strict : Bool) (hs : InStep S P s s') :
    Stricter (InStep S P) (SameAmong P) (fun path => path = name ∧ s'.scopes.lookup? name = none)
      (resolve name strict s) (resolve name true s') := by
  unfold Render.resolve Scopes.resolve
  rw [bind_of_ok _ (get_eq s), bind_of_ok _ (get_eq s'), hs.scopes]
  cases hlookup : s.scopes.lookup? name with
  | some v => exact Or.inr ⟨hs, rfl, Value.family_callablesIn.of_lookup? hs.callables hlookup⟩
  | none => exact Or.inl ⟨name, s', rfl, rfl, rfl⟩

variable (h : Hardened e e' S P)

include h

theorem sharing : Sharing e e' (InStep S P) P where
  delimiters := h.delimiters
  host := h.host
  prompt := h.prompt
  scopes hs := hs.scopes
  callables hs := hs.callables

theorem stricter_sectionValue (name : Name) (strict : Bool) (hs : InStep S P s s') :
    Stricter (InStep S P) (SameAmong P)
      (fun path => path = name.path ∧ s'.scopes.lookup? name.path = none)
      (sectionValue e deeper name strict s) (sectionValue e' deeper' name true s') := by
  refine (stricter_resolve name.path strict hs).bind ?_
  rintro v _ t t' - ht ⟨rfl, hv⟩
  exact .of_alike (h.sharing.applyFilters name.filters hv) ht

/-! ### Texts -/

section

variable {n : Nat} (hdeeper : KeepsUp e e' S P n)

include hdeeper

theorem renderText (text : String) (d : Option Delimiters) (hs : InStep S P s s')
    {lost : String → Prop} (hlost : ∀ t' r path, OpensText e' text d s' t' r →
      Below e' n t' "" t'.steps "" r.entered path → lost path) :
    Stricter (InStep S P) Eq lost (renderText e (renderLevels e n) text d s)
      (renderText e' (renderLevels e' n) text d s') := by
  unfold Render.renderText
  rw [h.delimiters, h.maxDepth]
  split
  · rename_i hopening
    refine (Stricter.of_alike (alike_onStore_inStep (h.loadLambda text d)) hs).bind ?_
    intro t t' r r' hload hr ht
    rw [ht.name, ht.steps]
    refine Stricter.entering hr fun hdepth => ?_
    refine (hdeeper _ _ _ ht hr.entered).mono fun path hpath => ?_
    refine hlost t' r' path ⟨?_, hload, ?_⟩ (ht.steps ▸ hpath)
    · rw [h.delimiters]
      exact hopening
    · rw [h.maxDepth]
      exact hdepth
  · exact Or.inr ⟨hs, rfl⟩

/-! ### Steps -/

theorem interpolate {t t' : Template} (ht : Template.Strict t t') (indent : String) (name : Name)
    (escape strict lineStart : Bool) (rest : List Step) (out : String) (hs : InStep S P s s') :
    Stricter (InStep S P) Eq
      (Place.Meets e' ⟨n, t', indent, .interpolation name escape true lineStart :: rest, out, s'⟩)
      (interpolate e (renderLevels e n) t name strict s)
      (interpolate e' (renderLevels e' n) t' name true s') := by
  have hfilters : ∀ v, v.CallablesIn P → Alike (InStep S P) Eq Eq
      (do return (← Render.applyFilters e (renderLevels e n) name.filters v).display)
      (do return (← Render.applyFilters e' (renderLevels e' n) name.filters v).display) := by
    intro v hv
    refine (h.sharing.applyFilters name.filters hv).bind ?_
    rintro u _ ⟨rfl, -⟩
    exact alike_pure rfl
  unfold Render.interpolate
  refine ((stricter_resolve name.path strict hs).mono ?_).bind ?_
  · rintro path ⟨rfl, hnone⟩
    exact Place.Unresolved.meets ⟨rfl, hnone⟩
  rintro v _ s₁ s₁' hresolve hs₁ ⟨rfl, hv⟩
  have hcalled : Alike (InStep S P) Eq Eq (Render.called e t.strictCallables v)
      (Render.called e' t'.strictCallables v) := by
    rw [ht.strictCallables]
    exact h.sharing.called t.strictCallables hv
  refine (Stricter.of_alike hcalled hs₁).bind ?_
  rintro result _ s₂ s₂' hcalled' hs₂ rfl
  cases result with
  | none => exact .of_alike (hfilters v hv) hs₂
  | some result =>
    dsimp only
    rw [map_eq_pure_bind, map_eq_pure_bind, bind_assoc, bind_assoc]
    refine (h.renderText hdeeper result.display none hs₂ ?_).bind ?_
    · rintro p s₃ path htext ⟨k, rfl, hmeets⟩
      exact (Advance.called hresolve hcalled' htext).meets hmeets
    · rintro text _ s₃ s₃' - hs₃ rfl
      rw [pure_bind, pure_bind]
      exact .of_alike (hfilters (.string text) (.string text)) hs₃

theorem renderOverride {t t' : Template} (ht : Template.Strict t t') (indent : String)
    {name : String} {site : Option String} {inner rest : List Step} {o : Override Step}
    (out : String) (hs : InStep S P s s')
    (hfound : findOverride? s'.overrides name = some o.strict) :
    Stricter (InStep S P) Eq
      (Place.Meets e' ⟨n, t', indent, .block name site inner :: rest, out, s'⟩)
      (renderOverride e (renderLevels e n) t indent site o out s)
      (renderOverride e' (renderLevels e' n) t' indent site o.strict out s') := by
  unfold Render.renderOverride
  rw [h.maxDepth]
  by_cases hplace : site.isNone ∧ !o.dedent
  · rw [if_pos hplace, if_pos (show site.isNone ∧ !o.strict.dedent from hplace)]
    refine Stricter.entering hs fun hdepth => (hdeeper _ _ _ ht hs.entered).mono ?_
    rintro path ⟨k, rfl, hmeets⟩
    exact (Advance.override hfound hplace (h.maxDepth ▸ hdepth)).meets hmeets
  · rw [if_neg hplace, if_neg (show ¬(site.isNone ∧ !o.strict.dedent) from hplace)]
    refine Stricter.bind (R := InStep S P) (A := Eq) ?_ ?_
    · refine Stricter.entering hs fun hdepth => (hdeeper _ _ _ ht hs.entered).mono ?_
      rintro path ⟨k, rfl, hmeets⟩
      exact (Advance.moved hfound hplace (h.maxDepth ▸ hdepth)).meets hmeets
    · rintro body _ s₁ s₁' - hs₁ rfl
      exact Or.inr ⟨hs₁, rfl⟩

theorem renderPartial (name : PartialName) (own : Option String) (t t' : Template)
    (indent : String) (rest : List Step) (out : String) (hs : InStep S P s s') :
    Stricter (InStep S P) Eq
      (Place.Meets e' ⟨n, t', indent, .partialStep name own :: rest, out, s'⟩)
      (renderStep e (renderLevels e n) t indent (.partialStep name own) out s)
      (renderStep e' (renderLevels e' n) t' indent (.partialStep name own) out s') := by
  rw [renderStep, renderStep, h.maxDepth]
  refine (Stricter.of_alike (h.sharing.alike_partialName name) hs).bind ?_
  rintro named _ s₁ s₁' hname hs₁ rfl
  refine (Stricter.of_alike (alike_onStore_inStep (h.loadPartial named)) hs₁).bind ?_
  rintro found found' s₂ s₂' hload hs₂ hfound
  cases hfound with
  | none => exact Or.inr ⟨hs₂, rfl⟩
  | @some p p' hp =>
    dsimp only
    rw [hp.steps]
    refine Stricter.entering hs₂ fun hdepth => (hdeeper _ _ _ hp hs₂.entered).mono ?_
    rintro path ⟨k, rfl, hmeets⟩
    rw [← hp.steps] at hmeets
    exact (Advance.partialStep hname hload (h.maxDepth ▸ hdepth)).meets hmeets

theorem renderParent (name : String) (own : Option String) (overrides : List (Override Step))
    (t t' : Template) (indent : String) (rest : List Step) (out : String)
    (hs : InStep S P s s') :
    Stricter (InStep S P) Eq
      (Place.Meets e'
        ⟨n, t', indent, .parent name own (Step.strictOverrides overrides) :: rest, out, s'⟩)
      (renderStep e (renderLevels e n) t indent (.parent name own overrides) out s)
      (renderStep e' (renderLevels e' n) t' indent
        (.parent name own (Step.strictOverrides overrides)) out s') := by
  rw [renderStep, renderStep, h.maxDepth]
  refine (Stricter.of_alike (alike_onStore_inStep (h.loadPartial name)) hs).bind ?_
  rintro found found' s₁ s₁' hload hs₁ hfound
  cases hfound with
  | none => exact Or.inr ⟨hs₁, rfl⟩
  | @some p p' hp =>
    dsimp only
    rw [hp.steps]
    refine Stricter.entering hs₁ fun hdepth => ?_
    refine Stricter.between ?_ fun _ _ => InStep.withoutOverrides
    refine (hdeeper _ _ _ hp (hs₁.entered.withOverrides overrides)).mono ?_
    rintro path ⟨k, rfl, hmeets⟩
    rw [← hp.steps] at hmeets
    exact (Advance.parent hload (h.maxDepth ▸ hdepth)).meets hmeets

/-- A section goes on as its body does, in whatever scope. -/
theorem renderSection {t t' : Template} (ht : Template.Strict t t') (indent : String)
    (name : Name) (strict : Bool) (body : String) (delimiters : Delimiters) {inner : List Step}
    (hinner : ∀ (out : String) ⦃s s' : State σ⦄, InStep S P s s' →
      Stricter (InStep S P) Eq (Place.Meets e' ⟨n, t', indent, Step.strictAll inner, out, s'⟩)
        (renderSteps e (renderLevels e n) t indent inner out s)
        (renderSteps e' (renderLevels e' n) t' indent (Step.strictAll inner) out s'))
    (rest : List Step) (out : String) (hs : InStep S P s s') :
    Stricter (InStep S P) Eq
      (Place.Meets e' ⟨n, t', indent,
        .sectionStep name true body delimiters (Step.strictAll inner) :: rest, out, s'⟩)
      (renderStep e (renderLevels e n) t indent (.sectionStep name strict body delimiters inner)
        out s)
      (renderStep e' (renderLevels e' n) t' indent
        (.sectionStep name true body delimiters (Step.strictAll inner)) out s') := by
  rw [sectionStep_eq, sectionStep_eq]
  refine ((h.stricter_sectionValue name strict hs).mono ?_).bind ?_
  · rintro path ⟨rfl, hnone⟩
    exact Place.Unresolved.meets ⟨rfl, hnone⟩
  rintro v _ s₁ s₁' hvalue hs₁ ⟨rfl, hv⟩
  split
  · rename_i c
    have hc := Value.callablesIn_callable_iff.mp hv
    refine (Stricter.of_alike (h.sharing.callSection body delimiters hc) hs₁).bind ?_
    rintro result _ s₂ s₂' hcall hs₂ ⟨rfl, -⟩
    refine (h.renderText hdeeper result.display (some delimiters) hs₂ ?_).bind ?_
    · rintro p s₃ path htext ⟨k, rfl, hmeets⟩
      exact (Advance.answered hvalue hcall htext).meets hmeets
    · rintro text _ s₃ s₃' - hs₃ rfl
      exact Or.inr ⟨hs₃, rfl⟩
  · rename_i hplain
    rw [ht.strictCallables]
    refine stricter_foldlM hs₁ fun before scope after out s₂ s₂' hscopes hbefore hs₂ => ?_
    have hscope : scope.CallablesIn P := by
      have hmem : scope ∈ sectionScopes t.strictCallables v := by
        rw [hscopes]
        exact List.mem_append_right before List.mem_cons_self
      exact of_mem_sectionScopes Value.family_callablesIn hv hmem
    refine Stricter.between ?_ fun _ _ => InStep.outOfScope
    refine (hinner out (hs₂.inScope hscope)).mono fun path => ?_
    rw [← ht.strictCallables] at hscopes
    exact (Advance.body hvalue hplain hscopes hbefore).meets

end

omit h

mutual

theorem renderStep (h : Hardened e e' S P) {n : Nat} (hdeeper : KeepsUp e e' S P n)
    {t t' : Template} (ht : Template.Strict t t') (indent : String) (step : Step)
    (rest : List Step) (out : String) {s s' : State σ} (hs : InStep S P s s') :
    Stricter (InStep S P) Eq (Place.Meets e' ⟨n, t', indent, step.strict :: rest, out, s'⟩)
      (renderStep e (renderLevels e n) t indent step out s)
      (renderStep e' (renderLevels e' n) t' indent step.strict out s') := by
  cases step with
  | text text lineStart =>
    rw [Step.strict, Render.renderStep, Render.renderStep]
    exact Or.inr ⟨hs, rfl⟩
  | interpolation name escape strict lineStart =>
    rw [Step.strict, Render.renderStep, Render.renderStep, ht.escape]
    refine (h.interpolate hdeeper ht indent name escape strict lineStart rest out hs).bind ?_
    rintro text _ s₁ s₁' - hs₁ rfl
    exact Or.inr ⟨hs₁, rfl⟩
  | sectionStep name strict body delimiters steps =>
    rw [Step.strict]
    exact h.renderSection hdeeper ht indent name strict body delimiters
      (fun out _ _ hs => h.renderSteps hdeeper ht indent steps out hs) rest out hs
  | inverted name steps =>
    rw [Step.strict, inverted_eq, inverted_eq]
    refine (Stricter.of_alike (h.sharing.alike_sectionValue name false) hs).bind ?_
    rintro v _ s₁ s₁' hvalue hs₁ ⟨rfl, -⟩
    cases htruthy : v.truthy with
    | true => exact Or.inr ⟨hs₁, rfl⟩
    | false =>
      refine (h.renderSteps hdeeper ht indent steps out hs₁).mono fun path => ?_
      exact (Advance.inverted hvalue htruthy).meets
  | partialStep name own =>
    rw [Step.strict]
    exact h.renderPartial hdeeper name own t t' indent rest out hs
  | parent name own overrides =>
    rw [Step.strict]
    exact h.renderParent hdeeper name own overrides t t' indent rest out hs
  | block name site steps =>
    rw [Step.strict, Render.renderStep, Render.renderStep, bind_of_ok _ (get_eq s),
      bind_of_ok _ (get_eq s')]
    have hfind : findOverride? s'.overrides name =
        (findOverride? s.overrides name).map Override.strict := by
      rw [hs.overrides, findOverride?_strict]
    rw [hfind]
    cases hfound : findOverride? s.overrides name with
    | none =>
      rw [hfound] at hfind
      exact (h.renderSteps hdeeper ht indent steps out hs).mono fun path =>
        (Advance.block hfind).meets
    | some o =>
      rw [hfound] at hfind
      exact h.renderOverride hdeeper ht indent out hs hfind

theorem renderSteps (h : Hardened e e' S P) {n : Nat} (hdeeper : KeepsUp e e' S P n)
    {t t' : Template} (ht : Template.Strict t t') (indent : String) (steps : List Step)
    (out : String) {s s' : State σ} (hs : InStep S P s s') :
    Stricter (InStep S P) Eq (Place.Meets e' ⟨n, t', indent, Step.strictAll steps, out, s'⟩)
      (renderSteps e (renderLevels e n) t indent steps out s)
      (renderSteps e' (renderLevels e' n) t' indent (Step.strictAll steps) out s') := by
  cases steps with
  | nil =>
    rw [Step.strictAll, Render.renderSteps, Render.renderSteps]
    exact Or.inr ⟨hs, rfl⟩
  | cons step steps =>
    rw [Step.strictAll, Render.renderSteps, Render.renderSteps]
    refine (h.renderStep hdeeper ht indent step (Step.strictAll steps) out hs).bind ?_
    rintro out₁ _ s₁ s₁' hstep hs₁ rfl
    exact (h.renderSteps hdeeper ht indent steps out₁ hs₁).mono fun path =>
      (Advance.next hstep).meets

end

/-- **A strict render goes on as the other until it meets a path that does not resolve**, at every
level. -/
theorem renderLevels (h : Hardened e e' S P) (n : Nat) : KeepsUp e e' S P n := by
  induction n with
  | zero =>
    intro t t' indent steps out s s' ht hs
    unfold Render.renderLevels
    rw [h.maxDepth, ht.name]
    exact Or.inr ⟨hs, rfl⟩
  | succ n ih =>
    intro t t' indent steps out s s' ht hs
    exact (h.renderSteps ih ht indent steps out hs).mono fun path hmeets => ⟨n, rfl, hmeets⟩

end Hardened

end Render

end Mustache
