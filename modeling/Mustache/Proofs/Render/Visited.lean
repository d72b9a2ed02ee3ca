import Mustache.Proofs.Engine.History
import Mustache.Proofs.Render.Frames

/-!
The templates that a render works through. At each place that it comes to, the texts included that
callables ask for while they are called, it is in the template that it started with or in one that
the engine has just given it for a source; and a property of stores that compiling keeps and the
world has no part in holds there if it held at the start. Main statement: `kept_of_reaches`.
-/

namespace Mustache

namespace Engine

variable {σ : Type}

/-- In a store with `P`, the engine gives the template for the source. -/
def Gives (e : Engine σ) (P : Store σ → Prop) (source : String) (t : Template) : Prop :=
  ∃ cache name s, P s ∧ result (e.compileWith cache name source) s = .ok t

theorem gives_of_loadLambda {e : Engine σ} {P : Store σ → Prop} {text : String}
    {delimiters : Option Delimiters} {s : Store σ} {t : Template} (hs : P s)
    (h : result (e.loadLambda text delimiters) s = .ok t) :
    e.Gives P (e.lambdaSource text delimiters) t :=
  ⟨_, _, s, hs, h⟩

theorem gives_of_loadPartial {e : Engine σ} {P : Store σ → Prop} {name : String} {s : Store σ}
    {t : Template} (hs : P s) (h : result (e.loadPartial name) s = .ok (some t)) :
    ∃ source, e.Gives P source t := by
  obtain ⟨source, -, hresult⟩ := exists_source_of_loadPartial h
  exact ⟨source, _, _, s, hs, hresult⟩

theorem gives_of_loadTemplate {e : Engine σ} {P : Store σ → Prop} {name : String} {s : Store σ}
    {t : Template} (hs : P s) (h : result (e.loadTemplate name) s = .ok t) :
    ∃ source, e.Gives P source t := by
  cases hsource : e.loader s.world name with
  | error err =>
    rw [result_of_error (loadTemplate_of_error hsource)] at h
    cases h
  | ok source =>
    rw [result_congr (loadTemplate_of_source hsource)] at h
    exact ⟨source, _, _, s, hs, h⟩

end Engine

namespace Render

variable {σ α : Type} {e : Engine σ} {P : Engine.Store σ → Prop} {n : Nat} {p q : Place σ}
  {s s' : State σ}

theorem Keeps.of_ok {act : RenderM σ α} {a : α} (h : Keeps P act) (hrun : act s = .ok a s')
    (hs : P s.store) : P s'.store := by
  have hkept := h s hs
  rwa [after_of_ok hrun] at hkept

theorem Keeps.of_error {act : RenderM σ α} {err : Error} (h : Keeps P act)
    (hrun : act s = .error err s') (hs : P s.store) : P s'.store := by
  have hkept := h s hs
  rwa [after_of_error hrun] at hkept

theorem result_of_onStore {op : Engine.EngineM σ α} {a : α} (h : onStore op s = .ok a s') :
    Engine.result op s.store = .ok a := by
  unfold onStore at h
  cases hrun : op s.store with
  | ok b store =>
    rw [hrun] at h
    rw [Engine.result_of_ok hrun, (EStateM.Result.ok.inj h).1]
  | error err store =>
    rw [hrun] at h
    cases h

section

variable (h : Engine.Lasting e P)

include h

/-! ### What callables ask for -/

theorem keeps_sectionValue (n : Nat) (name : Name) (strict : Bool) :
    Keeps P (sectionValue e (renderLevels e n) name strict) :=
  (h.compositional.resolve name.path strict).bind fun v =>
    h.compositional.applyFilters (h.compositional.renderLevels n) name.filters v

theorem keeps_callSection (n : Nat) (body : String) (delimiters : Delimiters) (c : Callable) :
    Keeps P (callSection e (renderLevels e n) body delimiters c) := by
  obtain ⟨id, _ | _⟩ := c
  · exact h.compositional.callNullary id
  · exact h.compositional.callUnary (h.compositional.renderLevels n) id _ delimiters

theorem OpensText.kept {text : String} {delimiters : Option Delimiters} {t : Template}
    (htext : OpensText e text delimiters s t s') (hs : P s.store) :
    P s'.store ∧ ∃ source, e.Gives P source t :=
  ⟨(h.compositional.loadLambda text delimiters).of_ok htext.load hs, _,
    Engine.gives_of_loadLambda hs (result_of_onStore htext.load)⟩

theorem Asks.kept {delimiters : Delimiters} {act : Act σ} {text : String}
    (hasks : Asks e (renderLevels e n) delimiters act s text s') (hs : P s.store) : P s'.store := by
  have htexts := fun text =>
    h.compositional.renderText (h.compositional.renderLevels n) text (some delimiters)
  induction hasks with
  | first => exact h.world _ hs
  | later htext _ ih => exact ih ((htexts _).of_ok htext (h.world _ hs))
  | afterFailure htext _ ih => exact ih ((htexts _).of_error htext (h.world _ hs))

theorem FilterCalls.kept {v : Value} {filters : List String} {act : Act σ}
    (hcalls : FilterCalls e (renderLevels e n) v s filters act s') (hs : P s.store) :
    P s'.store := by
  cases hcalls with
  | intro hbefore hresolve =>
    have hfilters := h.compositional.applyFilters (h.compositional.renderLevels n)
    exact (h.compositional.resolve _ false).of_ok hresolve ((hfilters _ v).of_ok hbefore hs)

theorem StepCalls.kept {t : Template} {step : Step} {delimiters : Delimiters} {act : Act σ}
    (hcalls : StepCalls e (renderLevels e n) t s step delimiters act s') (hs : P s.store) :
    P s'.store := by
  have hresolves := h.compositional.resolve
  cases hcalls with
  | interpolation hresolve hcalled hfilter =>
    have hresolved := (hresolves _ _).of_ok hresolve hs
    exact hfilter.kept h ((h.compositional.called _ _).of_ok hcalled hresolved)
  | calledInterpolation hresolve hcalled htext hfilter =>
    have hresolved := (hresolves _ _).of_ok hresolve hs
    have hresult := (h.compositional.called _ _).of_ok hcalled hresolved
    have htexts := fun text =>
      h.compositional.renderText (h.compositional.renderLevels n) text none
    exact hfilter.kept h ((htexts _).of_ok htext hresult)
  | sectionName hresolve hfilter => exact hfilter.kept h ((hresolves _ _).of_ok hresolve hs)
  | sectionBody hvalue => exact (keeps_sectionValue h n _ _).of_ok hvalue hs
  | inverted hresolve hfilter => exact hfilter.kept h ((hresolves _ _).of_ok hresolve hs)

/-! ### Places -/

/-- A render goes on in the same template or in one that it is given. -/
theorem kept_of_advance (hadvance : Advance e p q) (hp : P p.state.store) :
    P q.state.store ∧ (q.template = p.template ∨ ∃ source, e.Gives P source q.template) := by
  cases hadvance with
  | @next n t indent step _ out _ _ _ hstep =>
    have hkeeps := h.compositional.renderStep (h.compositional.renderLevels n) t indent step out
    exact ⟨hkeeps.of_ok hstep hp, Or.inl rfl⟩
  | called hresolve hcalled htext =>
    have hresolved := (h.compositional.resolve _ _).of_ok hresolve hp
    obtain ⟨hstore, hgives⟩ :=
      htext.kept h ((h.compositional.called _ _).of_ok hcalled hresolved)
    exact ⟨hstore, Or.inr hgives⟩
  | answered hvalue hcall htext =>
    have hsection := (keeps_sectionValue h _ _ _).of_ok hvalue hp
    obtain ⟨hstore, hgives⟩ := htext.kept h ((keeps_callSection h _ _ _ _).of_ok hcall hsection)
    exact ⟨hstore, Or.inr hgives⟩
  | @body n t indent _ _ _ _ inner _ out _ _ _ before _ _ _ _ hvalue _ _ hbefore =>
    have hscopes := h.compositional.foldlM (fun out scope => h.compositional.inScope scope
      (h.compositional.renderSteps (h.compositional.renderLevels n) t indent inner out)) before out
    have hstore := hscopes.of_ok hbefore ((keeps_sectionValue h _ _ _).of_ok hvalue hp)
    exact ⟨hstore, Or.inl rfl⟩
  | inverted hvalue _ => exact ⟨(keeps_sectionValue h _ _ _).of_ok hvalue hp, Or.inl rfl⟩
  | partialStep hname hload _ =>
    have hnamed := (h.compositional.partialName _).of_ok hname hp
    have hstore := (h.compositional.loadPartial _).of_ok hload hnamed
    exact ⟨hstore, Or.inr (Engine.gives_of_loadPartial hnamed (result_of_onStore hload))⟩
  | parent hload _ =>
    have hstore := (h.compositional.loadPartial _).of_ok hload hp
    exact ⟨hstore, Or.inr (Engine.gives_of_loadPartial hp (result_of_onStore hload))⟩
  | block _ => exact ⟨hp, Or.inl rfl⟩
  | override _ _ _ => exact ⟨hp, Or.inl rfl⟩
  | moved _ _ _ => exact ⟨hp, Or.inl rfl⟩

theorem kept_of_visits (hvisits : Visits e p q) (hp : P p.state.store) :
    P q.state.store ∧ (q.template = p.template ∨ ∃ source, e.Gives P source q.template) := by
  cases hvisits with
  | advance hadvance => exact kept_of_advance h hadvance hp
  | asked hcalls hasks htext =>
    obtain ⟨hstore, hgives⟩ := htext.kept h (hasks.kept h (hcalls.kept h hp))
    exact ⟨hstore, Or.inr hgives⟩

/-- **Wherever a render comes to, its template is the one that it started with or was given to it
on the way.** -/
theorem kept_of_reaches (hreaches : Relation.ReflTransGen (Visits e) p q) (hp : P p.state.store) :
    P q.state.store ∧ (q.template = p.template ∨ ∃ source, e.Gives P source q.template) := by
  induction hreaches with
  | refl => exact ⟨hp, Or.inl rfl⟩
  | tail _ hvisits ih =>
    obtain ⟨hstore, hnew | hgives⟩ := kept_of_visits h hvisits ih.1
    · exact ⟨hstore, hnew ▸ ih.2⟩
    · exact ⟨hstore, Or.inr hgives⟩

end

end Render

end Mustache
