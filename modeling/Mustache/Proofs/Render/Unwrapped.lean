import Mustache.Proofs.Render.Change
import Mustache.Proofs.Render.Onto
import Mustache.Proofs.Render.Wrapping
import Mustache.Proofs.Template.Unwrapped

/-!
A section over a callable that gives its body back. Two renders go side by side, one with such a
section, the other with what its body was compiled to in its place, and put out the same. Main
statement: `unwrapsAlike`.
-/

namespace Mustache

namespace Render

variable {σ : Type}

/-! ### The section -/

section

variable (e : Engine σ) (ch : Step.Change) (tag body : String)

/-- The section at the head of this place is over a callable that gives the body back and leaves the
world alone. It has no indent, and the render of the body as a template comes to no blanks that are
moved. -/
structure Place.Returns (q : Place σ) (name : Name) (strict : Bool) : Prop where
  called : ∃ id, sectionValue e (renderLevels e q.levels) name strict q.state =
      .ok (.callable ⟨id, .unary⟩) q.state ∧
    e.host.unary id (.string body) .standard q.state.store.world =
      .done (.ok (.string body)) q.state.store.world
  indent : q.indent = ""
  calm : ∀ n t s', q.levels = n + 1 → OpensText e body (some .standard) q.state t s' →
    Place.Calm e ⟨n, t, "", t.steps, "", s'.entered⟩

/-- The place suits, and the section of this tag and this body returns its body there. -/
structure Place.Fits (q : Place σ) : Prop extends q.Suits e ch where
  returns : ∀ filters strict inner rest,
    q.steps = .sectionStep (Name.parse filters tag) strict body .standard inner :: rest →
      q.Returns e body (Name.parse filters tag) strict

end

section

variable {e : Engine σ} {ch : Step.Change} {tag body : String} {p q : Place σ}

theorem Place.Fits.onto (h : q.Fits e ch tag body) (out : String) :
    Place.Fits e ch tag body { q with out } where
  depth := h.depth
  around := h.around
  site := h.site
  returns filters strict inner rest hsteps :=
    have hreturns := h.returns filters strict inner rest hsteps
    ⟨hreturns.called, hreturns.indent, hreturns.calm⟩

theorem visits_onto {q' : Place σ} {out : String} (hcalm : p.Calm e)
    (h : Visits e { p with out } q') :
    Visits e p q' ∨ ∃ q, Visits e p q ∧ q.Calm e ∧ q' = { q with out := q'.out } := by
  obtain ⟨n, t, indent, steps, out', s⟩ := p
  cases h with
  | advance hadvance =>
    obtain ⟨q, hq, heq⟩ := advance_onto (.inr hcalm) hadvance
    exact .inr ⟨q, .advance hq, hcalm.reaches (.single hq), heq⟩
  | asked hcalls hasks htext => exact .inl (.asked hcalls hasks htext)

/-- Without moved blanks it makes no difference what the output is. -/
theorem Place.Always.onto (h : p.Always e (Place.Fits e ch tag body)) (hcalm : p.Calm e)
    (out : String) : Place.Always e (Place.Fits e ch tag body) { p with out } := by
  intro q' hreaches
  have hsame : Relation.ReflTransGen (Visits e) p q' ∨
      ∃ q, Relation.ReflTransGen (Visits e) p q ∧ q.Calm e ∧ q' = { q with out := q'.out } := by
    induction hreaches with
    | refl => exact .inr ⟨p, .refl, hcalm, rfl⟩
    | tail _ hvisits ih =>
      rcases ih with hq | ⟨q, hq, hcalm, heq⟩
      · exact .inl (hq.tail hvisits)
      · rw [heq] at hvisits
        rcases visits_onto hcalm hvisits with hr | ⟨r, hr, hcalm', heq'⟩
        · exact .inl (hq.tail hr)
        · exact .inr ⟨r, hq.tail hr, hcalm', heq'⟩
  rcases hsame with hq | ⟨q, hq, -, heq⟩
  · exact h q' hq
  · rw [heq]
    exact (h q hq).onto _

end

/-! ### Places without sections -/

/-- The step is a text, or a variable without filters that is a string in these scopes. -/
inductive PutsOut (scopes : Scopes) : Step → Prop
  | text (text : String) (lineStart : Bool) : PutsOut scopes (.text text lineStart)
  | interpolation {path value : String} (escape strict lineStart : Bool)
    (h : scopes.lookup? path = some (.string value)) :
    PutsOut scopes (.interpolation ⟨path, []⟩ escape strict lineStart)

section

variable {e : Engine σ} {p q : Place σ}

theorem resolve_of_lookup {s : State σ} {path : String} {v : Value}
    (h : s.scopes.lookup? path = some v) (strict : Bool) : resolve path strict s = .ok v s := by
  have hfound : s.scopes.resolve path strict = .ok v := by rw [Scopes.resolve, h]
  unfold resolve
  rw [Engine.get_bind, hfound]
  rfl

theorem not_filterCalls_nil {deeper : Renderer σ} {v : Value} {s s' : State σ} {act : Act σ} :
    ¬ FilterCalls e deeper v s [] act s' := by
  generalize hnil : ([] : List String) = filters
  rintro ⟨-, -⟩
  exact List.append_ne_nil_of_right_ne_nil _ (List.cons_ne_nil _ _) hnil.symm

/-- From texts and strings a render goes on to the steps behind them. -/
theorem visits_putsOut (h : ∀ step ∈ p.steps, PutsOut p.state.scopes step)
    (hvisits : Visits e p q) : q.steps <:+ p.steps ∧ SamePlace p.state q.state := by
  cases hvisits with
  | advance hadvance =>
    cases hadvance with
    | next hstep => exact ⟨List.suffix_cons _ _, ((render_restores e _ _ _ _).2.2.1 _).of_ok hstep⟩
    | called hresolve hcalled =>
      cases h _ List.mem_cons_self with
      | interpolation _ _ _ hvalue =>
        obtain ⟨rfl, rfl⟩ :=
          EStateM.Result.ok.inj ((resolve_of_lookup hvalue _).symm.trans hresolve)
        cases hcalled
    | answered | body | inverted | partialStep | parent | block | override | moved =>
      cases h _ List.mem_cons_self
  | asked hcalls =>
    cases hcalls with
    | interpolation _ _ hfilter =>
      cases h _ List.mem_cons_self with
      | interpolation => exact absurd hfilter not_filterCalls_nil
    | calledInterpolation _ _ _ hfilter =>
      cases h _ List.mem_cons_self with
      | interpolation => exact absurd hfilter not_filterCalls_nil
    | sectionName | sectionBody | inverted => cases h _ List.mem_cons_self

theorem reaches_putsOut (h : ∀ step ∈ p.steps, PutsOut p.state.scopes step)
    (hreaches : Relation.ReflTransGen (Visits e) p q) :
    q.steps <:+ p.steps ∧ SamePlace p.state q.state := by
  induction hreaches with
  | refl => exact ⟨List.suffix_refl _, .refl _⟩
  | tail _ hvisits ih =>
    have hsteps := fun step hstep => ih.2.scopes ▸ h step (ih.1.mem hstep)
    obtain ⟨hsuffix, hsame⟩ := visits_putsOut hsteps hvisits
    exact ⟨hsuffix.trans ih.1, ih.2.trans hsame⟩

/-- Wherever the limit on depth is not reached, texts and strings fit. -/
theorem always_fits_putsOut (ch : Step.Change) (tag body : String)
    (h : ∀ step ∈ p.steps, PutsOut p.state.scopes step)
    (hdepth : p.state.depth < e.config.maxDepth) : p.Always e (Place.Fits e ch tag body) := by
  intro q hreaches
  obtain ⟨hsuffix, hsame⟩ := reaches_putsOut h hreaches
  have hputs : ∀ step rest, q.steps = step :: rest → PutsOut p.state.scopes step :=
    fun step rest hsteps => h step (hsuffix.mem (hsteps ▸ List.mem_cons_self))
  refine ⟨⟨fun _ => hsame.depth ▸ hdepth, ?_, ?_⟩, ?_⟩
  · intro name strict text d inner rest hsteps
    cases hputs _ _ hsteps
  · intro name site inner rest hsteps
    cases hputs _ _ hsteps
  · intro filters strict inner rest hsteps
    cases hputs _ _ hsteps

/-- Texts and strings move no blanks. -/
theorem calm_putsOut (h : ∀ step ∈ p.steps, PutsOut p.state.scopes step) : p.Calm e := by
  intro q hreaches hmoves
  obtain ⟨hsuffix, -⟩ := reaches_putsOut h (hreaches.lift id fun _ _ => .advance)
  cases hmoves
  cases h _ (hsuffix.mem List.mem_cons_self)

end

/-! ### Texts that run on -/

section

variable {σ : Type} (e : Engine σ) (deeper : Renderer σ) (t : Template) (indent : String)

theorem renderSteps_fuses {steps steps' : List Step} (h : Step.Fuses steps steps') :
    renderSteps e deeper t indent steps' = renderSteps e deeper t indent steps := by
  cases h with
  | intro front back text more lineStart =>
    funext out
    rw [renderSteps_append, renderSteps_append]
    refine congrArg _ (funext fun out => ?_)
    simp only [renderSteps, renderStep, pure_bind, String.append_assoc]
    rfl

theorem renderSteps_reflTransGen_fuses {steps steps' : List Step}
    (h : Relation.ReflTransGen Step.Fuses steps steps') :
    renderSteps e deeper t indent steps' = renderSteps e deeper t indent steps := by
  induction h with
  | refl => rfl
  | tail _ hfuses ih => rw [renderSteps_fuses e deeper t indent hfuses, ih]

end

/-! ### Renders side by side -/

/-- From stores related by `S` what the engine does ends alike, and also if only the first render
compiles the text `body`, which gives the steps `lone`. -/
structure Unwrapping (e : Engine σ) (ch : Step.Change)
    (S : Engine.Store σ → Engine.Store σ → Prop) (T : Template → Template → Prop) (body : String)
    (lone : List Step) : Prop extends Going e ch S T where
  loads : ∀ {s s'}, S s s' → ∃ t s₁, e.loadLambda body (some .standard) s = .ok t s₁ ∧ S s₁ s' ∧
    t.steps = lone ∧ ∀ {u u'}, T u u' → T t u'
  /-- A body without tags is one text. -/
  plain : Text.contains Delimiters.standard.opening.toList body.toList = false →
    lone = [.text body true]

namespace Along

variable {e : Engine σ} {S : Engine.Store σ → Engine.Store σ → Prop} {ch : Step.Change}
  {n' k : Nat} {s s' : State σ}

/-- Only the first render enters a level. -/
theorem entered_left (hshallow : ch.shallow) (hs : Along e S ch (k + 1) n' s s') :
    Along e S ch k n' s.entered s' :=
  { hs with
    levels := (Nat.succ_add_eq_add_succ k s.depth).symm.trans hs.levels
    le := by
      have hle := hs.le
      exact .inr ⟨hshallow, by omega⟩ }

theorem left_left (hshallow : ch.shallow) (hs : Along e S ch k n' s s')
    (hk : k < e.config.maxDepth) (hle : k + 1 ≤ n') :
    Along e S ch (k + 1) n' { s with depth := s.depth - 1 } s' := by
  have hlevels := hs.levels
  exact { hs with
    levels := by show k + 1 + (s.depth - 1) = _; omega
    le := .inr ⟨hshallow, hle⟩ }

/-- What the first render puts onto nothing one level further down, it may as well put onto the
output there. -/
theorem entering_onto {name out : String} (act : String → RenderM σ String)
    {r' : EStateM.Result Error (State σ) String} (hshallow : ch.shallow)
    (hs : Along e S ch (k + 1) n' s s')
    (honto : EndAs (Grown "" out) (act "" s.entered) (act out s.entered))
    (hend : EndAlike (Along e S ch k n') Eq Eq (act out s.entered) r') :
    EndAlike (Along e S ch (k + 1) n') Eq Eq ((Render.entering e.config.maxDepth name (act "") >>=
      fun text => pure (out ++ text)) s) r' := by
  have hlevels := hs.levels
  have hle : k + 1 ≤ n' := by
    have hle := hs.le
    omega
  have hentering : Render.entering e.config.maxDepth name (act "") s =
      between (fun s => { s with depth := s.depth + 1 }) (fun s => { s with depth := s.depth - 1 })
        (act "") s := entering_of_lt (by omega)
  unfold between at hentering
  unfold State.entered at honto hend
  cases hrun : act "" { s with depth := s.depth + 1 } <;>
    cases hrun' : act out { s with depth := s.depth + 1 } <;> rw [hrun, hrun'] at honto
  · obtain ⟨rfl, x, rfl, rfl⟩ := honto
    rw [hrun] at hentering
    rw [hrun'] at hend
    rw [bind_of_ok _ hentering]
    cases r' with
    | ok a r =>
      refine ⟨hend.1.left_left hshallow (by omega) hle, ?_⟩
      rw [String.empty_append, hend.2]
    | error err r => exact hend.elim
  · exact honto.elim
  · exact honto.elim
  · obtain ⟨rfl, rfl⟩ := honto
    rw [hrun] at hentering
    rw [hrun'] at hend
    rw [bind_of_error _ hentering]
    cases r' with
    | ok a r => exact hend.elim
    | error err r => exact ⟨hend.1.left_left hshallow (by omega) hle, hend.2⟩

end Along

section

variable {e : Engine σ} {S : Engine.Store σ → Engine.Store σ → Prop} {ch : Step.Change}
  {T : Template → Template → Prop} {tag body : String} {lone : List Step} {k n' : Nat}

/-- **A section over a callable that gives its body back puts out what the steps of the body do**,
though the body is rendered as a template of its own. -/
theorem along_returned (h : Unwrapping e ch S T body lone) (hshallow : ch.shallow)
    (hdeeper : ChangeAlike e S ch T (Place.Fits e ch tag body) k) {t t' : Template} (ht : T t t')
    {indent out : String} {rest : List Step} {filters strict : Bool} {inner : List Step}
    (hmarks : Step.allUnmarked inner = Step.allUnmarked lone) {s s' : State σ}
    (hs : Along e S ch (k + 1) n' s s')
    (hp : Place.Always e (Place.Fits e ch tag body) ⟨k + 1, t, indent,
      .sectionStep (Name.parse filters tag) strict body .standard inner :: rest, out, s⟩) :
    EndAlike (Along e S ch (k + 1) n') Eq Eq
      (renderStep e (renderLevels e (k + 1)) t indent
        (.sectionStep (Name.parse filters tag) strict body .standard inner) out s)
      (renderSteps e (renderLevels e n') t' indent inner out s') := by
  obtain ⟨⟨id, hvalue, hcall⟩, hindent, hcalm⟩ := hp.self.returns _ _ _ _ rfl
  obtain rfl : indent = "" := hindent
  have hresult : callUnary e (renderLevels e (k + 1)) id (.string body) .standard s =
      .ok (.string body) s := by
    change runAct e (renderLevels e (k + 1)) .standard
      (e.host.unary id (.string body) .standard s.store.world) s = _
    rw [hcall]
    rfl
  have hsame : renderSteps e (renderLevels e n') t' "" inner =
      renderSteps e (renderLevels e n') t' "" lone := by
    rw [← renderSteps_unmarked, hmarks, renderSteps_unmarked]
  rw [renderStep_of_callable hvalue, bind_of_ok _ hresult, hsame, renderText_eq, Value.display]
  by_cases hopening : Text.contains Delimiters.standard.opening.toList body.toList = true
  · rw [if_pos hopening]
    obtain ⟨p, store, hload, hstore, hsteps, hpeers⟩ := h.loads hs.store
    have hloaded : onStore (e.loadLambda body (some .standard)) s = .ok p { s with store } := by
      unfold onStore
      rw [hload]
    have hs₁ : Along e S ch (k + 1) n' { s with store } s' := { hs with store := hstore }
    have hdepth : s.depth < e.config.maxDepth := hp.self.depth hshallow
    have hopens : OpensText e body (some .standard) s p { s with store } :=
      ⟨hopening, hloaded, hdepth⟩
    have hfresh := hp.advance (.answered hvalue hresult hopens)
    have hcalm := hcalm k p _ rfl hopens
    rw [hsteps] at hfresh hcalm
    -- the body is rendered onto nothing, and would be rendered in the same way onto the output
    have honto : EndAs (Grown "" out)
        (renderSteps e (renderLevels e k) p "" lone "" (State.entered { s with store }))
        (renderSteps e (renderLevels e k) p "" lone out (State.entered { s with store })) :=
      growsAlike e k (.inr hcalm)
    have hend := hdeeper (hs₁.entered_left hshallow) (hpeers ht) (.inl rfl)
      (hfresh.onto hcalm out)
    unfold asTemplate
    rw [bind_assoc, bind_of_ok _ hloaded, hsteps]
    exact hs₁.entering_onto (renderLevels e (k + 1) p "" lone) hshallow honto hend
  · have hlone : renderSteps e (renderLevels e n') t' "" lone out s' = .ok (out ++ body) s' := by
      rw [h.plain (by simpa using hopening), renderSteps_singleton, renderStep, ite_self,
        String.append_empty]
      rfl
    rw [if_neg hopening, hlone]
    exact ⟨hs, rfl⟩

/-- **A section over a callable that gives its body back can be unwrapped**: where the section is
not, the steps of its body put out the same. -/
theorem unwrapsAlike {head spot tail : List Char}
    (h : Unwrapping e (Step.unwrapping tag head spot tail body lone) S T body lone) (n : Nat) :
    ChangeAlike e S (Step.unwrapping tag head spot tail body lone) T
      (Place.Fits e (Step.unwrapping tag head spot tail body lone) tag body) n := by
  refine changeAlike (fun _ hq => hq.toSuits) ?_ h.toGoing n
  rintro n n' t t' indent out _ steps' s s' hpos hdeeper ht ⟨hmarks, hfuses⟩ hs hp
  obtain ⟨k, rfl⟩ := Nat.exists_eq_add_one_of_ne_zero (hpos trivial).ne'
  rw [renderSteps_reflTransGen_fuses e _ t' indent hfuses]
  exact along_around h.toGoing hpos hdeeper ht _ _ _
    (fun hs hp => along_returned h trivial (hdeeper k rfl) ht hmarks hs hp) hs hp

end

end Render

end Mustache
