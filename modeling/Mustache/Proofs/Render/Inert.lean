import Mustache.Proofs.Engine.Compile
import Mustache.Proofs.Render.Printing
import Mustache.Proofs.Render.Restore
import Mustache.Proofs.Value.Inert

/-!
Renders over data without callables, in templates that do not call host objects. Nothing but the
loading of partials touches the engine's store in such a render, no other source is parsed, and it
puts out no character that its templates do not. Main statement: `faithful_renderLevels`.
-/

namespace Mustache

/-- A template that is not well formed is reported. -/
def Error.isSyntax : Error → Bool
  | malformed .. => true
  | _ => false

namespace Render

variable {σ α β : Type}

/-- From every state with `I`, `act` ends in one with `I`; what it gives has `post`, and an error
it ends with is one of those expected. -/
def Yields (I : State σ → Prop) (expected : Error → Prop) (act : RenderM σ α) (post : α → Prop) :
    Prop :=
  ∀ s, I s → match act s with
    | .ok a s' => I s' ∧ post a
    | .error err s' => I s' ∧ expected err

section

variable {I : State σ → Prop} {expected : Error → Prop} {post : α → Prop}

theorem yields_pure {a : α} (h : post a) : Yields I expected (pure a) post := fun _ hs => ⟨hs, h⟩

theorem yields_throw {err : Error} (h : expected err) :
    Yields I expected (throw err : RenderM σ α) post := fun _ hs => ⟨hs, h⟩

theorem yields_get : Yields I expected get I := fun _ hs => ⟨hs, hs⟩

theorem Yields.bind {mid : α → Prop} {last : β → Prop} {act : RenderM σ α}
    {next : α → RenderM σ β} (hact : Yields I expected act mid)
    (hnext : ∀ a, mid a → Yields I expected (next a) last) :
    Yields I expected (act >>= next) last := by
  intro s hs
  have h := hact s hs
  cases hrun : act s with
  | ok a s' =>
    rw [hrun] at h
    rw [bind_of_ok next hrun]
    exact hnext a h.2 s' h.1
  | error err s' =>
    rw [hrun] at h
    rw [bind_of_error next hrun]
    exact h

theorem yields_foldlM {f : β → α → RenderM σ β} {inv : β → Prop} {xs : List α}
    (hf : ∀ b, inv b → ∀ x ∈ xs, Yields I expected (f b x) inv) {b : β} (hb : inv b) :
    Yields I expected (xs.foldlM f b) inv := by
  induction xs generalizing b with
  | nil => exact yields_pure hb
  | cons x xs ih =>
    rw [List.foldlM_cons]
    refine (hf b hb x List.mem_cons_self).bind fun b' hb' => ?_
    exact ih (fun b hb y hy => hf b hb y (List.mem_cons_of_mem x hy)) hb'

theorem Yields.between {before back : State σ → State σ} {act : RenderM σ α} {J : State σ → Prop}
    (hact : Yields J expected act post) (hbefore : ∀ s, I s → J (before s))
    (hback : ∀ s, J s → I (back s)) :
    Yields I expected (between before back act) post := by
  intro s hs
  have h := hact (before s) (hbefore s hs)
  unfold Render.between
  cases hrun : act (before s) with
  | ok a s' =>
    rw [hrun] at h
    exact ⟨hback s' h.1, h.2⟩
  | error err s' =>
    rw [hrun] at h
    exact ⟨hback s' h.1, h.2⟩

end

/-! ### States without callables -/

/-- No scope has a callable, the overrides print what is `ok`, and the store has `P`. -/
structure Tame (P : Engine.Store σ → Prop) (ok : Char → Prop) (s : State σ) : Prop where
  scopes : s.scopes.Inert
  overrides : ∀ os ∈ s.overrides, ∀ o ∈ os, ∀ step ∈ o.steps, step.Prints ok
  store : P s.store

variable {P : Engine.Store σ → Prop} {ok : Char → Prop} {expected : Error → Prop}
  {post : α → Prop}

theorem Yields.inScope {act : RenderM σ α} {v : Value} (hv : ¬ v.HasCallable)
    (h : Yields (Tame P ok) expected act post) : Yields (Tame P ok) expected (inScope v act) post :=
  h.between (fun _ hs => ⟨hs.scopes.cons hv, hs.overrides, hs.store⟩)
    fun _ hs => ⟨hs.scopes.tail, hs.overrides, hs.store⟩

theorem Yields.withOverrides {act : RenderM σ α} {os : List (Override Step)}
    (hos : ∀ o ∈ os, ∀ step ∈ o.steps, step.Prints ok) (h : Yields (Tame P ok) expected act post) :
    Yields (Tame P ok) expected (withOverrides os act) post :=
  h.between (fun _ hs => ⟨hs.scopes, List.forall_mem_cons.mpr ⟨hos, hs.overrides⟩, hs.store⟩)
    fun _ hs => ⟨hs.scopes, fun os' hmem => hs.overrides os' (List.mem_of_mem_tail hmem), hs.store⟩

theorem Yields.entering {act : RenderM σ α} {limit : Nat} {name : String}
    (hlimit : expected (.recursionLimit limit name)) (h : Yields (Tame P ok) expected act post) :
    Yields (Tame P ok) expected (entering limit name act) post := by
  unfold Render.entering
  refine yields_get.bind fun s hs => ?_
  split
  · exact h.between (fun _ hs => ⟨hs.scopes, hs.overrides, hs.store⟩)
      fun _ hs => ⟨hs.scopes, hs.overrides, hs.store⟩
  · exact yields_throw hlimit

theorem yields_onStore {op : Engine.EngineM σ α} (hleft : ∀ s, P s → P (Engine.left op s))
    (hpost : ∀ s a, P s → Engine.result op s = .ok a → post a)
    (hfail : ∀ s err, P s → Engine.result op s = .error err → expected err) :
    Yields (Tame P ok) expected (onStore op) post := by
  intro s hs
  have hstore := hleft s.store hs.store
  unfold onStore
  cases hrun : op s.store with
  | ok a store =>
    rw [Engine.left_of_ok hrun] at hstore
    exact ⟨⟨hs.scopes, hs.overrides, hstore⟩, hpost _ a hs.store (Engine.result_of_ok hrun)⟩
  | error err store =>
    rw [Engine.left_of_error hrun] at hstore
    exact ⟨⟨hs.scopes, hs.overrides, hstore⟩, hfail _ err hs.store (Engine.result_of_error hrun)⟩

/-! ### Names -/

section

variable (hother : ∀ err : Error, err.isSyntax = false → expected err)

include hother

theorem yields_resolve (name : String) (strict : Bool) :
    Yields (Tame P ok) expected (resolve name strict) fun v => ¬ v.HasCallable := by
  unfold resolve
  refine yields_get.bind fun s hs => ?_
  split
  · rename_i v hv
    exact yields_pure (hs.scopes.resolve hv)
  · rename_i err hfail
    refine yields_throw (hother err ?_)
    unfold Scopes.resolve at hfail
    split at hfail
    · cases hfail
    · split at hfail
      · rw [← Except.error.inj hfail]
        rfl
      · cases hfail

theorem yields_partialName (name : PartialName) :
    Yields (Tame P ok) expected (partialName name) fun _ => True := by
  cases name with
  | fixed name => exact yields_pure trivial
  | dynamic path => exact (yields_resolve hother path false).bind fun _ _ => yields_pure trivial

end

theorem yields_called (e : Engine σ) {v : Value} (hv : ¬ v.HasCallable) :
    Yields (Tame P ok) expected (called e true v) (· = none) := by
  unfold called
  split
  · exact absurd (.callable _) hv
  · exact yields_pure rfl
  · exact yields_pure rfl

/-- Sections of inert values have inert scopes. -/
theorem not_hasCallable_of_mem_sectionScopes {v scope : Value} (hv : ¬ v.HasCallable)
    (h : scope ∈ sectionScopes true v) : ¬ scope.HasCallable := by
  have hitself : ∀ u : Value, ¬ u.HasCallable → scope ∈ (if u.truthy then [u] else []) →
      ¬ scope.HasCallable := by
    intro u hu hmem
    split at hmem
    · rw [List.mem_singleton.mp hmem]
      exact hu
    · cases hmem
  unfold sectionScopes at h
  cases v with
  | list items => exact fun hscope => hv (.item h hscope)
  | object id method field key result truthy => cases result <;> exact hitself _ hv h
  | _ => exact hitself _ hv h

section

variable (hother : ∀ err : Error, err.isSyntax = false → expected err) (e : Engine σ)
  {deeper : Renderer σ}

include hother

/-- A value without callables goes through no filter. -/
theorem yields_applyFilters (filters : List String) {v : Value} (hv : ¬ v.HasCallable) :
    Yields (Tame P ok) expected (applyFilters e deeper filters v) fun v => ¬ v.HasCallable := by
  refine yields_foldlM (fun v _ name _ => ?_) hv
  unfold applyFilter
  refine (yields_resolve hother name false).bind fun f hf => ?_
  split
  · exact absurd (.callable _) hf
  · exact absurd (.callable _) hf
  · exact yields_throw (hother _ rfl)

theorem yields_interpolate {t : Template} (ht : t.strictCallables = true) (name : Name)
    (strict : Bool) :
    Yields (Tame P ok) expected (interpolate e deeper t name strict) fun _ => True := by
  unfold interpolate
  refine (yields_resolve hother name.path strict).bind fun v hv => ?_
  rw [ht]
  refine (yields_called e hv).bind fun result hresult => ?_
  subst hresult
  have hpure : Yields (Tame P ok) expected (pure v) fun v => ¬ v.HasCallable := yields_pure hv
  refine hpure.bind fun v hv => ?_
  exact (yields_applyFilters hother e name.filters hv).bind fun _ _ => yields_pure trivial

end

/-! ### Steps -/

/-- What a render over data without callables needs of its engine: partials are loaded without
loss of `P`, what they put out is `ok`, and a failure to load one is expected, as is every error
other than that of a malformed template. -/
structure Plain (e : Engine σ) (P : Engine.Store σ → Prop) (ok : Char → Prop)
    (expected : Error → Prop) : Prop where
  newline : ok '\n'
  loads : ∀ name s, P s → P (Engine.left (e.loadPartial name) s)
  prints : ∀ name s t, P s → Engine.result (e.loadPartial name) s = .ok (some t) → t.Prints ok
  fails : ∀ name s err, P s → Engine.result (e.loadPartial name) s = .error err → expected err
  other : ∀ err : Error, err.isSyntax = false → expected err

section

variable {e : Engine σ} (h : Plain e P ok expected)

include h

theorem Plain.loadPartial (name : String) :
    Yields (Tame P ok) expected (onStore (e.loadPartial name))
      fun found => ∀ t ∈ found, t.Prints ok :=
  yields_onStore (h.loads name) (fun s found hs hfound t ht => by
    rw [Option.mem_def.mp ht] at hfound
    exact h.prints name s t hs hfound) (h.fails name)

/-- A renderer that puts out what is `ok`, in such templates onto such an output. -/
def Faithful (P : Engine.Store σ → Prop) (ok : Char → Prop) (expected : Error → Prop)
    (deeper : Renderer σ) : Prop :=
  ∀ (t : Template) (indent : String) (steps : List Step) (out : String), t.Prints ok →
    MadeOf ok indent → (∀ step ∈ steps, step.Prints ok) → MadeOf ok out →
    Yields (Tame P ok) expected (deeper t indent steps out) (MadeOf ok)

variable {deeper : Renderer σ}

theorem Plain.renderOverride (hdeeper : Faithful P ok expected deeper) {t : Template}
    (ht : t.Prints ok) {indent : String} (hindent : MadeOf ok indent) {site : Option String}
    (hsite : ∀ own ∈ site, MadeOf ok own)
    {o : Override Step} (ho : ∀ step ∈ o.steps, step.Prints ok) {out : String}
    (hout : MadeOf ok out) :
    Yields (Tame P ok) expected (renderOverride e deeper t indent site o out) (MadeOf ok) := by
  unfold Render.renderOverride
  split
  · exact (hdeeper t indent o.steps out ht hindent ho hout).entering (h.other _ rfl)
  · have hbody := hdeeper t "" o.steps "" ht madeOf_empty ho madeOf_empty
    refine (hbody.entering (h.other _ rfl)).bind fun body hbody => ?_
    exact yields_pure (madeOf_placeOverride h.newline hsite hindent hbody hout)

end

mutual

theorem Plain.renderStep {e : Engine σ} (h : Plain e P ok expected) {deeper : Renderer σ}
    (hdeeper : Faithful P ok expected deeper) {t : Template} (ht : t.Prints ok) {indent : String}
    (hindent : MadeOf ok indent) : ∀ {step : Step}, step.Prints ok → ∀ {out : String},
    MadeOf ok out → Yields (Tame P ok) expected (renderStep e deeper t indent step out) (MadeOf ok)
  | .text text lineStart, .text htext, out, hout => by
    rw [Render.renderStep]
    exact yields_pure ((hout.append (MadeOf.ite hindent madeOf_empty)).append htext)
  | .interpolation name escape strict lineStart, .interpolation hraw, out, hout => by
    rw [Render.renderStep]
    refine (yields_interpolate h.other e ht.strict name strict).bind fun text _ => ?_
    have htext : MadeOf ok (if escape then t.escape.apply text else text) := by
      cases escape with
      | true => exact ht.escaped text
      | false => exact fun c _ => hraw rfl c
    exact yields_pure ((hout.append (MadeOf.ite hindent madeOf_empty)).append htext)
  | .sectionStep name strict body delimiters steps, .sectionStep hsteps, out, hout => by
    rw [Render.renderStep]
    refine (yields_resolve h.other name.path strict).bind fun v hv => ?_
    refine (yields_applyFilters h.other e name.filters hv).bind fun v hv => ?_
    split
    · exact absurd (.callable _) hv
    · exact absurd (.callable _) hv
    · rw [ht.strict]
      refine yields_foldlM (fun out hout scope hscope => ?_) hout
      exact (h.renderSteps hdeeper ht hindent hsteps hout).inScope
        (not_hasCallable_of_mem_sectionScopes hv hscope)
  | .inverted name steps, .inverted hsteps, out, hout => by
    rw [Render.renderStep]
    refine (yields_resolve h.other name.path false).bind fun v hv => ?_
    refine (yields_applyFilters h.other e name.filters hv).bind fun v hv => ?_
    split
    · exact yields_pure hout
    · exact h.renderSteps hdeeper ht hindent hsteps hout
  | .partialStep name own, .partialStep hown, out, hout => by
    rw [Render.renderStep]
    refine (yields_partialName h.other name).bind fun name _ => ?_
    refine (h.loadPartial name).bind fun found hfound => ?_
    split
    · exact yields_pure hout
    · have hp := hfound _ rfl
      have hdeep := hdeeper _ _ _ out hp (madeOf_innerIndent hown hindent) hp.steps hout
      exact hdeep.entering (h.other _ rfl)
  | .parent name own overrides, .parent hown hoverrides, out, hout => by
    rw [Render.renderStep]
    refine (h.loadPartial name).bind fun found hfound => ?_
    split
    · exact yields_pure hout
    · have hp := hfound _ rfl
      have hdeep := hdeeper _ _ _ out hp (madeOf_innerIndent hown hindent) hp.steps hout
      exact (hdeep.withOverrides hoverrides).entering (h.other _ rfl)
  | .block name site steps, .block hsite hsteps, out, hout => by
    rw [Render.renderStep]
    refine yields_get.bind fun s hs => ?_
    split
    · exact h.renderSteps hdeeper ht hindent hsteps hout
    · rename_i hfound
      have ho := prints_of_findOverride? hs.overrides hfound
      exact h.renderOverride hdeeper ht hindent hsite ho hout

theorem Plain.renderSteps {e : Engine σ} (h : Plain e P ok expected) {deeper : Renderer σ}
    (hdeeper : Faithful P ok expected deeper) {t : Template} (ht : t.Prints ok) {indent : String}
    (hindent : MadeOf ok indent) : ∀ {steps : List Step}, (∀ step ∈ steps, step.Prints ok) →
    ∀ {out : String}, MadeOf ok out →
    Yields (Tame P ok) expected (renderSteps e deeper t indent steps out) (MadeOf ok)
  | [], _, out, hout => by
    rw [Render.renderSteps]
    exact yields_pure hout
  | step :: steps, hsteps, out, hout => by
    rw [Render.renderSteps]
    obtain ⟨hstep, hsteps⟩ := List.forall_mem_cons.mp hsteps
    exact (h.renderStep hdeeper ht hindent hstep hout).bind fun out hout =>
      h.renderSteps hdeeper ht hindent hsteps hout

end

/-- **A render over data without callables keeps what loading partials keeps, and puts out what
its templates do**, at every level. -/
theorem faithful_renderLevels {e : Engine σ} (h : Plain e P ok expected) (n : Nat) :
    Faithful P ok expected (renderLevels e n) := by
  induction n with
  | zero => exact fun _ _ _ _ _ _ _ _ => yields_throw (h.other _ rfl)
  | succ n ih =>
    intro t indent steps out ht hindent hsteps hout
    exact h.renderSteps ih ht hindent hsteps hout

end Render

end Mustache
