import Mustache.Proofs.Render.Parts

/-!
Scopes, overrides and depth are lent: whatever a part of a render does and however it ends, it
gives them back as it found them. Main statement: `render_restores`.
-/

namespace Mustache.Render

variable {σ α β : Type}

/-- The state that a part of a render ends in, a failure included. -/
def after (act : RenderM σ α) (s : State σ) : State σ :=
  match act s with
  | .ok _ s' => s'
  | .error _ s' => s'

/-- Two states that differ in the engine's store at most. -/
structure SamePlace (s s' : State σ) : Prop where
  scopes : s'.scopes = s.scopes
  overrides : s'.overrides = s.overrides
  depth : s'.depth = s.depth

theorem SamePlace.refl (s : State σ) : SamePlace s s := ⟨rfl, rfl, rfl⟩

theorem SamePlace.trans {s₁ s₂ s₃ : State σ} (h : SamePlace s₁ s₂) (h' : SamePlace s₂ s₃) :
    SamePlace s₁ s₃ :=
  ⟨h'.scopes.trans h.scopes, h'.overrides.trans h.overrides, h'.depth.trans h.depth⟩

/-- However `act` ends, it leaves scopes, overrides and depth as they were. -/
def Restores (act : RenderM σ α) : Prop := ∀ s, SamePlace s (after act s)

/-! ### Sequences and outcomes -/

theorem restores_pure (a : α) : Restores (pure a : RenderM σ α) := SamePlace.refl

theorem restores_throw (err : Error) : Restores (throw err : RenderM σ α) := SamePlace.refl

theorem after_of_ok {act : RenderM σ α} {s s' : State σ} {a : α} (h : act s = .ok a s') :
    after act s = s' := by
  unfold after
  rw [h]

theorem after_of_error {act : RenderM σ α} {s s' : State σ} {err : Error}
    (h : act s = .error err s') : after act s = s' := by
  unfold after
  rw [h]

theorem after_bind (act : RenderM σ α) (next : α → RenderM σ β) (s : State σ) :
    after (act >>= next) s = match act s with
      | .ok a s' => after (next a) s'
      | .error _ s' => s' := by
  cases hs : act s with
  | ok a s' =>
    unfold after
    rw [bind_of_ok next hs]
  | error err s' => exact after_of_error (bind_of_error next hs)

theorem after_attempt (w : σ) (act : RenderM σ α) (next : Except Error α → σ → RenderM σ β)
    (s : State σ) :
    after (attempt w act next) s = match act (setWorld w s) with
      | .ok a s' => after (next (.ok a) s'.store.world) s'
      | .error err s' => after (next (.error err) s'.store.world) s' := by
  unfold after attempt
  cases act (setWorld w s) <;> rfl

theorem Restores.bind {act : RenderM σ α} {next : α → RenderM σ β} (hact : Restores act)
    (hnext : ∀ a, Restores (next a)) : Restores (act >>= next) := by
  intro s
  have h := hact s
  unfold after
  cases hs : act s with
  | ok a s' =>
    rw [after_of_ok hs] at h
    rw [bind_of_ok next hs]
    exact h.trans (hnext a s')
  | error err s' =>
    rw [after_of_error hs] at h
    rw [bind_of_error next hs]
    exact h

theorem Restores.attempt {act : RenderM σ α} {next : Except Error α → σ → RenderM σ β} (w : σ)
    (hact : Restores act) (hnext : ∀ r w, Restores (next r w)) :
    Restores (attempt w act next) := by
  intro s
  have hw : SamePlace s (setWorld w s) := ⟨rfl, rfl, rfl⟩
  have h := hw.trans (hact (setWorld w s))
  rw [after_attempt]
  cases hs : act (setWorld w s) with
  | ok a s' =>
    rw [after_of_ok hs] at h
    exact h.trans (hnext (.ok a) s'.store.world s')
  | error err s' =>
    rw [after_of_error hs] at h
    exact h.trans (hnext (.error err) s'.store.world s')

theorem restores_callWorld (f : σ → Except Error α × σ) : Restores (callWorld f) := by
  intro s
  unfold after callWorld
  cases (f s.store.world).1 with
  | ok a => exact ⟨rfl, rfl, rfl⟩
  | error err => exact ⟨rfl, rfl, rfl⟩

theorem restores_onStore (op : Engine.EngineM σ α) : Restores (onStore op) := by
  intro s
  unfold after onStore
  cases op s.store with
  | ok a store => exact ⟨rfl, rfl, rfl⟩
  | error err store => exact ⟨rfl, rfl, rfl⟩

/-! ### Changes that are taken back -/

theorem after_between (before back : State σ → State σ) (act : RenderM σ α) (s : State σ) :
    after (between before back act) s = back (after act (before s)) := by
  unfold after between
  cases act (before s) <;> rfl

theorem Restores.inScope {act : RenderM σ α} (v : Value) (h : Restores act) :
    Restores (inScope v act) := by
  intro s
  have hin := h { s with scopes := v :: s.scopes }
  unfold Render.inScope
  rw [after_between]
  exact ⟨by rw [hin.scopes]; rfl, hin.overrides, hin.depth⟩

theorem Restores.withOverrides {act : RenderM σ α} (os : List (Override Step)) (h : Restores act) :
    Restores (withOverrides os act) := by
  intro s
  have hin := h { s with overrides := os :: s.overrides }
  unfold Render.withOverrides
  rw [after_between]
  exact ⟨hin.scopes, by rw [hin.overrides]; rfl, hin.depth⟩

theorem Restores.entering {act : RenderM σ α} (limit : Nat) (name : String) (h : Restores act) :
    Restores (entering limit name act) := by
  unfold Render.entering
  refine Restores.bind SamePlace.refl fun s₀ => ?_
  split
  · intro s
    have hin := h { s with depth := s.depth + 1 }
    rw [after_between]
    exact ⟨hin.scopes, hin.overrides, by rw [hin.depth]; rfl⟩
  · exact restores_throw _

theorem compositional_restores (e : Engine σ) : Compositional e fun _ => Restores where
  pure := restores_pure
  throw := restores_throw
  bind := Restores.bind
  get := SamePlace.refl
  loadPartial _ := restores_onStore _
  loadLambda _ _ := restores_onStore _
  callWorld := restores_callWorld
  attempt := Restores.attempt
  inScope := Restores.inScope
  withOverrides := Restores.withOverrides
  entering := Restores.entering _

/-! ### Renders -/

theorem restores_sectionValue {e : Engine σ} {deeper : Renderer σ}
    (hdeeper : ∀ t indent steps out, Restores (deeper t indent steps out)) (name : Name)
    (strict : Bool) : Restores (sectionValue e deeper name strict) := by
  have h := compositional_restores e
  exact h.bind (h.resolve name.path strict) (h.applyFilters hdeeper name.filters)

/-- **Every part of a render gives back scopes, overrides and depth**, also when it fails, and
also when a callable goes on after a failure of what it asked for. -/
theorem render_restores (e : Engine σ) (n : Nat) (t : Template) (indent out : String) :
    (∀ steps, Restores (renderLevels e n t indent steps out)) ∧
    (∀ steps, Restores (renderSteps e (renderLevels e n) t indent steps out)) ∧
    (∀ step, Restores (renderStep e (renderLevels e n) t indent step out)) ∧
    (∀ scope steps,
      Restores (inScope scope (renderSteps e (renderLevels e n) t indent steps out))) ∧
    (∀ site o, Restores (renderOverride e (renderLevels e n) t indent site o out)) ∧
    (∀ text delimiters, Restores (renderText e (renderLevels e n) text delimiters)) ∧
    ∀ delimiters act, Restores (runAct e (renderLevels e n) delimiters act) := by
  have h := compositional_restores e
  have hsteps := fun steps => h.renderSteps (h.renderLevels n) t indent steps out
  refine ⟨fun steps => h.renderLevels n t indent steps out, hsteps, ?_, ?_, ?_, ?_, ?_⟩
  · exact fun step => h.renderStep (h.renderLevels n) t indent step out
  · exact fun scope steps => (hsteps steps).inScope scope
  · exact fun site o => h.renderOverride (h.renderLevels n) t indent site o out
  · exact fun text delimiters => h.renderText (h.renderLevels n) text delimiters
  · exact fun delimiters act => h.runAct (h.renderLevels n) delimiters act

end Mustache.Render
