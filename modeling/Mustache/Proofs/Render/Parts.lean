import Mustache.Render

/-!
Properties of the parts of a render. A property that the smallest parts have, and that sequences,
changes taken back and answers to callables keep, is one of all steps of a template and of all
text a callable asks to be rendered. Main statement: `Compositional.renderLevels`.
-/

namespace Mustache.Render

variable {σ : Type}

/-- Calls something that sees and changes the world alone. -/
def callWorld (f : σ → Except Error α × σ) : RenderM σ α := fun s =>
  match (f s.store.world).1 with
  | .ok a => .ok a (setWorld (f s.store.world).2 s)
  | .error err => .error err (setWorld (f s.store.world).2 s)

/-- Runs `act` in the world `w` and goes on with what came of it, a failure included. -/
def attempt (w : σ) (act : RenderM σ α) (next : Except Error α → σ → RenderM σ β) : RenderM σ β :=
  fun s =>
    match act (setWorld w s) with
    | .ok a s => next (.ok a) s.store.world s
    | .error err s => next (.error err) s.store.world s

/-- The value a section is over: that of its path, sent through its filters. -/
def sectionValue (e : Engine σ) (deeper : Renderer σ) (name : Name) (strict : Bool) :
    RenderM σ Value := do
  applyFilters e deeper name.filters (← resolve name.path strict)

theorem bind_of_ok {act : RenderM σ α} {s s' : State σ} {a : α} (next : α → RenderM σ β)
    (h : act s = .ok a s') : (act >>= next) s = next a s' := by
  change EStateM.bind act next s = _
  unfold EStateM.bind
  rw [h]

theorem bind_of_error {act : RenderM σ α} {s s' : State σ} {err : Error} (next : α → RenderM σ β)
    (h : act s = .error err s') : (act >>= next) s = .error err s' := by
  change EStateM.bind act next s = _
  unfold EStateM.bind
  rw [h]

theorem between_of_ok {before back : State σ → State σ} {act : RenderM σ α} {s s' : State σ} {a : α}
    (h : act (before s) = .ok a s') : between before back act s = .ok a (back s') := by
  unfold between
  rw [h]

theorem between_of_error {before back : State σ → State σ} {act : RenderM σ α} {s s' : State σ}
    {err : Error} (h : act (before s) = .error err s') :
    between before back act s = .error err (back s') := by
  unfold between
  rw [h]

section

variable {limit : Nat} {name : String} {act : RenderM σ α} {s : State σ}

theorem get_eq (s : State σ) : (get : RenderM σ (State σ)) s = .ok s s := rfl

theorem entering_of_lt (h : s.depth < limit) : entering limit name act s =
    between (fun s => { s with depth := s.depth + 1 }) (fun s => { s with depth := s.depth - 1 })
      act s := by
  unfold entering
  rw [bind_of_ok _ (get_eq s), if_pos h]

theorem entering_of_le (h : limit ≤ s.depth) :
    entering limit name act s = .error (.recursionLimit limit name) s := by
  unfold entering
  rw [bind_of_ok _ (get_eq s), if_neg (Nat.not_lt_of_le h)]
  rfl

end

theorem callNullary_eq (e : Engine σ) (id : Nat) :
    callNullary e id = callWorld (e.host.nullary id) := by
  funext s
  unfold callNullary callWorld
  rcases e.host.nullary id s.store.world with ⟨_ | _, w⟩ <;> rfl

theorem runAct_done (e : Engine σ) (deeper : Renderer σ) (delimiters : Delimiters)
    (result : Except Error Value) (w : σ) :
    runAct e deeper delimiters (.done result w) = callWorld fun _ => (result, w) := by
  cases result <;> rfl

theorem runAct_render (e : Engine σ) (deeper : Renderer σ) (delimiters : Delimiters) (text : String)
    (w : σ) (next : Except Error String → σ → Act σ) :
    runAct e deeper delimiters (.render text w next) =
      attempt w (renderText e deeper text (some delimiters)) fun r w =>
        runAct e deeper delimiters (next r w) := by
  funext s
  rw [runAct, attempt]
  dsimp only
  cases renderText e deeper text (some delimiters) (setWorld w s) <;> rfl

/-- A property of parts of a render that passes from parts to what is put together from them. -/
structure Compositional (e : Engine σ) (P : (α : Type) → RenderM σ α → Prop) : Prop where
  pure : ∀ {α : Type} (a : α), P α (Pure.pure a)
  throw : ∀ {α : Type} (err : Error), P α (MonadExcept.throw err)
  bind : ∀ {α β : Type} {act : RenderM σ α} {next : α → RenderM σ β}, P α act →
    (∀ a, P β (next a)) → P β (act >>= next)
  get : P (State σ) MonadState.get
  loadPartial : ∀ name, P (Option Template) (onStore (e.loadPartial name))
  loadLambda : ∀ text delimiters, P Template (onStore (e.loadLambda text delimiters))
  callWorld : ∀ {α : Type} (f : σ → Except Error α × σ), P α (callWorld f)
  attempt : ∀ {α β : Type} {act : RenderM σ α} {next : Except Error α → σ → RenderM σ β} (w : σ),
    P α act → (∀ r w, P β (next r w)) → P β (attempt w act next)
  inScope : ∀ {α : Type} {act : RenderM σ α} (v : Value), P α act → P α (inScope v act)
  withOverrides : ∀ {α : Type} {act : RenderM σ α} (os : List (Override Step)), P α act →
    P α (withOverrides os act)
  entering : ∀ {α : Type} {act : RenderM σ α} (name : String), P α act →
    P α (entering e.config.maxDepth name act)

namespace Compositional

variable {e : Engine σ} {P : (α : Type) → RenderM σ α → Prop} (h : Compositional e P)

include h

theorem map {α β : Type} {act : RenderM σ α} (f : α → β) (hact : P α act) : P β (f <$> act) := by
  rw [map_eq_pure_bind]
  exact h.bind hact fun a => h.pure (f a)

theorem foldlM {α β : Type} {f : β → α → RenderM σ β} (hf : ∀ b a, P β (f b a)) (xs : List α)
    (b : β) : P β (xs.foldlM f b) := by
  induction xs generalizing b with
  | nil => exact h.pure b
  | cons x xs ih =>
    rw [List.foldlM_cons]
    exact h.bind (hf b x) ih

theorem resolve (name : String) (strict : Bool) : P Value (resolve name strict) := by
  unfold Render.resolve
  refine h.bind h.get fun s => ?_
  split
  · exact h.pure _
  · exact h.throw _

theorem partialName (name : PartialName) : P String (partialName name) := by
  cases name with
  | fixed name => exact h.pure name
  | dynamic path => exact h.bind (h.resolve path false) fun v => h.pure v.display

theorem callNullary (id : Nat) : P Value (callNullary e id) := by
  rw [callNullary_eq]
  exact h.callWorld (e.host.nullary id)

theorem called (strictCallables : Bool) (v : Value) : P (Option Value) (called e strictCallables v) := by
  unfold Render.called
  split
  · exact h.map some (h.callNullary _)
  · exact h.pure _
  · exact h.pure _

section

variable {deeper : Renderer σ}
  (hdeeper : ∀ t indent steps out, P String (deeper t indent steps out))

include hdeeper

/-! ### Calls -/

theorem renderText (text : String) (delimiters : Option Delimiters) :
    P String (renderText e deeper text delimiters) := by
  unfold Render.renderText
  dsimp only
  split
  · refine h.bind (h.loadLambda text delimiters) fun t => ?_
    exact h.entering t.name (hdeeper t "" t.steps "")
  · exact h.pure text

theorem runAct (delimiters : Delimiters) (act : Act σ) : P Value (runAct e deeper delimiters act) := by
  induction act with
  | done result w =>
    rw [runAct_done]
    exact h.callWorld fun _ => (result, w)
  | render text w next ih =>
    rw [runAct_render]
    exact h.attempt w (h.renderText hdeeper text (some delimiters)) ih

theorem callUnary (id : Nat) (v : Value) (delimiters : Delimiters) :
    P Value (callUnary e deeper id v delimiters) :=
  h.bind h.get fun _ => h.runAct hdeeper delimiters _

theorem applyFilters (filters : List String) (v : Value) :
    P Value (applyFilters e deeper filters v) := by
  refine h.foldlM (fun v name => ?_) filters v
  unfold applyFilter
  refine h.bind (h.resolve name false) fun f => ?_
  split
  · exact h.callUnary hdeeper _ _ _
  · exact h.callNullary _
  · exact h.throw _

theorem interpolate (t : Template) (name : Name) (strict : Bool) :
    P String (interpolate e deeper t name strict) := by
  unfold Render.interpolate
  refine h.bind (h.resolve name.path strict) fun v => ?_
  refine h.bind (h.called t.strictCallables v) fun result => ?_
  split
  · refine h.bind (h.map _ (h.renderText hdeeper _ none)) fun v => ?_
    exact h.bind (h.applyFilters hdeeper name.filters v) fun v => h.pure v.display
  · refine h.bind (h.pure v) fun v => ?_
    exact h.bind (h.applyFilters hdeeper name.filters v) fun v => h.pure v.display

/-! ### Steps -/

theorem renderOverride (t : Template) (indent : String) (site : Option String) (o : Override Step)
    (out : String) : P String (renderOverride e deeper t indent site o out) := by
  unfold Render.renderOverride
  split
  · exact h.entering o.name (hdeeper t indent o.steps out)
  · exact h.bind (h.entering o.name (hdeeper t "" o.steps "")) fun body => h.pure _

end

mutual

theorem renderStep {deeper : Renderer σ}
    (hdeeper : ∀ t indent steps out, P String (deeper t indent steps out)) (t : Template)
    (indent : String) (step : Step) (out : String) :
    P String (renderStep e deeper t indent step out) := by
  cases step with
  | text text lineStart =>
    rw [Render.renderStep]
    exact h.pure _
  | interpolation name escape strict lineStart =>
    rw [Render.renderStep]
    exact h.bind (h.interpolate hdeeper t name strict) fun text => h.pure _
  | sectionStep name strict body delimiters steps =>
    rw [Render.renderStep]
    refine h.bind (h.resolve name.path strict) fun v => ?_
    refine h.bind (h.applyFilters hdeeper name.filters v) fun v => ?_
    split
    · refine h.bind (h.callUnary hdeeper _ _ delimiters) fun result => ?_
      exact h.bind (h.renderText hdeeper _ _) fun text => h.pure _
    · refine h.bind (h.callNullary _) fun result => ?_
      exact h.bind (h.renderText hdeeper _ _) fun text => h.pure _
    · exact h.foldlM (fun out scope => h.inScope scope (renderSteps hdeeper t indent steps out)) _ out
  | inverted name steps =>
    rw [Render.renderStep]
    refine h.bind (h.resolve name.path false) fun v => ?_
    refine h.bind (h.applyFilters hdeeper name.filters v) fun v => ?_
    split
    · exact h.pure out
    · exact renderSteps hdeeper t indent steps out
  | partialStep name own =>
    rw [Render.renderStep]
    refine h.bind (h.partialName name) fun name => ?_
    refine h.bind (h.loadPartial name) fun found => ?_
    split
    · exact h.pure out
    · exact h.entering name (hdeeper _ _ _ out)
  | parent name own overrides =>
    rw [Render.renderStep]
    refine h.bind (h.loadPartial name) fun found => ?_
    split
    · exact h.pure out
    · exact h.entering name (h.withOverrides overrides (hdeeper _ _ _ out))
  | block name site steps =>
    rw [Render.renderStep]
    refine h.bind h.get fun s => ?_
    split
    · exact renderSteps hdeeper t indent steps out
    · exact h.renderOverride hdeeper t indent site _ out

theorem renderSteps {deeper : Renderer σ}
    (hdeeper : ∀ t indent steps out, P String (deeper t indent steps out)) (t : Template)
    (indent : String) (steps : List Step) (out : String) :
    P String (renderSteps e deeper t indent steps out) := by
  cases steps with
  | nil =>
    rw [Render.renderSteps]
    exact h.pure out
  | cons step steps =>
    rw [Render.renderSteps]
    exact h.bind (renderStep hdeeper t indent step out) fun out =>
      renderSteps hdeeper t indent steps out

end

/-- **A property that passes from parts to what is put together from them holds at every level.** -/
theorem renderLevels (n : Nat) (t : Template) (indent : String) (steps : List Step)
    (out : String) : P String (renderLevels e n t indent steps out) := by
  induction n generalizing t indent steps out with
  | zero => exact h.throw _
  | succ n ih => exact h.renderSteps ih t indent steps out

end Compositional

end Mustache.Render
