import Mustache.Proofs.Render.Parts
import Mustache.Proofs.Value.Family

/-!
Two renders of the same steps in lockstep. They may differ in what is done one level further down
and in the limit on depth. As long as the first does not give up, the second does the same, in all
their steps if it is so wherever they enter a level. Main statement: `Lockstep.renderSteps`.
-/

namespace Mustache.Render

variable {σ α β : Type}

/-- The scopes of a section over a value of a family are in it. -/
theorem of_mem_sectionScopes {Q : Value → Prop} (hQ : Value.Family Q) {strict : Bool}
    {v scope : Value} (hv : Q v) (hscope : scope ∈ sectionScopes strict v) : Q scope := by
  have hitself : ∀ u : Value, Q u → scope ∈ (if u.truthy then [u] else []) → Q scope := by
    intro u hu hmem
    split at hmem
    · rwa [List.mem_singleton.mp hmem]
    · cases hmem
  -- under strict callables every value stands for itself
  obtain ⟨u, hu, hmem⟩ : ∃ u, Q u ∧ scope ∈ sectionScopes true u := by
    cases strict with
    | true => exact ⟨v, hv, hscope⟩
    | false =>
      cases v with
      | object id method field key result truthy =>
        cases result with
        | none => exact ⟨_, hv, hscope⟩
        | some result =>
          refine ⟨result, hQ.result hv, ?_⟩
          cases result with
          | object id method field key result truthy => cases result <;> exact hscope
          | _ => exact hscope
      | _ => exact ⟨_, hv, hscope⟩
  cases u with
  | list items => exact hQ.item hu hmem
  | object id method field key result truthy => cases result <;> exact hitself _ hu hmem
  | _ => exact hitself _ hu hmem

/-! ### Following -/

/-- From states related by `R`, `act'` does what `act` does, unless that gives up. They end in
related states, and what they give has `post`. -/
def Follows (R : State σ → State σ → Prop) (gaveUp : Error → Prop) (act act' : RenderM σ α)
    (post : α → Prop) : Prop :=
  ∀ s s', R s s' → match act s with
    | .ok a t => ∃ t', act' s' = .ok a t' ∧ R t t' ∧ post a
    | .error err t => gaveUp err ∨ ∃ t', act' s' = .error err t' ∧ R t t'

/-- Both are the same state, which has `I`. -/
def Same (I : State σ → Prop) (s s' : State σ) : Prop := s' = s ∧ I s

section

variable {R : State σ → State σ → Prop} {gaveUp : Error → Prop} {post : α → Prop}
  {last : β → Prop}

theorem follows_pure {a : α} (h : post a) : Follows R gaveUp (pure a) (pure a) post :=
  fun _ s' hs => ⟨s', rfl, hs, h⟩

theorem follows_throw (err : Error) :
    Follows R gaveUp (throw err : RenderM σ α) (throw err) post :=
  fun _ s' hs => Or.inr ⟨s', rfl, hs⟩

theorem follows_get_bind {next next' : State σ → RenderM σ β}
    (h : ∀ s s', R s s' → Follows R gaveUp (next s) (next' s') last) :
    Follows R gaveUp (get >>= next) (get >>= next') last := by
  intro s s' hs
  rw [bind_of_ok next (get_eq s), bind_of_ok next' (get_eq s')]
  exact h s s' hs s s' hs

theorem Follows.bind {act act' : RenderM σ α} {next next' : α → RenderM σ β}
    (hact : Follows R gaveUp act act' post)
    (hnext : ∀ a, post a → Follows R gaveUp (next a) (next' a) last) :
    Follows R gaveUp (act >>= next) (act' >>= next') last := by
  intro s s' hs
  have h := hact s s' hs
  cases hrun : act s with
  | ok a t =>
    rw [hrun] at h
    obtain ⟨t', hrun', ht, ha⟩ := h
    rw [bind_of_ok next hrun, bind_of_ok next' hrun']
    exact hnext a ha t t' ht
  | error err t =>
    rw [hrun] at h
    rw [bind_of_error next hrun]
    refine h.imp_right ?_
    rintro ⟨t', hrun', ht⟩
    exact ⟨t', bind_of_error next' hrun', ht⟩

theorem follows_foldlM {f f' : β → α → RenderM σ β} {xs : List α}
    (hf : ∀ b, ∀ x ∈ xs, Follows R gaveUp (f b x) (f' b x) fun _ => True) (b : β) :
    Follows R gaveUp (xs.foldlM f b) (xs.foldlM f' b) fun _ => True := by
  induction xs generalizing b with
  | nil => exact follows_pure trivial
  | cons x xs ih =>
    rw [List.foldlM_cons, List.foldlM_cons]
    refine (hf b x List.mem_cons_self).bind fun b _ => ?_
    exact ih (fun b y hy => hf b y (List.mem_cons_of_mem x hy)) b

theorem Follows.between {R' : State σ → State σ → Prop} {before back : State σ → State σ}
    {act act' : RenderM σ α} (hact : Follows R' gaveUp act act' post)
    (hbefore : ∀ s s', R s s' → R' (before s) (before s'))
    (hback : ∀ s s', R' s s' → R (back s) (back s')) :
    Follows R gaveUp (between before back act) (between before back act') post := by
  intro s s' hs
  have h := hact (before s) (before s') (hbefore s s' hs)
  unfold Render.between
  cases hrun : act (before s) with
  | ok a t =>
    rw [hrun] at h
    obtain ⟨t', hrun', ht, ha⟩ := h
    rw [hrun']
    exact ⟨back t', rfl, hback t t' ht, ha⟩
  | error err t =>
    rw [hrun] at h
    refine h.imp_right ?_
    rintro ⟨t', hrun', ht⟩
    rw [hrun']
    exact ⟨back t', rfl, hback t t' ht⟩

section

variable (hstores : ∀ {s s' : State σ}, R s s' → s'.store = s.store ∧
  ∀ store, R { s with store } { s' with store })

include hstores

theorem follows_onStore (op : Engine.EngineM σ α) :
    Follows R gaveUp (onStore op) (onStore op) fun _ => True := by
  intro s s' hs
  obtain ⟨hsame, hstore⟩ := hstores hs
  unfold onStore
  rw [hsame]
  cases op s.store with
  | ok a store => exact ⟨_, rfl, hstore store, trivial⟩
  | error err store => exact Or.inr ⟨_, rfl, hstore store⟩

theorem follows_callWorld {f : σ → Except Error α × σ}
    (hpost : ∀ w a, (f w).1 = .ok a → post a) :
    Follows R gaveUp (callWorld f) (callWorld f) post := by
  intro s s' hs
  obtain ⟨hsame, hstore⟩ := hstores hs
  unfold callWorld setWorld
  rw [hsame]
  cases h : (f s.store.world).1 with
  | ok a => exact ⟨_, rfl, hstore _, hpost _ a h⟩
  | error err => exact Or.inr ⟨_, rfl, hstore _⟩

/-- What follows is what goes on after success and after failure too. Where the first gives up, it
has to give up for good. -/
theorem Follows.attempt {act act' : RenderM σ α} {next next' : Except Error α → σ → RenderM σ β}
    (w : σ) (hact : Follows R gaveUp act act' post)
    (hok : ∀ a w, Follows R gaveUp (next (.ok a) w) (next' (.ok a) w) last)
    (herror : ∀ err w, ¬ gaveUp err →
      Follows R gaveUp (next (.error err) w) (next' (.error err) w) last)
    (hgaveUp : ∀ err w s, gaveUp err →
      ∃ err' s', gaveUp err' ∧ next (.error err) w s = .error err' s') :
    Follows R gaveUp (attempt w act next) (attempt w act' next') last := by
  intro s s' hs
  have hworld : R (setWorld w s) (setWorld w s') := by
    unfold setWorld
    rw [(hstores hs).1]
    exact (hstores hs).2 _
  have h := hact (setWorld w s) (setWorld w s') hworld
  unfold Render.attempt
  cases hrun : act (setWorld w s) with
  | ok a t =>
    rw [hrun] at h
    obtain ⟨t', hrun', ht, -⟩ := h
    rw [hrun']
    dsimp only
    rw [(hstores ht).1]
    exact hok a t.store.world t t' ht
  | error err t =>
    rw [hrun] at h
    by_cases hgave : gaveUp err
    · obtain ⟨err', t'', hgave', hnext⟩ := hgaveUp err t.store.world t hgave
      dsimp only
      rw [hnext]
      exact Or.inl hgave'
    · obtain ⟨t', hrun', ht⟩ := h.resolve_left hgave
      rw [hrun']
      dsimp only
      rw [(hstores ht).1]
      exact herror err t.store.world hgave t t' ht

end

end

/-! ### Two renders -/

/-- States related by `R` show the same to a render, and go on to do so. Values are of a family
`Q`. -/
structure Tracks (Q : Value → Prop) (R : State σ → State σ → Prop) : Prop where
  scopes : ∀ {s s' : State σ}, R s s' → s'.scopes = s.scopes ∧ ∀ v ∈ s.scopes, Q v
  overrides : ∀ {s s' : State σ}, R s s' → s'.overrides = s.overrides
  stores : ∀ {s s' : State σ}, R s s' → s'.store = s.store ∧
    ∀ store, R { s with store } { s' with store }
  push : ∀ {s s' : State σ} {v : Value}, Q v → R s s' →
    R { s with scopes := v :: s.scopes } { s' with scopes := v :: s'.scopes }
  pop : ∀ {s s' : State σ}, R s s' →
    R { s with scopes := s.scopes.tail } { s' with scopes := s'.scopes.tail }

theorem tracks_same {Q : Value → Prop} {I : State σ → Prop}
    (hscopes : ∀ {s : State σ}, I s → ∀ v ∈ s.scopes, Q v)
    (hstore : ∀ {s : State σ} (store : Engine.Store σ), I s → I { s with store })
    (hpush : ∀ {s : State σ} {v : Value}, Q v → I s → I { s with scopes := v :: s.scopes })
    (hpop : ∀ {s : State σ}, I s → I { s with scopes := s.scopes.tail }) :
    Tracks Q (Same I) where
  scopes h := ⟨by rw [h.1], hscopes h.2⟩
  overrides h := by rw [h.1]
  stores := by
    rintro _ s ⟨rfl, hs⟩
    exact ⟨rfl, fun store => ⟨rfl, hstore store hs⟩⟩
  push := by
    rintro _ s v hv ⟨rfl, hs⟩
    exact ⟨rfl, hpush hv hs⟩
  pop := by
    rintro _ s ⟨rfl, hs⟩
    exact ⟨rfl, hpop hs⟩

/-- What two renders need to have in common for the second to follow the first, from states related
by `R`. -/
structure Lockstep (e e' : Engine σ) (deeper deeper' : Renderer σ) (Q : Value → Prop)
    (R : State σ → State σ → Prop) (gaveUp : Error → Prop) : Prop extends Tracks Q R where
  family : Value.Family Q
  delimiters : e'.delimiters = e.delimiters
  host : e'.host = e.host
  loadPartial : ∀ name, e'.loadPartial name = e.loadPartial name
  loadLambda : ∀ text delimiters, e'.loadLambda text delimiters = e.loadLambda text delimiters
  nullary : ∀ {id : Nat}, Q (.callable ⟨id, .nullary⟩) →
    ∀ w v, (e.host.nullary id w).1 = .ok v → Q v
  unary : (∀ text delimiters, Follows R gaveUp (renderText e deeper text delimiters)
      (renderText e' deeper' text delimiters) fun _ => True) →
    ∀ {id : Nat} {v : Value} (delimiters : Delimiters), Q (.callable ⟨id, .unary⟩) → Q v →
    Follows R gaveUp (callUnary e deeper id v delimiters) (callUnary e' deeper' id v delimiters) Q
  enters : ∀ name t indent steps out, Follows R gaveUp
    (entering e.config.maxDepth name (deeper t indent steps out))
    (entering e'.config.maxDepth name (deeper' t indent steps out)) fun _ => True
  expands : ∀ name overrides t indent steps out, Follows R gaveUp
    (entering e.config.maxDepth name (withOverrides overrides (deeper t indent steps out)))
    (entering e'.config.maxDepth name (withOverrides overrides (deeper' t indent steps out)))
    fun _ => True

namespace Lockstep

variable {e e' : Engine σ} {deeper deeper' : Renderer σ} {Q : Value → Prop}
  {R : State σ → State σ → Prop} {gaveUp : Error → Prop}
  (h : Lockstep e e' deeper deeper' Q R gaveUp)

include h

/-! ### Names and calls -/

theorem resolve (name : String) (strict : Bool) :
    Follows R gaveUp (resolve name strict) (resolve name strict) Q := by
  unfold Render.resolve
  refine follows_get_bind fun s s' hs => ?_
  obtain ⟨hsame, hscopes⟩ := h.scopes hs
  rw [hsame]
  split
  · rename_i v hv
    exact follows_pure (h.family.of_resolve hscopes hv)
  · exact follows_throw _

theorem partialName (name : PartialName) :
    Follows R gaveUp (partialName name) (partialName name) fun _ => True := by
  cases name with
  | fixed name => exact follows_pure trivial
  | dynamic path => exact (h.resolve path false).bind fun _ _ => follows_pure trivial

theorem loadedPartial (name : String) :
    Follows R gaveUp (onStore (e.loadPartial name)) (onStore (e'.loadPartial name))
      fun _ => True := by
  rw [h.loadPartial]
  exact follows_onStore h.stores _

theorem renderText (text : String) (delimiters : Option Delimiters) :
    Follows R gaveUp (renderText e deeper text delimiters) (renderText e' deeper' text delimiters)
      fun _ => True := by
  unfold Render.renderText
  rw [h.delimiters, h.loadLambda]
  dsimp only
  split
  · exact (follows_onStore h.stores _).bind fun t _ => h.enters t.name t "" t.steps ""
  · exact follows_pure trivial

theorem callNullary {id : Nat} (hcallable : Q (.callable ⟨id, .nullary⟩)) :
    Follows R gaveUp (callNullary e id) (callNullary e' id) Q := by
  rw [callNullary_eq, callNullary_eq, h.host]
  exact follows_callWorld h.stores (h.nullary hcallable)

theorem applyFilter {v : Value} (hv : Q v) (name : String) :
    Follows R gaveUp (applyFilter e deeper v name) (applyFilter e' deeper' v name) Q := by
  unfold Render.applyFilter
  refine (h.resolve name false).bind fun f hf => ?_
  rw [h.delimiters]
  split
  · exact h.unary h.renderText _ hf hv
  · exact h.callNullary hf
  · exact follows_throw _

theorem applyFilters (filters : List String) {v : Value} (hv : Q v) :
    Follows R gaveUp (applyFilters e deeper filters v) (applyFilters e' deeper' filters v) Q := by
  unfold Render.applyFilters
  induction filters generalizing v with
  | nil => exact follows_pure hv
  | cons name filters ih =>
    rw [List.foldlM_cons, List.foldlM_cons]
    exact (h.applyFilter hv name).bind fun v hv => ih hv

theorem called (strictCallables : Bool) {v : Value} (hv : Q v) :
    Follows R gaveUp (called e strictCallables v) (called e' strictCallables v) fun _ => True := by
  unfold Render.called
  split
  · rw [map_eq_pure_bind, map_eq_pure_bind]
    exact (h.callNullary hv).bind fun _ _ => follows_pure trivial
  · exact follows_pure trivial
  · exact follows_pure trivial

theorem interpolate (t : Template) (name : Name) (strict : Bool) :
    Follows R gaveUp (interpolate e deeper t name strict) (interpolate e' deeper' t name strict)
      fun _ => True := by
  have hfilters : ∀ v, Q v → Follows R gaveUp
      (do return (← Render.applyFilters e deeper name.filters v).display)
      (do return (← Render.applyFilters e' deeper' name.filters v).display) fun _ => True :=
    fun v hv => (h.applyFilters name.filters hv).bind fun _ _ => follows_pure trivial
  unfold Render.interpolate
  refine (h.resolve name.path strict).bind fun v hv => ?_
  refine (h.called t.strictCallables hv).bind fun result _ => ?_
  split
  · have htext : ∀ text, Follows R gaveUp (Value.string <$> Render.renderText e deeper text none)
        (Value.string <$> Render.renderText e' deeper' text none) Q := by
      intro text
      rw [map_eq_pure_bind, map_eq_pure_bind]
      exact (h.renderText text none).bind fun out _ => follows_pure (h.family.string out)
    exact (htext _).bind hfilters
  · exact (follows_pure hv).bind hfilters

/-! ### Steps -/

theorem renderOverride (t : Template) (indent : String) (site : Option String) (o : Override Step)
    (out : String) :
    Follows R gaveUp (renderOverride e deeper t indent site o out)
      (renderOverride e' deeper' t indent site o out) fun _ => True := by
  unfold Render.renderOverride
  split
  · exact h.enters o.name t indent o.steps out
  · exact (h.enters o.name t "" o.steps "").bind fun _ _ => follows_pure trivial

omit h

mutual

theorem renderStep (h : Lockstep e e' deeper deeper' Q R gaveUp) (t : Template) (indent : String)
    (step : Step) (out : String) :
    Follows R gaveUp (renderStep e deeper t indent step out)
      (renderStep e' deeper' t indent step out) fun _ => True := by
  cases step with
  | text text lineStart =>
    rw [Render.renderStep, Render.renderStep]
    exact follows_pure trivial
  | interpolation name escape strict lineStart =>
    rw [Render.renderStep, Render.renderStep]
    exact (h.interpolate t name strict).bind fun _ _ => follows_pure trivial
  | sectionStep name strict body delimiters steps =>
    rw [Render.renderStep, Render.renderStep]
    refine (h.resolve name.path strict).bind fun v hv => ?_
    refine (h.applyFilters name.filters hv).bind fun v hv => ?_
    split
    · refine (h.unary h.renderText delimiters hv (h.family.string body)).bind fun result _ => ?_
      exact (h.renderText _ _).bind fun _ _ => follows_pure trivial
    · refine (h.callNullary hv).bind fun result _ => ?_
      exact (h.renderText _ _).bind fun _ _ => follows_pure trivial
    · refine follows_foldlM (fun out scope hscope => ?_) out
      have hsteps := h.renderSteps t indent steps out
      exact hsteps.between (fun _ _ => h.push (of_mem_sectionScopes h.family hv hscope))
        fun _ _ => h.pop
  | inverted name steps =>
    rw [Render.renderStep, Render.renderStep]
    refine (h.resolve name.path false).bind fun v hv => ?_
    refine (h.applyFilters name.filters hv).bind fun v _ => ?_
    split
    · exact follows_pure trivial
    · exact h.renderSteps t indent steps out
  | partialStep name own =>
    rw [Render.renderStep, Render.renderStep]
    refine (h.partialName name).bind fun name _ => ?_
    refine (h.loadedPartial name).bind fun found _ => ?_
    split
    · exact follows_pure trivial
    · exact h.enters name _ _ _ out
  | parent name own overrides =>
    rw [Render.renderStep, Render.renderStep]
    refine (h.loadedPartial name).bind fun found _ => ?_
    split
    · exact follows_pure trivial
    · exact h.expands name overrides _ _ _ out
  | block name site steps =>
    rw [Render.renderStep, Render.renderStep]
    refine follows_get_bind fun s s' hs => ?_
    rw [h.overrides hs]
    split
    · exact h.renderSteps t indent steps out
    · exact h.renderOverride t indent site _ out

/-- **The second of two renders in lockstep follows the first**, step for step. -/
theorem renderSteps (h : Lockstep e e' deeper deeper' Q R gaveUp) (t : Template) (indent : String)
    (steps : List Step) (out : String) :
    Follows R gaveUp (renderSteps e deeper t indent steps out)
      (renderSteps e' deeper' t indent steps out) fun _ => True := by
  cases steps with
  | nil =>
    rw [Render.renderSteps, Render.renderSteps]
    exact follows_pure trivial
  | cons step steps =>
    rw [Render.renderSteps, Render.renderSteps]
    exact (h.renderStep t indent step out).bind fun out _ => h.renderSteps t indent steps out

end

end Lockstep

end Mustache.Render
