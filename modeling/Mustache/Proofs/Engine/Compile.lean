import Mustache.Engine

/-!
What compiling does to an engine's store: the ways in which a source comes to be a template, and
what each of them gives and leaves.
-/

namespace Mustache.Engine

variable {σ τ α β : Type}

/-! ### Outcomes -/

/-- What an operation gives. -/
def result (op : EStateM Error τ α) (s : τ) : Except Error α :=
  match op s with
  | .ok a _ => .ok a
  | .error err _ => .error err

/-- The state that an operation ends in, a failure included. -/
def left (op : EStateM Error τ α) (s : τ) : τ :=
  match op s with
  | .ok _ s' => s'
  | .error _ s' => s'

section

variable {op : EStateM Error τ α} {s s' : τ}

theorem result_of_ok {a : α} (h : op s = .ok a s') : result op s = .ok a := by
  unfold result
  rw [h]

theorem ok_of_result {a : α} (h : result op s = .ok a) : op s = .ok a (left op s) := by
  unfold result at h
  unfold left
  cases hrun : op s with
  | ok b t =>
    rw [hrun] at h
    rw [Except.ok.inj h]
  | error err t =>
    rw [hrun] at h
    cases h

theorem result_of_error {err : Error} (h : op s = .error err s') : result op s = .error err := by
  unfold result
  rw [h]

theorem left_of_ok {a : α} (h : op s = .ok a s') : left op s = s' := by
  unfold left
  rw [h]

theorem left_of_error {err : Error} (h : op s = .error err s') : left op s = s' := by
  unfold left
  rw [h]

end

theorem result_congr {op op' : EStateM Error τ α} {s s' : τ} (h : op s = op' s') :
    result op s = result op' s' := by
  unfold result
  rw [h]

theorem left_congr {op op' : EStateM Error τ α} {s s' : τ} (h : op s = op' s') :
    left op s = left op' s' := by
  unfold left
  rw [h]

theorem result_map (f : α → β) (op : EStateM Error τ α) (s : τ) :
    result (f <$> op) s = (result op s).map f := by
  change result (EStateM.map f op) s = _
  unfold result EStateM.map
  cases op s <;> rfl

theorem left_map (f : α → β) (op : EStateM Error τ α) (s : τ) : left (f <$> op) s = left op s := by
  change left (EStateM.map f op) s = _
  unfold left EStateM.map
  cases op s <;> rfl

theorem get_bind (next : τ → EStateM Error τ α) (s : τ) : (get >>= next) s = next s s := rfl

theorem onWorld_eq (op : EStateM Error σ α) (s : Store σ) :
    onWorld op s = .ok (result op s.world) { s with world := left op s.world } := by
  unfold onWorld result left
  cases op s.world <;> rfl

theorem onWorld_bind (op : EStateM Error σ α) (next : Except Error α → EngineM σ β) (s : Store σ) :
    (onWorld op >>= next) s = next (result op s.world) { s with world := left op s.world } := by
  change EStateM.bind (onWorld op) next s = _
  unfold EStateM.bind
  rw [onWorld_eq]

/-! ### Registries -/

@[simp] theorem find?_empty (key : String) : Registry.empty.find? key = none := rfl

@[simp] theorem find?_clear (r : Registry) (key : String) : r.clear.find? key = none := rfl

theorem find?_insert_registry (r : Registry) (key other : String) (t : Template) :
    (r.insert key t).find? other = if other = key then some t else r.find? other := by
  unfold Registry.find? Registry.insert
  rw [List.lookup_cons]
  by_cases h : other = key
  · simp [h]
  · simp [h, beq_false_of_ne h]

/-! ### Compiling -/

section

variable (e : Engine σ) (cache : Cache σ) (name source : String)

/-- How the tree of a source is come by: the cache has it, or it is parsed and offered to the
cache. -/
inductive Gets (w : σ) : Artifact → σ → Prop
  | hit {a : Artifact} (h : result (cache.get (e.cacheKey source)) w = .ok (some a)) :
      Gets w a (left (cache.get (e.cacheKey source)) w)
  | parsed {tree : List Node}
      (hmiss : ∀ a, result (cache.get (e.cacheKey source)) w ≠ .ok (some a))
      (h : e.parse source = .ok tree) :
      Gets w ⟨name, e.cacheKey source, source, tree⟩
        (left (cache.set (e.cacheKey source) ⟨name, e.cacheKey source, source, tree⟩)
          (left (cache.get (e.cacheKey source)) w))

/-- What a source can come to: the template registered before, a failure to parse it, a tree that
does not compile, and one that does. Only the last adds to the registry, and only one entry. -/
inductive Compiling (s : Store σ) : Except Error Template → Store σ → Prop
  | known {t : Template} (h : s.registry.find? (e.cacheKey source) = some t) :
      Compiling s (.ok t) s
  | malformed {err : Error} (hnew : s.registry.find? (e.cacheKey source) = none)
      (hmiss : ∀ a, result (cache.get (e.cacheKey source)) s.world ≠ .ok (some a))
      (h : e.parse source = .error err) :
      Compiling s (.error (err.inTemplate name source))
        { s with world := left (cache.get (e.cacheKey source)) s.world }
  | refused {a : Artifact} {w : σ} {err : Error}
      (hnew : s.registry.find? (e.cacheKey source) = none)
      (hgets : Gets e cache name source s.world a w)
      (h : Template.compile (e.compileOptions (e.cacheKey source)) name a.source a.tree =
        .error err) :
      Compiling s (.error (err.inTemplate name source)) { s with world := w }
  | made {a : Artifact} {w : σ} {t : Template}
      (hnew : s.registry.find? (e.cacheKey source) = none)
      (hgets : Gets e cache name source s.world a w)
      (h : Template.compile (e.compileOptions (e.cacheKey source)) name a.source a.tree = .ok t) :
      Compiling s (.ok t) ⟨s.registry.insert (e.cacheKey source) t, s.helpers, w⟩

/-- The last stage of compiling: the steps of a tree, which are registered. -/
def finish (a : Artifact) : EngineM σ Template := do
  match Template.compile (e.compileOptions (e.cacheKey source)) name a.source a.tree with
  | .error err => throw (err.inTemplate name source)
  | .ok t =>
    modify fun s => { s with registry := s.registry.insert (e.cacheKey source) t }
    return t

variable {e cache name source} {s : Store σ}

theorem compileWith_of_known {t : Template} (h : s.registry.find? (e.cacheKey source) = some t) :
    e.compileWith cache name source s = .ok t s := by
  unfold compileWith
  simp only [get_bind, h]
  rfl

theorem compileWith_of_hit {a : Artifact} (hnew : s.registry.find? (e.cacheKey source) = none)
    (h : result (cache.get (e.cacheKey source)) s.world = .ok (some a)) :
    e.compileWith cache name source s =
      e.finish name source a { s with world := left (cache.get (e.cacheKey source)) s.world } := by
  unfold compileWith
  simp only [get_bind, onWorld_bind, hnew, h]
  rfl

theorem compileWith_of_miss (hnew : s.registry.find? (e.cacheKey source) = none)
    (h : ∀ a, result (cache.get (e.cacheKey source)) s.world ≠ .ok (some a)) :
    e.compileWith cache name source s =
      (e.parseArtifact cache name (e.cacheKey source) source >>= e.finish name source)
        { s with world := left (cache.get (e.cacheKey source)) s.world } := by
  unfold compileWith
  simp only [get_bind, onWorld_bind, hnew]
  cases e.parseArtifact cache name (e.cacheKey source) source
    { s with world := left (cache.get (e.cacheKey source)) s.world } <;> rfl

theorem finish_of_error {a : Artifact} {err : Error}
    (h : Template.compile (e.compileOptions (e.cacheKey source)) name a.source a.tree =
      .error err) :
    e.finish name source a s = .error (err.inTemplate name source) s := by
  unfold finish
  rw [h]
  rfl

theorem finish_of_ok {a : Artifact} {t : Template}
    (h : Template.compile (e.compileOptions (e.cacheKey source)) name a.source a.tree = .ok t) :
    e.finish name source a s =
      .ok t { s with registry := s.registry.insert (e.cacheKey source) t } := by
  unfold finish
  rw [h]
  rfl

theorem parseArtifact_of_error {key : String} {err : Error} (h : e.parse source = .error err) :
    e.parseArtifact cache name key source s = .error (err.inTemplate name source) s := by
  unfold parseArtifact
  rw [h]
  rfl

theorem parseArtifact_of_ok {key : String} {tree : List Node} (h : e.parse source = .ok tree) :
    e.parseArtifact cache name key source s =
      .ok ⟨name, key, source, tree⟩
        { s with world := left (cache.set key ⟨name, key, source, tree⟩) s.world } := by
  unfold parseArtifact
  simp only [h, bind, EStateM.bind, onWorld_eq]
  rfl

/-- What comes after the tree of a source is there. -/
theorem compiling_of_finish {a : Artifact} {w : σ}
    (hnew : s.registry.find? (e.cacheKey source) = none)
    (hgets : Gets e cache name source s.world a w)
    (h : e.compileWith cache name source s = e.finish name source a { s with world := w }) :
    Compiling e cache name source s (result (e.compileWith cache name source) s)
      (left (e.compileWith cache name source) s) := by
  cases hc : Template.compile (e.compileOptions (e.cacheKey source)) name a.source a.tree with
  | error err =>
    rw [finish_of_error hc] at h
    rw [result_of_error h, left_of_error h]
    exact .refused hnew hgets hc
  | ok t =>
    rw [finish_of_ok hc] at h
    rw [result_of_ok h, left_of_ok h]
    exact .made hnew hgets hc

/-- **Compiling takes one of its four courses.** -/
theorem compiling_compileWith (e : Engine σ) (cache : Cache σ) (name source : String)
    (s : Store σ) :
    Compiling e cache name source s (result (e.compileWith cache name source) s)
      (left (e.compileWith cache name source) s) := by
  cases hnew : s.registry.find? (e.cacheKey source) with
  | some t =>
    have h : e.compileWith cache name source s = .ok t s := compileWith_of_known hnew
    rw [result_of_ok h, left_of_ok h]
    exact .known hnew
  | none =>
    by_cases hhit : ∃ a, result (cache.get (e.cacheKey source)) s.world = .ok (some a)
    · obtain ⟨a, ha⟩ := hhit
      exact compiling_of_finish hnew (.hit ha) (compileWith_of_hit hnew ha)
    · have hmiss := not_exists.mp hhit
      have hcompile : e.compileWith cache name source s =
          (e.parseArtifact cache name (e.cacheKey source) source >>= e.finish name source)
            { s with world := left (cache.get (e.cacheKey source)) s.world } :=
        compileWith_of_miss hnew hmiss
      cases hparse : e.parse source with
      | error err =>
        have h : e.compileWith cache name source s = .error (err.inTemplate name source)
            { s with world := left (cache.get (e.cacheKey source)) s.world } := by
          rw [hcompile]
          simp only [bind, EStateM.bind, parseArtifact_of_error hparse]
        rw [result_of_error h, left_of_error h]
        exact .malformed hnew hmiss hparse
      | ok tree =>
        refine compiling_of_finish hnew (.parsed hmiss hparse) ?_
        rw [hcompile]
        simp only [bind, EStateM.bind, parseArtifact_of_ok hparse]

section

variable {r : Except Error Template} {s' : Store σ}

theorem helpers_of_compiling (h : Compiling e cache name source s r s') :
    s'.helpers = s.helpers := by
  cases h <;> rfl

/-- The world goes through the cache's hands only. -/
theorem world_of_compiling {R : σ → σ → Prop} (hrefl : ∀ w, R w w)
    (htrans : ∀ {w₁ w₂ w₃}, R w₁ w₂ → R w₂ w₃ → R w₁ w₃)
    (hget : ∀ key w, R w (left (cache.get key) w)) (hset : ∀ key a w, R w (left (cache.set key a) w))
    (h : Compiling e cache name source s r s') : R s.world s'.world := by
  have hgets : ∀ {a w}, Gets e cache name source s.world a w → R s.world w := by
    intro a w h
    cases h with
    | hit _ => exact hget _ _
    | parsed _ _ => exact htrans (hget _ _) (hset _ _ _)
  cases h with
  | known _ => exact hrefl _
  | malformed _ _ _ => exact hget _ _
  | refused _ h _ => exact hgets h
  | made _ h _ => exact hgets h

end

/-! ### Loading -/

theorem loadPartial_of_source (h : e.partials s.world name = .ok source) :
    e.loadPartial name s = (some <$> e.compileWith e.cache name source) s := by
  unfold loadPartial
  simp only [get_bind, h]
  rw [map_eq_pure_bind]

theorem loadPartial_of_error {err : Error} (h : e.partials s.world name = .error err) :
    e.loadPartial name s = if err.isUnknownTemplate then .ok none s else .error err s := by
  unfold loadPartial
  simp only [get_bind, h]
  split <;> rfl

/-- Loading a partial compiles its source, or leaves the store alone. -/
theorem left_loadPartial (e : Engine σ) (name : String) (s : Store σ) :
    left (e.loadPartial name) s = s ∨ ∃ source, e.partials s.world name = .ok source ∧
      left (e.loadPartial name) s = left (e.compileWith e.cache name source) s := by
  cases h : e.partials s.world name with
  | error err =>
    have hload := loadPartial_of_error h
    left
    by_cases hunknown : err.isUnknownTemplate
    · rw [if_pos hunknown] at hload
      exact left_of_ok hload
    · rw [if_neg hunknown] at hload
      exact left_of_error hload
  | ok source =>
    refine Or.inr ⟨source, rfl, ?_⟩
    rw [left_congr (loadPartial_of_source h), left_map]

/-- A partial that is found is a template that its source comes to. -/
theorem exists_source_of_loadPartial {t : Template}
    (h : result (e.loadPartial name) s = .ok (some t)) :
    ∃ source, e.partials s.world name = .ok source ∧
      result (e.compileWith e.cache name source) s = .ok t := by
  cases hsource : e.partials s.world name with
  | error err =>
    have hload := loadPartial_of_error hsource
    by_cases hunknown : err.isUnknownTemplate
    · rw [if_pos hunknown] at hload
      simp [result_of_ok hload] at h
    · rw [if_neg hunknown] at hload
      simp [result_of_error hload] at h
  | ok source =>
    refine ⟨source, rfl, ?_⟩
    rw [result_congr (loadPartial_of_source hsource), result_map] at h
    cases hr : result (e.compileWith e.cache name source) s with
    | error err => simp [hr, Except.map] at h
    | ok t' =>
      simp only [hr, Except.map, Except.ok.injEq, Option.some.injEq] at h
      rw [h]

theorem loadTemplate_of_source (h : e.loader s.world name = .ok source) :
    e.loadTemplate name s =
      e.compileWith e.cache (if source = name then "inline" else name) source s := by
  unfold loadTemplate
  simp only [get_bind, h]

theorem loadTemplate_of_error {err : Error} (h : e.loader s.world name = .error err) :
    e.loadTemplate name s = .error err s := by
  unfold loadTemplate
  simp only [get_bind, h]
  rfl

theorem helpers_loadTemplate (e : Engine σ) (name : String) (s : Store σ) :
    (left (e.loadTemplate name) s).helpers = s.helpers := by
  cases hsource : e.loader s.world name with
  | error err => rw [left_of_error (loadTemplate_of_error hsource)]
  | ok source =>
    rw [left_congr (loadTemplate_of_source hsource)]
    exact helpers_of_compiling (compiling_compileWith e e.cache _ source s)

/-- All but the steps of a template is settled before it is compiled. -/
theorem fields_of_compile {options : CompileOptions} {tree : List Node} {t : Template}
    (h : Template.compile options name source tree = .ok t) :
    ∃ steps, t = ⟨name, options.key, source, options.escape, options.strictCallables, steps⟩ := by
  unfold Template.compile at h
  split at h
  · rename_i steps w hsteps
    exact ⟨steps, (Except.ok.inj h).symm⟩
  · cases h

end

/-! ### What a source comes to -/

section

variable {e : Engine σ} {cache : Cache σ} {name source : String} {s s' : Store σ}

/-- What a source comes to without a cache, with these templates registered. -/
def comesTo (e : Engine σ) (registry : Registry) (name source : String) : Except Error Template :=
  match registry.find? (e.cacheKey source) with
  | some t => .ok t
  | none =>
    match e.parse source >>= Template.compile (e.compileOptions (e.cacheKey source)) name source with
    | .ok t => .ok t
    | .error err => .error (err.inTemplate name source)

/-- The templates that are registered after that. -/
def registers (e : Engine σ) (registry : Registry) (name source : String) : Registry :=
  match registry.find? (e.cacheKey source), e.comesTo registry name source with
  | none, .ok t => registry.insert (e.cacheKey source) t
  | _, _ => registry

/-- A cache that has the source's own tree, if any, has no part in what a source comes to. -/
theorem comesTo_of_compiling {r : Except Error Template}
    (hgets : ∀ {a w}, Gets e cache name source s.world a w →
      a.source = source ∧ e.parse source = .ok a.tree)
    (h : Compiling e cache name source s r s') :
    r = e.comesTo s.registry name source ∧ s'.registry = e.registers s.registry name source := by
  unfold registers comesTo
  cases h with
  | known hknown =>
    rw [hknown]
    exact ⟨rfl, rfl⟩
  | malformed hnew _ hparse =>
    rw [hnew, hparse]
    exact ⟨rfl, rfl⟩
  | refused hnew h hcompile =>
    obtain ⟨hsource, hparse⟩ := hgets h
    rw [hsource] at hcompile
    rw [hnew, hparse]
    simp only [bind, Except.bind, hcompile]
    exact ⟨trivial, trivial⟩
  | made hnew h hcompile =>
    obtain ⟨hsource, hparse⟩ := hgets h
    rw [hsource] at hcompile
    rw [hnew, hparse]
    simp only [bind, Except.bind, hcompile]
    exact ⟨trivial, trivial⟩

end

end Mustache.Engine
