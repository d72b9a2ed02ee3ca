import Mustache.Proofs.Engine.History

/-!
Two renders side by side. If compiling one source gives two engines templates that print alike,
and their callables go on alike, then all of a render does: it gives the same text, or fails with
related errors, and leaves related stores. Main statements: `Parallel.renderLevels` and
`Parallel.render`.
-/

namespace Mustache

variable {σ τ α β : Type}

/-! ### Outcomes side by side -/

/-- Both outcomes are values related by `A`, or both are errors related by `E`. -/
def Agree (E : Error → Error → Prop) (A : α → α → Prop) : Except Error α → Except Error α → Prop
  | .ok a, .ok a' => A a a'
  | .error err, .error err' => E err err'
  | _, _ => False

theorem agree_eq_iff {r r' : Except Error α} : Agree Eq Eq r r' ↔ r = r' := by
  cases r <;> cases r' <;> simp [Agree]

theorem agree_refl {E : Error → Error → Prop} (hE : ∀ err, E err err) (r : Except Error α) :
    Agree E Eq r r := by
  cases r with
  | ok a => exact rfl
  | error err => exact hE err

theorem Agree.imp {E E' : Error → Error → Prop} {A A' : α → α → Prop} {r r' : Except Error α}
    (h : Agree E A r r') (hE : ∀ err err', E err err' → E' err err')
    (hA : ∀ a a', A a a' → A' a a') : Agree E' A' r r' := by
  cases r <;> cases r'
  · exact hE _ _ h
  · exact h
  · exact h
  · exact hA _ _ h

/-- Two runs end in related states, with related values or with related errors. -/
def EndAlike (R : τ → τ → Prop) (E : Error → Error → Prop) (A : α → α → Prop) :
    EStateM.Result Error τ α → EStateM.Result Error τ α → Prop
  | .ok a t, .ok a' t' => R t t' ∧ A a a'
  | .error err t, .error err' t' => R t t' ∧ E err err'
  | _, _ => False

/-- From related states two operations end alike. -/
def Alike (R : τ → τ → Prop) (E : Error → Error → Prop) (A : α → α → Prop)
    (op op' : EStateM Error τ α) : Prop :=
  ∀ s s', R s s' → EndAlike R E A (op s) (op' s')

section

variable {R : τ → τ → Prop} {E : Error → Error → Prop} {A : α → α → Prop} {B : β → β → Prop}
  {op op' : EStateM Error τ α}

theorem alike_pure {a a' : α} (h : A a a') : Alike R E A (pure a) (pure a') :=
  fun _ _ hs => ⟨hs, h⟩

theorem alike_throw {err err' : Error} (h : E err err') : Alike R E A (throw err) (throw err') :=
  fun _ _ hs => ⟨hs, h⟩

theorem alike_get : Alike R E R get get := fun _ _ hs => ⟨hs, hs⟩

theorem alike_modify {f f' : τ → τ} (h : ∀ s s', R s s' → R (f s) (f' s')) :
    Alike R E Eq (modify f) (modify f') := fun s s' hs => ⟨h s s' hs, rfl⟩

theorem Alike.bind {next next' : α → EStateM Error τ β} (hop : Alike R E A op op')
    (hnext : ∀ a a', A a a' → Alike R E B (next a) (next' a')) :
    Alike R E B (op >>= next) (op' >>= next') := by
  intro s s' hs
  have h := hop s s' hs
  change EndAlike R E B (EStateM.bind op next s) (EStateM.bind op' next' s')
  unfold EStateM.bind
  cases hrun : op s with
  | ok a t =>
    cases hrun' : op' s' with
    | ok a' t' =>
      rw [hrun, hrun'] at h
      exact hnext a a' h.2 t t' h.1
    | error err' t' =>
      rw [hrun, hrun'] at h
      exact h.elim
  | error err t =>
    cases hrun' : op' s' with
    | ok a' t' =>
      rw [hrun, hrun'] at h
      exact h.elim
    | error err' t' =>
      rw [hrun, hrun'] at h
      exact h

theorem Alike.map {f f' : α → β} (hop : Alike R E A op op')
    (hf : ∀ a a', A a a' → B (f a) (f' a')) :
    Alike R E B (f <$> op) (f' <$> op') := by
  rw [map_eq_pure_bind, map_eq_pure_bind]
  exact hop.bind fun a a' ha => alike_pure (hf a a' ha)

theorem alike_foldlM {γ : Type} {f f' : β → γ → EStateM Error τ β} {xs : List γ}
    (hf : ∀ b, ∀ x ∈ xs, Alike R E Eq (f b x) (f' b x)) (b : β) :
    Alike R E Eq (xs.foldlM f b) (xs.foldlM f' b) := by
  induction xs generalizing b with
  | nil => exact alike_pure rfl
  | cons x xs ih =>
    rw [List.foldlM_cons, List.foldlM_cons]
    refine (hf b x List.mem_cons_self).bind fun b' b'' hb => ?_
    subst hb
    exact ih (fun b y hy => hf b y (List.mem_cons_of_mem x hy)) b'

theorem Alike.result (h : Alike R E A op op') {s s' : τ} (hs : R s s') :
    Agree E A (Engine.result op s) (Engine.result op' s') := by
  have h := h s s' hs
  unfold Engine.result
  cases hrun : op s <;> cases hrun' : op' s' <;> rw [hrun, hrun'] at h
  · exact h.2
  · exact h
  · exact h
  · exact h.2

theorem Alike.left (h : Alike R E A op op') {s s' : τ} (hs : R s s') :
    R (Engine.left op s) (Engine.left op' s') := by
  have h := h s s' hs
  unfold Engine.left
  cases hrun : op s <;> cases hrun' : op' s' <;> rw [hrun, hrun'] at h
  · exact h.1
  · exact h.elim
  · exact h.elim
  · exact h.1

theorem alike_of_result_left (hresult : ∀ s s', R s s' →
      Agree E A (Engine.result op s) (Engine.result op' s'))
    (hleft : ∀ s s', R s s' → R (Engine.left op s) (Engine.left op' s')) :
    Alike R E A op op' := by
  intro s s' hs
  have hr := hresult s s' hs
  have hl := hleft s s' hs
  unfold Engine.result at hr
  unfold Engine.left at hl
  cases hrun : op s <;> cases hrun' : op' s' <;> rw [hrun, hrun'] at hr hl
  · exact ⟨hl, hr⟩
  · exact hr.elim
  · exact hr.elim
  · exact ⟨hl, hr⟩

end

/-! ### Loading side by side -/

section

variable {e e' : Engine σ} {S : Engine.Store σ → Engine.Store σ → Prop} {E : Error → Error → Prop}
  {T : Template → Template → Prop} (hrefl : ∀ err, E err err)

include hrefl

theorem alike_loadTemplate
    (hloader : ∀ {s s'}, S s s' → ∀ name, e'.loader s'.world name = e.loader s.world name)
    (hcompiles : ∀ name source,
      Alike S E T (e.compileWith e.cache name source) (e'.compileWith e'.cache name source))
    (name : String) : Alike S E T (e.loadTemplate name) (e'.loadTemplate name) := by
  intro s s' hs
  have hsource := hloader hs name
  cases hload : e.loader s.world name with
  | error err =>
    rw [hload] at hsource
    rw [Engine.loadTemplate_of_error hload, Engine.loadTemplate_of_error hsource]
    exact ⟨hs, hrefl err⟩
  | ok source =>
    rw [hload] at hsource
    rw [Engine.loadTemplate_of_source hload, Engine.loadTemplate_of_source hsource]
    exact hcompiles _ source s s' hs

theorem alike_loadPartial
    (hpartials : ∀ {s s'}, S s s' → ∀ name, e'.partials s'.world name = e.partials s.world name)
    (hcompiles : ∀ name source,
      Alike S E T (e.compileWith e.cache name source) (e'.compileWith e'.cache name source))
    (name : String) : Alike S E (Option.Rel T) (e.loadPartial name) (e'.loadPartial name) := by
  intro s s' hs
  have hsource := hpartials hs name
  cases hload : e.partials s.world name with
  | error err =>
    rw [hload] at hsource
    rw [Engine.loadPartial_of_error hload, Engine.loadPartial_of_error hsource]
    by_cases hunknown : err.isUnknownTemplate
    · rw [if_pos hunknown, if_pos hunknown]
      exact ⟨hs, .none⟩
    · rw [if_neg hunknown, if_neg hunknown]
      exact ⟨hs, hrefl err⟩
  | ok source =>
    rw [hload] at hsource
    rw [Engine.loadPartial_of_source hload, Engine.loadPartial_of_source hsource]
    exact (hcompiles name source).map (fun _ _ ht => .some ht) s s' hs

omit hrefl

theorem alike_loadLambda (hdelimiters : e'.delimiters = e.delimiters)
    (hcaches : e'.config.cacheLambdaTemplates = e.config.cacheLambdaTemplates)
    (hcompiles : ∀ name source,
      Alike S E T (e.compileWith e.cache name source) (e'.compileWith e'.cache name source))
    (huncached : ∀ name source,
      Alike S E T (e.compileWith Cache.none name source) (e'.compileWith Cache.none name source))
    (text : String) (d : Option Delimiters) :
    Alike S E T (e.loadLambda text d) (e'.loadLambda text d) := by
  have hsource : e'.lambdaSource text d = e.lambdaSource text d := by
    unfold Engine.lambdaSource
    rw [hdelimiters]
  unfold Engine.loadLambda
  rw [hsource, hcaches]
  split
  · exact hcompiles "lambda" _
  · exact huncached "lambda" _

end

/-! ### Calls side by side -/

/-- Two calls that ask for the same texts, and end alike if they are told outcomes that agree. -/
inductive Act.Alike (S : Engine.Store σ → Engine.Store σ → Prop) (E : Error → Error → Prop) :
    Engine.Store σ → Engine.Store σ → Act σ → Act σ → Prop
  | done {s s' : Engine.Store σ} {r r' : Except Error Value} {w w' : σ} (hr : Agree E Eq r r')
      (hs : S { s with world := w } { s' with world := w' }) :
      Act.Alike S E s s' (.done r w) (.done r' w')
  | render {s s' : Engine.Store σ} {text : String} {w w' : σ}
      {next next' : Except Error String → σ → Act σ}
      (hs : S { s with world := w } { s' with world := w' })
      (hnext : ∀ out out' t t', Agree E Eq out out' → S t t' →
        Act.Alike S E t t' (next out t.world) (next' out' t'.world)) :
      Act.Alike S E s s' (.render text w next) (.render text w' next')

/-- What two engines need to have in common for their renders to go on alike from stores related
by `S`: errors are related by `E` and templates of one source by `T`. -/
structure Parallel (e e' : Engine σ) (S : Engine.Store σ → Engine.Store σ → Prop)
    (E : Error → Error → Prop) (T : Template → Template → Prop) : Prop where
  refl : ∀ err, E err err
  maxDepth : e'.config.maxDepth = e.config.maxDepth
  delimiters : e'.delimiters = e.delimiters
  cacheLambdaTemplates : e'.config.cacheLambdaTemplates = e.config.cacheLambdaTemplates
  limit : ∀ {t t'} depth, T t t' → E (.recursionLimit depth t.name) (.recursionLimit depth t'.name)
  twin : ∀ {t t'}, T t t' →
    t'.strictCallables = t.strictCallables ∧ t'.escape = t.escape ∧ t'.steps = t.steps
  helpers : ∀ {s s'}, S s s' → s'.helpers = s.helpers
  loader : ∀ {s s'}, S s s' → ∀ name, e'.loader s'.world name = e.loader s.world name
  partials : ∀ {s s'}, S s s' → ∀ name, e'.partials s'.world name = e.partials s.world name
  compiles : ∀ name source,
    Alike S E T (e.compileWith e.cache name source) (e'.compileWith e'.cache name source)
  compilesUncached : ∀ name source,
    Alike S E T (e.compileWith Cache.none name source) (e'.compileWith Cache.none name source)
  nullary : ∀ {s s'}, S s s' → ∀ id,
    Agree E Eq (e.host.nullary id s.world).1 (e'.host.nullary id s'.world).1 ∧
      S { s with world := (e.host.nullary id s.world).2 }
        { s' with world := (e'.host.nullary id s'.world).2 }
  unary : ∀ {s s'}, S s s' → ∀ id v d,
    Act.Alike S E s s' (e.host.unary id v d s.world) (e'.host.unary id v d s'.world)

namespace Parallel

variable {e e' : Engine σ} {S : Engine.Store σ → Engine.Store σ → Prop}
  {E : Error → Error → Prop} {T : Template → Template → Prop} (h : Parallel e e' S E T)

include h

/-! ### Loading -/

theorem loadTemplate (name : String) :
    Alike S E T (e.loadTemplate name) (e'.loadTemplate name) :=
  alike_loadTemplate h.refl h.loader h.compiles name

theorem loadPartial (name : String) :
    Alike S E (Option.Rel T) (e.loadPartial name) (e'.loadPartial name) :=
  alike_loadPartial h.refl h.partials h.compiles name

theorem loadLambda (text : String) (d : Option Delimiters) :
    Alike S E T (e.loadLambda text d) (e'.loadLambda text d) :=
  alike_loadLambda h.delimiters h.cacheLambdaTemplates h.compiles h.compilesUncached text d

end Parallel

namespace Render

/-! ### Parts of a render -/

/-- Two states at the same place of a render, with related stores. -/
structure Aligned (S : Engine.Store σ → Engine.Store σ → Prop) (s s' : State σ) : Prop extends
    SamePlace s s' where
  store : S s.store s'.store

section

variable {S : Engine.Store σ → Engine.Store σ → Prop} {E : Error → Error → Prop}
  {A : α → α → Prop} {act act' : RenderM σ α}

theorem alike_between {before back : State σ → State σ}
    (hbefore : ∀ s s', Aligned S s s' → Aligned S (before s) (before s'))
    (hback : ∀ s s', Aligned S s s' → Aligned S (back s) (back s'))
    (hact : Alike (Aligned S) E A act act') :
    Alike (Aligned S) E A (between before back act) (between before back act') := by
  intro s s' hs
  have h := hact _ _ (hbefore s s' hs)
  unfold between
  cases hrun : act (before s) <;> cases hrun' : act' (before s') <;> rw [hrun, hrun'] at h
  · exact ⟨hback _ _ h.1, h.2⟩
  · exact h.elim
  · exact h.elim
  · exact ⟨hback _ _ h.1, h.2⟩

theorem alike_inScope (v : Value) (hact : Alike (Aligned S) E A act act') :
    Alike (Aligned S) E A (inScope v act) (inScope v act') :=
  alike_between (fun _ _ hs => ⟨⟨congrArg (v :: ·) hs.scopes, hs.overrides, hs.depth⟩, hs.store⟩)
    (fun _ _ hs => ⟨⟨congrArg List.tail hs.scopes, hs.overrides, hs.depth⟩, hs.store⟩) hact

theorem alike_withOverrides (os : List (Override Step)) (hact : Alike (Aligned S) E A act act') :
    Alike (Aligned S) E A (withOverrides os act) (withOverrides os act') :=
  alike_between (fun _ _ hs => ⟨⟨hs.scopes, congrArg (os :: ·) hs.overrides, hs.depth⟩, hs.store⟩)
    (fun _ _ hs => ⟨⟨hs.scopes, congrArg List.tail hs.overrides, hs.depth⟩, hs.store⟩) hact

theorem alike_entering {limit : Nat} {name name' : String}
    (hlimit : E (.recursionLimit limit name) (.recursionLimit limit name'))
    (hact : Alike (Aligned S) E A act act') :
    Alike (Aligned S) E A (entering limit name act) (entering limit name' act') := by
  unfold entering
  refine alike_get.bind fun s s' hs => ?_
  rw [hs.depth]
  split
  · refine alike_between (fun _ _ hs => ?_) (fun _ _ hs => ?_) hact
    · exact ⟨⟨hs.scopes, hs.overrides, congrArg (· + 1) hs.depth⟩, hs.store⟩
    · exact ⟨⟨hs.scopes, hs.overrides, congrArg (· - 1) hs.depth⟩, hs.store⟩
  · exact alike_throw hlimit

theorem alike_onStore {op op' : Engine.EngineM σ α} (hop : Alike S E A op op') :
    Alike (Aligned S) E A (onStore op) (onStore op') := by
  intro s s' hs
  have h := hop _ _ hs.store
  unfold onStore
  cases hrun : op s.store <;> cases hrun' : op' s'.store <;> rw [hrun, hrun'] at h
  · exact ⟨⟨⟨hs.scopes, hs.overrides, hs.depth⟩, h.1⟩, h.2⟩
  · exact h.elim
  · exact h.elim
  · exact ⟨⟨⟨hs.scopes, hs.overrides, hs.depth⟩, h.1⟩, h.2⟩

theorem alike_resolve (hE : ∀ err, E err err) (name : String) (strict : Bool) :
    Alike (Aligned S) E Eq (resolve name strict) (resolve name strict) := by
  unfold resolve
  refine alike_get.bind fun s s' hs => ?_
  rw [hs.scopes]
  split
  · exact alike_pure rfl
  · exact alike_throw (hE _)

theorem alike_partialName (hE : ∀ err, E err err) (name : PartialName) :
    Alike (Aligned S) E Eq (partialName name) (partialName name) := by
  cases name with
  | fixed name => exact alike_pure rfl
  | dynamic path =>
    refine (alike_resolve hE path false).bind fun v v' hv => ?_
    subst hv
    exact alike_pure rfl

end

end Render

namespace Parallel

open Render

variable {e e' : Engine σ} {S : Engine.Store σ → Engine.Store σ → Prop}
  {E : Error → Error → Prop} {T : Template → Template → Prop} (h : Parallel e e' S E T)

include h

theorem callNullary (id : Nat) :
    Alike (Aligned S) E Eq (callNullary e id) (callNullary e' id) := by
  intro s s' hs
  obtain ⟨hr, hstore⟩ := h.nullary hs.store id
  rw [callNullary_eq, callNullary_eq]
  unfold callWorld
  cases hrun : (e.host.nullary id s.store.world).1 <;>
    cases hrun' : (e'.host.nullary id s'.store.world).1 <;> rw [hrun, hrun'] at hr
  · exact ⟨⟨⟨hs.scopes, hs.overrides, hs.depth⟩, hstore⟩, hr⟩
  · exact hr.elim
  · exact hr.elim
  · exact ⟨⟨⟨hs.scopes, hs.overrides, hs.depth⟩, hstore⟩, hr⟩

theorem called (strict : Bool) (v : Value) :
    Alike (Aligned S) E Eq (called e strict v) (called e' strict v) := by
  unfold Render.called
  split
  · exact (h.callNullary _).map fun _ _ hv => congrArg some hv
  · exact alike_pure rfl
  · exact alike_pure rfl

section

variable {deeper deeper' : Renderer σ}
  (hdeeper : ∀ t t' indent steps out, T t t' →
    Alike (Aligned S) E Eq (deeper t indent steps out) (deeper' t' indent steps out))

include hdeeper

theorem renderText (text : String) (d : Option Delimiters) :
    Alike (Aligned S) E Eq (renderText e deeper text d) (renderText e' deeper' text d) := by
  unfold Render.renderText
  rw [h.delimiters, h.maxDepth]
  dsimp only
  split
  · refine (alike_onStore (h.loadLambda text d)).bind fun t t' ht => ?_
    rw [(h.twin ht).2.2]
    exact alike_entering (h.limit _ ht) (hdeeper t t' "" t.steps "" ht)
  · exact alike_pure rfl

theorem runAct {s s' : Engine.Store σ} {act act' : Act σ} (hact : Act.Alike S E s s' act act')
    (d : Delimiters) {r r' : State σ} (hplace : SamePlace r r') (hr : r.store = s)
    (hr' : r'.store = s') :
    EndAlike (Aligned S) E Eq (runAct e deeper d act r) (runAct e' deeper' d act' r') := by
  induction hact generalizing r r' with
  | @done s s' v v' w w' hv hs =>
    subst hr hr'
    have haligned : Aligned S (setWorld w r) (setWorld w' r') :=
      ⟨⟨hplace.scopes, hplace.overrides, hplace.depth⟩, hs⟩
    cases v <;> cases v'
    · exact ⟨haligned, hv⟩
    · exact hv.elim
    · exact hv.elim
    · exact ⟨haligned, hv⟩
  | @render s s' text w w' next next' hs _ ih =>
    subst hr hr'
    have haligned : Aligned S (setWorld w r) (setWorld w' r') :=
      ⟨⟨hplace.scopes, hplace.overrides, hplace.depth⟩, hs⟩
    have htext := h.renderText hdeeper text (some d) _ _ haligned
    rw [runAct_render, runAct_render]
    unfold attempt
    cases hrun : Render.renderText e deeper text (some d) (setWorld w r) <;>
      cases hrun' : Render.renderText e' deeper' text (some d) (setWorld w' r') <;>
      rw [hrun, hrun'] at htext
    · exact ih (.ok _) (.ok _) _ _ htext.2 htext.1.store htext.1.toSamePlace rfl rfl
    · exact htext.elim
    · exact htext.elim
    · exact ih (.error _) (.error _) _ _ htext.2 htext.1.store htext.1.toSamePlace rfl rfl

theorem callUnary (id : Nat) (v : Value) (d : Delimiters) :
    Alike (Aligned S) E Eq (callUnary e deeper id v d) (callUnary e' deeper' id v d) :=
  fun _ _ hs => h.runAct hdeeper (h.unary hs.store id v d) d hs.toSamePlace rfl rfl

theorem applyFilters (filters : List String) (v : Value) :
    Alike (Aligned S) E Eq (applyFilters e deeper filters v)
      (applyFilters e' deeper' filters v) := by
  refine alike_foldlM (fun v name _ => ?_) v
  unfold applyFilter
  refine (alike_resolve h.refl name false).bind fun f f' hf => ?_
  subst hf
  rw [h.delimiters]
  split
  · exact h.callUnary hdeeper _ _ _
  · exact h.callNullary _
  · exact alike_throw (h.refl _)

theorem interpolate {t t' : Template} (ht : T t t') (name : Name) (strict : Bool) :
    Alike (Aligned S) E Eq (interpolate e deeper t name strict)
      (interpolate e' deeper' t' name strict) := by
  have hfilters : ∀ v, Alike (Aligned S) E Eq
      (do return (← Render.applyFilters e deeper name.filters v).display)
      (do return (← Render.applyFilters e' deeper' name.filters v).display) := by
    intro v
    refine (h.applyFilters hdeeper name.filters v).bind fun v v' hv => ?_
    subst hv
    exact alike_pure rfl
  unfold Render.interpolate
  rw [(h.twin ht).1]
  refine (alike_resolve h.refl name.path strict).bind fun v v' hv => ?_
  subst hv
  refine (h.called t.strictCallables v).bind fun result result' hresult => ?_
  subst hresult
  split
  · refine ((h.renderText hdeeper _ none).map fun _ _ htext => congrArg Value.string htext).bind
      fun v v' hv => ?_
    subst hv
    exact hfilters v
  · exact hfilters v

/-! ### Steps -/

theorem renderOverride {t t' : Template} (ht : T t t') (indent : String) (site : Option String)
    (o : Override Step) (out : String) :
    Alike (Aligned S) E Eq (renderOverride e deeper t indent site o out)
      (renderOverride e' deeper' t' indent site o out) := by
  unfold Render.renderOverride
  rw [h.maxDepth]
  split
  · exact alike_entering (h.refl _) (hdeeper t t' indent o.steps out ht)
  · have hbody := alike_entering (h.refl (.recursionLimit e.config.maxDepth o.name))
      (hdeeper t t' "" o.steps "" ht)
    refine hbody.bind fun body body' heq => ?_
    subst heq
    exact alike_pure rfl

end

omit h

mutual

theorem renderStep (h : Parallel e e' S E T) {deeper deeper' : Renderer σ}
    (hdeeper : ∀ t t' indent steps out, T t t' →
      Alike (Aligned S) E Eq (deeper t indent steps out) (deeper' t' indent steps out))
    {t t' : Template} (ht : T t t') (indent : String) (step : Step) (out : String) :
    Alike (Aligned S) E Eq (renderStep e deeper t indent step out)
      (renderStep e' deeper' t' indent step out) := by
  cases step with
  | text text lineStart =>
    rw [Render.renderStep, Render.renderStep]
    exact alike_pure rfl
  | interpolation name escape strict lineStart =>
    rw [Render.renderStep, Render.renderStep, (h.twin ht).2.1]
    refine (h.interpolate hdeeper ht name strict).bind fun text text' htext => ?_
    subst htext
    exact alike_pure rfl
  | sectionStep name strict body delimiters steps =>
    rw [Render.renderStep, Render.renderStep, (h.twin ht).1]
    refine (alike_resolve h.refl name.path strict).bind fun v v' hv => ?_
    subst hv
    refine (h.applyFilters hdeeper name.filters v).bind fun v v' hv => ?_
    subst hv
    split
    · refine (h.callUnary hdeeper _ _ delimiters).bind fun result result' hresult => ?_
      subst hresult
      refine (h.renderText hdeeper _ _).bind fun text text' htext => ?_
      subst htext
      exact alike_pure rfl
    · refine (h.callNullary _).bind fun result result' hresult => ?_
      subst hresult
      refine (h.renderText hdeeper _ _).bind fun text text' htext => ?_
      subst htext
      exact alike_pure rfl
    · exact alike_foldlM (fun out scope _ =>
        alike_inScope scope (h.renderSteps hdeeper ht indent steps out)) out
  | inverted name steps =>
    rw [Render.renderStep, Render.renderStep]
    refine (alike_resolve h.refl name.path false).bind fun v v' hv => ?_
    subst hv
    refine (h.applyFilters hdeeper name.filters v).bind fun v v' hv => ?_
    subst hv
    split
    · exact alike_pure rfl
    · exact h.renderSteps hdeeper ht indent steps out
  | partialStep name own =>
    rw [Render.renderStep, Render.renderStep, h.maxDepth]
    refine (alike_partialName h.refl name).bind fun name name' hname => ?_
    subst hname
    refine (alike_onStore (h.loadPartial name)).bind fun found found' hfound => ?_
    cases hfound with
    | none => exact alike_pure rfl
    | @some p p' hp =>
      dsimp only
      rw [(h.twin hp).2.2]
      exact alike_entering (h.refl _) (hdeeper p p' _ _ out hp)
  | parent name own overrides =>
    rw [Render.renderStep, Render.renderStep, h.maxDepth]
    refine (alike_onStore (h.loadPartial name)).bind fun found found' hfound => ?_
    cases hfound with
    | none => exact alike_pure rfl
    | @some p p' hp =>
      dsimp only
      rw [(h.twin hp).2.2]
      exact alike_entering (h.refl _) (alike_withOverrides overrides (hdeeper p p' _ _ out hp))
  | block name site steps =>
    rw [Render.renderStep, Render.renderStep]
    refine alike_get.bind fun s s' hs => ?_
    rw [hs.overrides]
    split
    · exact h.renderSteps hdeeper ht indent steps out
    · exact h.renderOverride hdeeper ht indent site _ out

theorem renderSteps (h : Parallel e e' S E T) {deeper deeper' : Renderer σ}
    (hdeeper : ∀ t t' indent steps out, T t t' →
      Alike (Aligned S) E Eq (deeper t indent steps out) (deeper' t' indent steps out))
    {t t' : Template} (ht : T t t') (indent : String) (steps : List Step) (out : String) :
    Alike (Aligned S) E Eq (renderSteps e deeper t indent steps out)
      (renderSteps e' deeper' t' indent steps out) := by
  cases steps with
  | nil =>
    rw [Render.renderSteps, Render.renderSteps]
    exact alike_pure rfl
  | cons step steps =>
    rw [Render.renderSteps, Render.renderSteps]
    refine (h.renderStep hdeeper ht indent step out).bind fun out out' hout => ?_
    subst hout
    exact h.renderSteps hdeeper ht indent steps out

end

include h

/-- **Two renders of twin templates go on alike**, at every level. -/
theorem renderLevels (n : Nat) {t t' : Template} (ht : T t t') (indent : String)
    (steps : List Step) (out : String) :
    Alike (Aligned S) E Eq (renderLevels e n t indent steps out)
      (renderLevels e' n t' indent steps out) := by
  induction n generalizing t t' indent steps out with
  | zero =>
    unfold Render.renderLevels
    rw [h.maxDepth]
    exact alike_throw (h.limit _ ht)
  | succ n ih =>
    have hdeeper : ∀ t t' indent steps out, T t t' →
        Alike (Aligned S) E Eq (Render.renderLevels e n t indent steps out)
          (Render.renderLevels e' n t' indent steps out) :=
      fun _ _ indent steps out ht => ih ht indent steps out
    exact h.renderSteps hdeeper ht indent steps out

/-! ### Renders -/

theorem renderTemplate {t t' : Template} (ht : T t t') (data : Value) :
    Alike S E Eq (e.renderTemplate t data) (e'.renderTemplate t' data) := by
  intro s s' hs
  have hstart : Aligned S (Engine.startState s data) (Engine.startState s' data) := by
    refine ⟨⟨?_, rfl, rfl⟩, hs⟩
    unfold Engine.startState
    rw [h.helpers hs]
  have hrun := h.renderLevels (e.config.maxDepth + 1) ht "" t.steps "" _ _ hstart
  cases hleft : Render.renderLevels e (e.config.maxDepth + 1) t "" t.steps ""
      (Engine.startState s data) <;>
    cases hright : Render.renderLevels e' (e.config.maxDepth + 1) t' "" t.steps ""
      (Engine.startState s' data) <;>
    rw [hleft, hright] at hrun <;> rw [← h.maxDepth, ← (h.twin ht).2.2] at hright
  · rw [Engine.renderTemplate_of_ok hleft, Engine.renderTemplate_of_ok hright]
    exact ⟨hrun.1.store, hrun.2⟩
  · exact hrun.elim
  · exact hrun.elim
  · rw [Engine.renderTemplate_of_error hleft, Engine.renderTemplate_of_error hright]
    exact ⟨hrun.1.store, hrun.2⟩

/-- **Two renders of one name go on alike.** -/
theorem render (name : String) (data : Value) :
    Alike S E Eq (e.render name data) (e'.render name data) :=
  (h.loadTemplate name).bind fun _ _ ht => h.renderTemplate ht data

end Parallel

end Mustache
