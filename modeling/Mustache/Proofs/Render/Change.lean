import Mustache.Proofs.Render.Frames
import Mustache.Proofs.Render.Parallel
import Mustache.Proofs.Template.Change

/-!
Templates that differ in one place, rendered side by side. What the sections around the place have
as their body, as a text, makes no difference as long as none of them is over a callable. So two
such templates render alike if what stands in the place itself does. Main statement: `changeAlike`.
-/

namespace Mustache

namespace Render

variable {σ α β γ : Type}

/-! ### Outcomes -/

section

variable {R R' : State σ → State σ → Prop} {E : Error → Error → Prop} {A : α → α → Prop}
  {B : β → β → Prop} {act act' : RenderM σ α} {s s' : State σ}

/-- What follows may know how the first run went. -/
theorem endAlike_bind {next next' : α → RenderM σ β} (hact : EndAlike R E A (act s) (act' s'))
    (hnext : ∀ a a' t t', act s = .ok a t → R t t' → A a a' →
      EndAlike R E B (next a t) (next' a' t')) :
    EndAlike R E B ((act >>= next) s) ((act' >>= next') s') := by
  cases hrun : act s <;> cases hrun' : act' s' <;> rw [hrun, hrun'] at hact
  · rw [bind_of_ok next hrun, bind_of_ok next' hrun']
    exact hnext _ _ _ _ hrun hact.1 hact.2
  · exact hact.elim
  · exact hact.elim
  · rw [bind_of_error next hrun, bind_of_error next' hrun']
    exact hact

theorem endAlike_between {before before' back back' : State σ → State σ}
    (h : EndAlike R E A (act (before s)) (act' (before' s')))
    (hback : ∀ t t', R t t' → R' (back t) (back' t')) :
    EndAlike R' E A (between before back act s) (between before' back' act' s') := by
  unfold between
  cases hrun : act (before s) <;> cases hrun' : act' (before' s') <;> rw [hrun, hrun'] at h
  · exact ⟨hback _ _ h.1, h.2⟩
  · exact h.elim
  · exact h.elim
  · exact ⟨hback _ _ h.1, h.2⟩

theorem endAlike_foldlM {f f' : β → γ → RenderM σ β} {xs : List γ} {b : β} (hs : R s s')
    (hf : ∀ before x after b' t t', xs = before ++ x :: after →
      before.foldlM f b s = .ok b' t → R t t' → EndAlike R E Eq (f b' x t) (f' b' x t')) :
    EndAlike R E Eq (xs.foldlM f b s) (xs.foldlM f' b s') := by
  induction xs generalizing b s s' with
  | nil => exact ⟨hs, rfl⟩
  | cons x xs ih =>
    rw [List.foldlM_cons, List.foldlM_cons]
    refine endAlike_bind (hf [] x xs b s s' rfl rfl hs) ?_
    rintro b' _ t t' hrun ht rfl
    refine ih ht fun before y after c u u' hxs hbefore hu => ?_
    refine hf (x :: before) y after c u u' (by rw [hxs, List.cons_append]) ?_ hu
    rw [List.foldlM_cons, bind_of_ok _ hrun, hbefore]

end

/-! ### Places -/

section

variable (e : Engine σ)

/-- At this place the limit on depth is not reached, if it must not be, a section around the spot is
not over a callable, and a block that would be moved in another way is not overridden. -/
structure Place.Suits (ch : Step.Change) (q : Place σ) : Prop where
  depth : ch.shallow → q.state.depth < e.config.maxDepth
  around : ∀ name strict text d inner rest,
    q.steps = .sectionStep name strict text d inner :: rest → ch.around text →
      ∀ c s', sectionValue e (renderLevels e q.levels) name strict q.state ≠ .ok (.callable c) s'
  site : ∀ name site inner rest, q.steps = .block name (some site) inner :: rest → ch.opens inner →
    findOverride? q.state.overrides name = none

/-- Every place that a render from here visits has `P`. -/
def Place.Always (P : Place σ → Prop) (p : Place σ) : Prop :=
  ∀ q, Relation.ReflTransGen (Visits e) p q → P q

end

section

variable {e : Engine σ} {P : Place σ → Prop} {p q : Place σ}

theorem Place.Always.self (h : p.Always e P) : P p := h p .refl

theorem Place.Always.visits (h : p.Always e P) (hvisits : Visits e p q) : q.Always e P :=
  fun r hr => h r (.head hvisits hr)

theorem Place.Always.of_visits (h : P p) (hvisits : ∀ q, Visits e p q → q.Always e P) :
    p.Always e P := by
  intro r hr
  rcases hr.cases_head with rfl | ⟨q, hq, hrest⟩
  · exact h
  · exact hvisits q hq r hrest

theorem Place.Always.advance (h : p.Always e P) (hadvance : Advance e p q) : q.Always e P :=
  h.visits (.advance hadvance)

theorem reaches_behind {n : Nat} {t : Template} {indent out out' : String} {front : List Step}
    {s s' : State σ} (h : renderSteps e (renderLevels e n) t indent front out s = .ok out' s')
    (rest : List Step) : Relation.ReflTransGen (Visits e) ⟨n, t, indent, front ++ rest, out, s⟩
      ⟨n, t, indent, rest, out', s'⟩ := by
  induction front generalizing out s with
  | nil =>
    rw [renderSteps] at h
    obtain ⟨rfl, rfl⟩ := EStateM.Result.ok.inj h
    exact .refl
  | cons step front ih =>
    rw [renderSteps] at h
    cases hstep : renderStep e (renderLevels e n) t indent step out s with
    | ok mid r =>
      rw [bind_of_ok _ hstep] at h
      exact .head (.advance (.next hstep)) (ih h)
    | error err r =>
      rw [bind_of_error _ hstep] at h
      cases h

end

/-! ### The engine -/

/-- The templates are related by `T`, and the same to a render. -/
def Twin (T : Template → Template → Prop) (t t' : Template) : Prop := T t t' ∧ t'.steps = t.steps

/-- From stores related by `S` what the engine does ends alike, with templates that are twins. -/
structure Going (e : Engine σ) (ch : Step.Change)
    (S : Engine.Store σ → Engine.Store σ → Prop) (T : Template → Template → Prop) : Prop where
  escape : ∀ {t t'}, T t t' → t'.escape = t.escape
  strictCallables : ∀ {t t'}, T t t' → t'.strictCallables = t.strictCallables
  name : ∀ {t t'}, T t t' → ch.shallow ∨ t'.name = t.name
  partials : ∀ {s s'}, S s s' → ∀ name, e.partials s'.world name = e.partials s.world name
  compiles : ∀ name source,
    Alike S Eq (Twin T) (e.compileWith e.cache name source) (e.compileWith e.cache name source)
  compilesUncached : ∀ name source,
    Alike S Eq (Twin T) (e.compileWith Cache.none name source)
      (e.compileWith Cache.none name source)
  nullary : ∀ {s s'}, S s s' → ∀ id,
    Agree Eq Eq (e.host.nullary id s.world).1 (e.host.nullary id s'.world).1 ∧
      S { s with world := (e.host.nullary id s.world).2 }
        { s' with world := (e.host.nullary id s'.world).2 }
  unary : ∀ {s s'}, S s s' → ∀ id v d,
    Act.Alike S Eq s s' (e.host.unary id v d s.world) (e.host.unary id v d s'.world)

namespace Going

variable {e : Engine σ} {ch : Step.Change} {S : Engine.Store σ → Engine.Store σ → Prop}
  {T : Template → Template → Prop} (h : Going e ch S T)

include h

theorem loadPartial (name : String) :
    Alike S Eq (Option.Rel (Twin T)) (e.loadPartial name) (e.loadPartial name) :=
  alike_loadPartial (fun _ => rfl) h.partials h.compiles name

theorem loadLambda (text : String) (d : Option Delimiters) :
    Alike S Eq (Twin T) (e.loadLambda text d) (e.loadLambda text d) :=
  alike_loadLambda rfl rfl h.compiles h.compilesUncached text d

end Going

/-! ### States side by side -/

/-- States of two renders. The overrides in force match. If the limit on depth is not reached, the
first render may have entered levels that the second has not: the numbers are those of the levels
that are left to enter. -/
structure Along (e : Engine σ) (S : Engine.Store σ → Engine.Store σ → Prop) (ch : Step.Change)
    (n n' : Nat) (s s' : State σ) : Prop where
  store : S s.store s'.store
  scopes : s'.scopes = s.scopes
  overrides : List.Forall₂ (List.Forall₂ (Override.Matches ch)) s.overrides s'.overrides
  levels : n + s.depth = e.config.maxDepth
  levels' : n' + s'.depth = e.config.maxDepth
  le : n' = n ∨ ch.shallow ∧ n ≤ n'

section

variable {ch : Step.Change}

theorem find?_matches {os os' : List (Override Step)}
    (h : List.Forall₂ (Override.Matches ch) os os') (name : String) :
    Option.Rel (Override.Matches ch) (os.find? fun o => o.name == name)
      (os'.find? fun o => o.name == name) := by
  induction h with
  | nil => exact .none
  | @cons o o' os os' ho _ ih =>
    rw [List.find?_cons, List.find?_cons, ho.name]
    split
    · exact .some ho
    · exact ih

theorem findSome?_matches {frames frames' : List (List (Override Step))}
    (h : List.Forall₂ (List.Forall₂ (Override.Matches ch)) frames frames') (name : String) :
    Option.Rel (Override.Matches ch) (frames.findSome? fun os => os.find? fun o => o.name == name)
      (frames'.findSome? fun os => os.find? fun o => o.name == name) := by
  induction h with
  | nil => exact .none
  | @cons os os' _ _ hos _ ih =>
    have hfound := find?_matches hos name
    rw [List.findSome?_cons, List.findSome?_cons]
    cases hleft : os.find? fun o => o.name == name <;>
      cases hright : os'.find? fun o => o.name == name <;> rw [hleft, hright] at hfound
    · exact ih
    · cases hfound
    · cases hfound
    · exact hfound

theorem forall₂_tail {α β : Type} {R : α → β → Prop} {as : List α} {bs : List β}
    (h : List.Forall₂ R as bs) : List.Forall₂ R as.tail bs.tail := by
  cases h with
  | nil => exact .nil
  | cons _ hrest => exact hrest

/-- The overrides that a block finds match. -/
theorem findOverride?_matches {frames frames' : List (List (Override Step))}
    (h : List.Forall₂ (List.Forall₂ (Override.Matches ch)) frames frames') (name : String) :
    Option.Rel (Override.Matches ch) (findOverride? frames name) (findOverride? frames' name) :=
  findSome?_matches (List.forall₂_reverse_iff.mpr h) name

end

namespace Along

variable {e : Engine σ} {S : Engine.Store σ → Engine.Store σ → Prop} {ch : Step.Change}
  {n n' k k' : Nat} {s s' : State σ}

theorem setWorld {w w' : σ} (hs : Along e S ch n n' s s')
    (hstore : S { s.store with world := w } { s'.store with world := w' }) :
    Along e S ch n n' (setWorld w s) (setWorld w' s') :=
  { hs with store := hstore }

theorem inScope (hs : Along e S ch n n' s s') (v : Value) :
    Along e S ch n n' { s with scopes := v :: s.scopes } { s' with scopes := v :: s'.scopes } :=
  { hs with scopes := congrArg (v :: ·) hs.scopes }

theorem outOfScope (hs : Along e S ch n n' s s') :
    Along e S ch n n' { s with scopes := s.scopes.tail } { s' with scopes := s'.scopes.tail } :=
  { hs with scopes := congrArg List.tail hs.scopes }

theorem withOverrides {os os' : List (Override Step)} (hs : Along e S ch n n' s s')
    (hos : List.Forall₂ (Override.Matches ch) os os') :
    Along e S ch n n' { s with overrides := os :: s.overrides }
      { s' with overrides := os' :: s'.overrides } :=
  { hs with overrides := .cons hos hs.overrides }

theorem withoutOverrides (hs : Along e S ch n n' s s') :
    Along e S ch n n' { s with overrides := s.overrides.tail }
      { s' with overrides := s'.overrides.tail } :=
  { hs with overrides := forall₂_tail hs.overrides }

theorem entered (hs : Along e S ch (k + 1) (k' + 1) s s') :
    Along e S ch k k' s.entered s'.entered :=
  { hs with
    levels := (Nat.succ_add_eq_add_succ k s.depth).symm.trans hs.levels
    levels' := (Nat.succ_add_eq_add_succ k' s'.depth).symm.trans hs.levels'
    le := hs.le.imp Nat.succ.inj fun h => ⟨h.1, Nat.le_of_succ_le_succ h.2⟩ }

theorem left (hs : Along e S ch k k' s s') (hk : k < e.config.maxDepth)
    (hk' : k' < e.config.maxDepth) :
    Along e S ch (k + 1) (k' + 1) { s with depth := s.depth - 1 }
      { s' with depth := s'.depth - 1 } := by
  obtain ⟨hlevels, hlevels'⟩ := And.intro hs.levels hs.levels'
  exact { hs with
    levels := by show k + 1 + (s.depth - 1) = _; omega
    levels' := by show k' + 1 + (s'.depth - 1) = _; omega
    le := hs.le.imp (congrArg Nat.succ) fun h => ⟨h.1, Nat.succ_le_succ h.2⟩ }

/-- Both renders enter a level, or neither can. -/
theorem entering {A : α → α → Prop} {act act' : RenderM σ α} {name name' : String}
    (hs : Along e S ch n n' s s') (hpos : ch.shallow → 0 < n) (hname : ch.shallow ∨ name' = name)
    (hact : ∀ k k', n = k + 1 → n' = k' + 1 →
      EndAlike (Along e S ch k k') Eq A (act s.entered) (act' s'.entered)) :
    EndAlike (Along e S ch n n') Eq A (entering e.config.maxDepth name act s)
      (entering e.config.maxDepth name' act' s') := by
  obtain ⟨hlevels, hlevels'⟩ := And.intro hs.levels hs.levels'
  by_cases hn : n = 0
  · -- the limit is reached in both
    have hdeep : ¬ ch.shallow := fun h => absurd (hpos h) (by omega)
    obtain rfl : n' = n := hs.le.resolve_right fun h => hdeep h.1
    obtain rfl : name' = name := hname.resolve_left hdeep
    rw [entering_of_le (by omega), entering_of_le (by omega)]
    exact ⟨hs, rfl⟩
  · have hle := hs.le
    obtain ⟨k, rfl⟩ := Nat.exists_eq_add_one_of_ne_zero hn
    obtain ⟨k', rfl⟩ := Nat.exists_eq_add_one_of_ne_zero (n := n') (by omega)
    rw [entering_of_lt (by omega), entering_of_lt (by omega)]
    exact endAlike_between (hact k k' rfl rfl) fun t t' ht => ht.left (by omega) (by omega)

/-! ### Parts of a render -/

theorem alike_onStore {A : α → α → Prop} {op op' : Engine.EngineM σ α} (hop : Alike S Eq A op op') :
    Alike (Along e S ch n n') Eq A (onStore op) (onStore op') := by
  intro s s' hs
  have h := hop _ _ hs.store
  unfold onStore
  cases hrun : op s.store <;> cases hrun' : op' s'.store <;> rw [hrun, hrun'] at h
  · exact ⟨{ hs with store := h.1 }, h.2⟩
  · exact h.elim
  · exact h.elim
  · exact ⟨{ hs with store := h.1 }, h.2⟩

theorem alike_resolve (name : String) (strict : Bool) :
    Alike (Along e S ch n n') Eq Eq (resolve name strict) (resolve name strict) := by
  unfold resolve
  refine alike_get.bind fun s s' hs => ?_
  rw [hs.scopes]
  split
  · exact alike_pure rfl
  · exact alike_throw rfl

theorem alike_partialName (name : PartialName) :
    Alike (Along e S ch n n') Eq Eq (partialName name) (partialName name) := by
  cases name with
  | fixed name => exact alike_pure rfl
  | dynamic path =>
    refine (alike_resolve path false).bind fun v v' hv => ?_
    subst hv
    exact alike_pure rfl

variable {T : Template → Template → Prop} (h : Going e ch S T)

include h

theorem alike_callNullary (id : Nat) :
    Alike (Along e S ch n n') Eq Eq (callNullary e id) (callNullary e id) := by
  intro s s' hs
  obtain ⟨hr, hstore⟩ := h.nullary hs.store id
  rw [callNullary_eq]
  unfold callWorld
  cases hrun : (e.host.nullary id s.store.world).1 <;>
    cases hrun' : (e.host.nullary id s'.store.world).1 <;> rw [hrun, hrun'] at hr
  · exact ⟨hs.setWorld hstore, hr⟩
  · exact hr.elim
  · exact hr.elim
  · exact ⟨hs.setWorld hstore, hr⟩

theorem alike_called (strict : Bool) (v : Value) :
    Alike (Along e S ch n n') Eq Eq (called e strict v) (called e strict v) := by
  unfold called
  split
  · exact (alike_callNullary h _).map fun _ _ hv => congrArg some hv
  · exact alike_pure rfl
  · exact alike_pure rfl

end Along

/-! ### Texts that callables ask for -/

section

variable (e : Engine σ) (S : Engine.Store σ → Engine.Store σ → Prop) (ch : Step.Change)
  (T : Template → Template → Prop) (P : Place σ → Prop)

/-- With `n` levels left in the first render, steps that match are carried out alike in both
wherever every place that the first one visits has `P`. -/
def ChangeAlike (n : Nat) : Prop :=
  ∀ ⦃n' : Nat⦄ ⦃t t' : Template⦄ ⦃indent : String⦄ ⦃steps steps' : List Step⦄ ⦃out : String⦄
    ⦃s s' : State σ⦄, Along e S ch n n' s s' → T t t' → Step.Matches ch steps steps' →
    Place.Always e P ⟨n, t, indent, steps, out, s⟩ →
    EndAlike (Along e S ch n n') Eq Eq (renderSteps e (renderLevels e n) t indent steps out s)
      (renderSteps e (renderLevels e n') t' indent steps' out s')

/-- Every text that carrying out the call asks for comes to places that have `P`. -/
def AsksAlways (n : Nat) (d : Delimiters) (act : Act σ) (s : State σ) : Prop :=
  ∀ k text s₁ t s₂, n = k + 1 → Asks e (renderLevels e n) d act s text s₁ →
    OpensText e text (some d) s₁ t s₂ →
    Place.Always e P ⟨k, t, "", t.steps, "", s₂.entered⟩

end

section

variable {e : Engine σ} {S : Engine.Store σ → Engine.Store σ → Prop} {ch : Step.Change}
  {T : Template → Template → Prop} {P : Place σ → Prop} {n n' : Nat} (h : Going e ch S T)
  (hpos : ch.shallow → 0 < n) (hdeeper : ∀ k, n = k + 1 → ChangeAlike e S ch T P k)
  {s s' : State σ}

include h hpos hdeeper

theorem along_renderText (text : String) (d : Option Delimiters) (hs : Along e S ch n n' s s')
    (htext : ∀ k t r, n = k + 1 → OpensText e text d s t r →
      Place.Always e P ⟨k, t, "", t.steps, "", r.entered⟩) :
    EndAlike (Along e S ch n n') Eq Eq (renderText e (renderLevels e n) text d s)
      (renderText e (renderLevels e n') text d s') := by
  unfold renderText
  split
  · rename_i hopening
    refine endAlike_bind (Along.alike_onStore (h.loadLambda text d) s s' hs) ?_
    intro t t' r r' hload hr ht
    have hlevels := hr.levels
    rw [ht.2]
    refine hr.entering hpos (h.name ht.1) ?_
    rintro k k' rfl rfl
    exact hdeeper k rfl hr.entered ht.1 (.inl rfl) (htext k t r rfl ⟨hopening, hload, by omega⟩)
  · exact ⟨hs, rfl⟩

theorem along_runAct {r r' : Engine.Store σ} {act act' : Act σ}
    (hact : Act.Alike S Eq r r' act act') (d : Delimiters) (hr : s.store = r) (hr' : s'.store = r')
    (hs : Along e S ch n n' s s') (hasks : AsksAlways e P n d act s) :
    EndAlike (Along e S ch n n') Eq Eq (runAct e (renderLevels e n) d act s)
      (runAct e (renderLevels e n') d act' s') := by
  induction hact generalizing s s' with
  | @done r r' v v' w w' hv hstore =>
    subst hr hr'
    cases v <;> cases v'
    · exact ⟨hs.setWorld hstore, hv⟩
    · exact hv.elim
    · exact hv.elim
    · exact ⟨hs.setWorld hstore, hv⟩
  | @render r r' text w w' next next' hstore _ ih =>
    subst hr hr'
    have htext := along_renderText h hpos hdeeper text (some d) (hs.setWorld hstore)
      fun k t r hk hopens => hasks k text _ t r hk .first hopens
    rw [runAct_render, runAct_render]
    unfold attempt
    cases hrun : renderText e (renderLevels e n) text (some d) (setWorld w s) <;>
      cases hrun' : renderText e (renderLevels e n') text (some d) (setWorld w' s') <;>
      rw [hrun, hrun'] at htext
    · exact ih (.ok _) (.ok _) _ _ htext.2 htext.1.store rfl rfl htext.1
        fun k text s₁ t s₂ hk hmore => hasks k text s₁ t s₂ hk (.later hrun hmore)
    · exact htext.elim
    · exact htext.elim
    · exact ih (.error _) (.error _) _ _ htext.2 htext.1.store rfl rfl htext.1
        fun k text s₁ t s₂ hk hmore => hasks k text s₁ t s₂ hk (.afterFailure hrun hmore)

theorem along_callUnary (id : Nat) (v : Value) (d : Delimiters) (hs : Along e S ch n n' s s')
    (hasks : AsksAlways e P n d (e.host.unary id v d s.store.world) s) :
    EndAlike (Along e S ch n n') Eq Eq (callUnary e (renderLevels e n) id v d s)
      (callUnary e (renderLevels e n') id v d s') :=
  along_runAct h hpos hdeeper (h.unary hs.store id v d) d rfl rfl hs hasks

theorem along_applyFilters (filters : List String) (v : Value) (hs : Along e S ch n n' s s')
    (hcalls : ∀ act s₁, FilterCalls e (renderLevels e n) v s filters act s₁ →
      AsksAlways e P n e.delimiters act s₁) :
    EndAlike (Along e S ch n n') Eq Eq (applyFilters e (renderLevels e n) filters v s)
      (applyFilters e (renderLevels e n') filters v s') := by
  refine endAlike_foldlM hs fun before name after u t t' hfilters hbefore ht => ?_
  unfold applyFilter
  refine endAlike_bind (Along.alike_resolve name false t t' ht) ?_
  rintro f _ s₁ s₁' hresolve hs₁ rfl
  split
  · refine along_callUnary h hpos hdeeper _ _ _ hs₁ (hcalls _ _ ?_)
    rw [hfilters]
    exact .intro hbefore hresolve
  · exact Along.alike_callNullary h _ _ _ hs₁
  · exact alike_throw rfl _ _ hs₁

/-! ### Steps -/

section

variable {t t' : Template} {indent out : String} {rest : List Step}

theorem along_sectionValue (name : Name) (strict : Bool) (hs : Along e S ch n n' s s')
    (hcalls : ∀ v s₁ act s₂, resolve name.path strict s = .ok v s₁ →
      FilterCalls e (renderLevels e n) v s₁ name.filters act s₂ →
      AsksAlways e P n e.delimiters act s₂) :
    EndAlike (Along e S ch n n') Eq Eq (sectionValue e (renderLevels e n) name strict s)
      (sectionValue e (renderLevels e n') name strict s') := by
  unfold sectionValue
  refine endAlike_bind (Along.alike_resolve name.path strict s s' hs) ?_
  rintro v _ s₁ s₁' hresolve hs₁ rfl
  exact along_applyFilters h hpos hdeeper name.filters v hs₁
    fun act s₂ hfilter => hcalls v s₁ act s₂ hresolve hfilter

theorem along_interpolation (ht : T t t') (name : Name) (escape strict lineStart : Bool)
    (hs : Along e S ch n n' s s')
    (hp : Place.Always e P
      ⟨n, t, indent, .interpolation name escape strict lineStart :: rest, out, s⟩) :
    EndAlike (Along e S ch n n') Eq Eq
      (renderStep e (renderLevels e n) t indent (.interpolation name escape strict lineStart) out s)
      (renderStep e (renderLevels e n') t' indent (.interpolation name escape strict lineStart) out
        s') := by
  have hfilters : ∀ v s₁ s₁', Along e S ch n n' s₁ s₁' →
      (∀ act s₂, FilterCalls e (renderLevels e n) v s₁ name.filters act s₂ →
        AsksAlways e P n e.delimiters act s₂) →
      EndAlike (Along e S ch n n') Eq Eq
        ((do return (← applyFilters e (renderLevels e n) name.filters v).display) s₁)
        ((do return (← applyFilters e (renderLevels e n') name.filters v).display) s₁') := by
    intro v s₁ s₁' hs₁ hcalls
    refine endAlike_bind (along_applyFilters h hpos hdeeper name.filters v hs₁ hcalls) ?_
    rintro u _ s₂ s₂' - hs₂ rfl
    exact ⟨hs₂, rfl⟩
  have hinterpolate : EndAlike (Along e S ch n n') Eq Eq
      (interpolate e (renderLevels e n) t name strict s)
      (interpolate e (renderLevels e n') t' name strict s') := by
    unfold interpolate
    rw [h.strictCallables ht]
    refine endAlike_bind (Along.alike_resolve name.path strict s s' hs) ?_
    rintro v _ s₁ s₁' hresolve hs₁ rfl
    refine endAlike_bind (Along.alike_called h _ v s₁ s₁' hs₁) ?_
    rintro result _ s₂ s₂' hcalled hs₂ rfl
    cases result with
    | none =>
      refine hfilters v s₂ s₂' hs₂ fun act s₃ hfilter k text s₄ p s₅ hk hasks htext => ?_
      subst hk
      exact hp.visits (.asked (.interpolation hresolve hcalled hfilter) hasks htext)
    | some result =>
      dsimp only
      rw [map_eq_pure_bind, map_eq_pure_bind, bind_assoc, bind_assoc]
      refine endAlike_bind (along_renderText h hpos hdeeper result.display none hs₂ ?_) ?_
      · rintro k p r rfl htext
        exact hp.advance (.called hresolve hcalled htext)
      rintro text _ s₃ s₃' hrendered hs₃ rfl
      rw [pure_bind, pure_bind]
      refine hfilters (.string text) s₃ s₃' hs₃
        fun act s₄ hfilter k text s₅ p s₆ hk hasks htext => ?_
      subst hk
      exact hp.visits (.asked (.calledInterpolation hresolve hcalled hrendered hfilter) hasks htext)
  rw [renderStep, renderStep, h.escape ht]
  refine endAlike_bind hinterpolate ?_
  rintro text _ s₁ s₁' - hs₁ rfl
  exact ⟨hs₁, rfl⟩

/-- Of a section that is not over a callable it makes no difference what its body is as a text. -/
theorem along_section (ht : T t t') (name : Name) (strict : Bool) {text text' : String}
    (d : Delimiters) {inner inner' : List Step}
    (hinner : ∀ {out s s'}, Along e S ch n n' s s' →
      Place.Always e P ⟨n, t, indent, inner, out, s⟩ →
      EndAlike (Along e S ch n n') Eq Eq
        (renderSteps e (renderLevels e n) t indent inner out s)
        (renderSteps e (renderLevels e n') t' indent inner' out s'))
    (hplain : text' = text ∨
      ∀ c s₁, sectionValue e (renderLevels e n) name strict s ≠ .ok (.callable c) s₁)
    (hs : Along e S ch n n' s s')
    (hp : Place.Always e P ⟨n, t, indent, .sectionStep name strict text d inner :: rest, out, s⟩) :
    EndAlike (Along e S ch n n') Eq Eq
      (renderStep e (renderLevels e n) t indent (.sectionStep name strict text d inner) out s)
      (renderStep e (renderLevels e n') t' indent (.sectionStep name strict text' d inner') out
        s') := by
  rw [sectionStep_eq, sectionStep_eq, h.strictCallables ht]
  refine endAlike_bind (along_sectionValue h hpos hdeeper name strict hs ?_) ?_
  · rintro v s₁ act s₂ hresolve hfilter k asked s₃ p s₄ rfl hasks hopens
    exact hp.visits (.asked (.sectionName hresolve hfilter) hasks hopens)
  rintro v _ s₁ s₁' hvalue hs₁ rfl
  split
  · rename_i c
    obtain rfl : text' = text := hplain.resolve_right fun hnone => hnone c s₁ hvalue
    have hcall : EndAlike (Along e S ch n n') Eq Eq
        (callSection e (renderLevels e n) text' d c s₁)
        (callSection e (renderLevels e n') text' d c s₁') := by
      obtain ⟨id, _ | _⟩ := c
      · exact Along.alike_callNullary h id _ _ hs₁
      · refine along_callUnary h hpos hdeeper id _ d hs₁ ?_
        rintro k asked s₂ p s₃ rfl hasks hopens
        exact hp.visits (.asked (.sectionBody hvalue) hasks hopens)
    refine endAlike_bind hcall ?_
    rintro result _ s₂ s₂' hcalled hs₂ rfl
    refine endAlike_bind (along_renderText h hpos hdeeper result.display (some d) hs₂ ?_) ?_
    · rintro k p r rfl hopens
      exact hp.advance (.answered hvalue hcalled hopens)
    rintro text _ s₃ s₃' - hs₃ rfl
    exact ⟨hs₃, rfl⟩
  · rename_i hnone
    refine endAlike_foldlM hs₁ fun before scope after out s₂ s₂' hscopes hbefore hs₂ => ?_
    refine endAlike_between ?_ fun _ _ => Along.outOfScope
    exact hinner (hs₂.inScope scope) (hp.advance (.body hvalue hnone hscopes hbefore))

theorem along_inverted (name : Name) {inner inner' : List Step}
    (hinner : ∀ {out s s'}, Along e S ch n n' s s' →
      Place.Always e P ⟨n, t, indent, inner, out, s⟩ →
      EndAlike (Along e S ch n n') Eq Eq
        (renderSteps e (renderLevels e n) t indent inner out s)
        (renderSteps e (renderLevels e n') t' indent inner' out s'))
    (hs : Along e S ch n n' s s')
    (hp : Place.Always e P ⟨n, t, indent, .inverted name inner :: rest, out, s⟩) :
    EndAlike (Along e S ch n n') Eq Eq
      (renderStep e (renderLevels e n) t indent (.inverted name inner) out s)
      (renderStep e (renderLevels e n') t' indent (.inverted name inner') out s') := by
  rw [inverted_eq, inverted_eq]
  refine endAlike_bind (along_sectionValue h hpos hdeeper name false hs ?_) ?_
  · rintro v s₁ act s₂ hresolve hfilter k asked s₃ p s₄ rfl hasks hopens
    exact hp.visits (.asked (.inverted hresolve hfilter) hasks hopens)
  rintro v _ s₁ s₁' hvalue hs₁ rfl
  cases htruthy : v.truthy with
  | true => exact ⟨hs₁, rfl⟩
  | false => exact hinner hs₁ (hp.advance (.inverted hvalue htruthy))

theorem along_partialStep (name : PartialName) (own : Option String) (hs : Along e S ch n n' s s')
    (hp : Place.Always e P ⟨n, t, indent, .partialStep name own :: rest, out, s⟩) :
    EndAlike (Along e S ch n n') Eq Eq
      (renderStep e (renderLevels e n) t indent (.partialStep name own) out s)
      (renderStep e (renderLevels e n') t' indent (.partialStep name own) out s') := by
  rw [renderStep, renderStep]
  refine endAlike_bind (Along.alike_partialName name s s' hs) ?_
  rintro named _ s₁ s₁' hname hs₁ rfl
  refine endAlike_bind (Along.alike_onStore (h.loadPartial named) s₁ s₁' hs₁) ?_
  intro found found' s₂ s₂' hload hs₂ hfound
  cases hfound with
  | none => exact ⟨hs₂, rfl⟩
  | @some p p' hp' =>
    have hlevels := hs₂.levels
    dsimp only
    rw [hp'.2]
    refine hs₂.entering hpos (.inr rfl) ?_
    rintro k k' rfl rfl
    exact hdeeper k rfl hs₂.entered hp'.1 (.inl rfl)
      (hp.advance (.partialStep hname hload (by omega)))

theorem along_parent (name : String) (own : Option String)
    {overrides overrides' : List (Override Step)}
    (hoverrides : List.Forall₂ (Override.Matches ch) overrides overrides')
    (hs : Along e S ch n n' s s')
    (hp : Place.Always e P ⟨n, t, indent, .parent name own overrides :: rest, out, s⟩) :
    EndAlike (Along e S ch n n') Eq Eq
      (renderStep e (renderLevels e n) t indent (.parent name own overrides) out s)
      (renderStep e (renderLevels e n') t' indent (.parent name own overrides') out s') := by
  rw [renderStep, renderStep]
  refine endAlike_bind (Along.alike_onStore (h.loadPartial name) s s' hs) ?_
  intro found found' s₁ s₁' hload hs₁ hfound
  cases hfound with
  | none => exact ⟨hs₁, rfl⟩
  | @some p p' hp' =>
    have hlevels := hs₁.levels
    dsimp only
    rw [hp'.2]
    refine hs₁.entering hpos (.inr rfl) ?_
    rintro k k' rfl rfl
    refine endAlike_between (R := Along e S ch k k') ?_ fun _ _ => Along.withoutOverrides
    exact hdeeper k rfl (hs₁.entered.withOverrides hoverrides) hp'.1 (.inl rfl)
      (hp.advance (.parent hload (by omega)))

omit h in
theorem along_renderOverride (ht : T t t') {name : String} {site : Option String}
    {inner : List Step} {o o' : Override Step} (ho : o.Matches ch o')
    (hfound : findOverride? s.overrides name = some o) (hs : Along e S ch n n' s s')
    (hp : Place.Always e P ⟨n, t, indent, .block name site inner :: rest, out, s⟩) :
    EndAlike (Along e S ch n n') Eq Eq
      (renderOverride e (renderLevels e n) t indent site o out s)
      (renderOverride e (renderLevels e n') t' indent site o' out s') := by
  have hlevels := hs.levels
  unfold renderOverride
  rw [ho.dedent, ho.name]
  by_cases hplace : site.isNone ∧ !o.dedent
  · rw [if_pos hplace, if_pos hplace]
    refine hs.entering hpos (.inr rfl) ?_
    rintro k k' rfl rfl
    exact hdeeper k rfl hs.entered ht ho.steps (hp.advance (.override hfound hplace (by omega)))
  · rw [if_neg hplace, if_neg hplace]
    refine endAlike_bind (A := Eq) (hs.entering hpos (.inr rfl) ?_) ?_
    · rintro k k' rfl rfl
      exact hdeeper k rfl hs.entered ht ho.steps (hp.advance (.moved hfound hplace (by omega)))
    · rintro text _ s₁ s₁' - hs₁ rfl
      exact ⟨hs₁, rfl⟩

omit h in
/-- Of a block that no override is for it makes no difference where one would stand. -/
theorem along_block (ht : T t t') (name : String) {site site' : Option String}
    {inner inner' : List Step}
    (hinner : ∀ {out s s'}, Along e S ch n n' s s' →
      Place.Always e P ⟨n, t, indent, inner, out, s⟩ →
      EndAlike (Along e S ch n n') Eq Eq
        (renderSteps e (renderLevels e n) t indent inner out s)
        (renderSteps e (renderLevels e n') t' indent inner' out s'))
    (hsite : site' = site ∨ findOverride? s.overrides name = none) (hs : Along e S ch n n' s s')
    (hp : Place.Always e P ⟨n, t, indent, .block name site inner :: rest, out, s⟩) :
    EndAlike (Along e S ch n n') Eq Eq
      (renderStep e (renderLevels e n) t indent (.block name site inner) out s)
      (renderStep e (renderLevels e n') t' indent (.block name site' inner') out s') := by
  have hmatches := findOverride?_matches hs.overrides name
  rw [renderStep, renderStep, bind_of_ok _ (get_eq s), bind_of_ok _ (get_eq s')]
  cases hfound : findOverride? s.overrides name with
  | none =>
    rw [hfound] at hmatches
    cases hfound' : findOverride? s'.overrides name with
    | none => exact hinner hs (hp.advance (.block hfound))
    | some o' =>
      rw [hfound'] at hmatches
      cases hmatches
  | some o =>
    obtain rfl : site' = site := hsite.resolve_right fun hnone => by
      rw [hnone] at hfound
      cases hfound
    rw [hfound] at hmatches
    cases hfound' : findOverride? s'.overrides name with
    | none =>
      rw [hfound'] at hmatches
      cases hmatches
    | some o' =>
      rw [hfound'] at hmatches
      cases hmatches with
      | some ho => exact along_renderOverride hpos hdeeper ht ho hfound hs hp

end

end

/-! ### Steps that both renders have -/

section

variable {e : Engine σ} {S : Engine.Store σ → Engine.Store σ → Prop} {ch : Step.Change}
  {T : Template → Template → Prop} {P : Place σ → Prop} {n n' : Nat}

mutual

theorem along_renderStep (h : Going e ch S T) (hpos : ch.shallow → 0 < n)
    (hdeeper : ∀ k, n = k + 1 → ChangeAlike e S ch T P k) {t t' : Template} (ht : T t t')
    {indent out : String} {rest : List Step} {s s' : State σ} (step : Step)
    (hs : Along e S ch n n' s s')
    (hp : Place.Always e P ⟨n, t, indent, step :: rest, out, s⟩) :
    EndAlike (Along e S ch n n') Eq Eq (renderStep e (renderLevels e n) t indent step out s)
      (renderStep e (renderLevels e n') t' indent step out s') := by
  have hmore : ∀ (inner : List Step) {out : String} {s : State σ},
      Place.Always e P ⟨n, t, indent, inner, out, s⟩ →
      Place.Always e P ⟨n, t, indent, inner ++ [], out, s⟩ :=
    fun inner _ _ hinner => (List.append_nil inner).symm ▸ hinner
  cases step with
  | text text lineStart =>
    rw [renderStep, renderStep]
    exact ⟨hs, rfl⟩
  | interpolation name escape strict lineStart =>
    exact along_interpolation h hpos hdeeper ht name escape strict lineStart hs hp
  | sectionStep name strict text d inner =>
    exact along_section h hpos hdeeper ht name strict d
      (fun hs hinner => along_renderSteps h hpos hdeeper ht inner [] hs (hmore inner hinner))
      (.inl rfl) hs hp
  | inverted name inner =>
    exact along_inverted h hpos hdeeper name
      (fun hs hinner => along_renderSteps h hpos hdeeper ht inner [] hs (hmore inner hinner)) hs hp
  | partialStep name own => exact along_partialStep h hpos hdeeper name own hs hp
  | parent name own overrides =>
    exact along_parent h hpos hdeeper name own
      (List.forall₂_same.mpr fun o _ => .refl ch o) hs hp
  | block name site inner =>
    exact along_block hpos hdeeper ht name
      (fun hs hinner => along_renderSteps h hpos hdeeper ht inner [] hs (hmore inner hinner))
      (.inl rfl) hs hp

theorem along_renderSteps (h : Going e ch S T) (hpos : ch.shallow → 0 < n)
    (hdeeper : ∀ k, n = k + 1 → ChangeAlike e S ch T P k) {t t' : Template} (ht : T t t')
    {indent out : String} {s s' : State σ} (steps rest : List Step) (hs : Along e S ch n n' s s')
    (hp : Place.Always e P ⟨n, t, indent, steps ++ rest, out, s⟩) :
    EndAlike (Along e S ch n n') Eq Eq (renderSteps e (renderLevels e n) t indent steps out s)
      (renderSteps e (renderLevels e n') t' indent steps out s') := by
  cases steps with
  | nil =>
    rw [renderSteps, renderSteps]
    exact ⟨hs, rfl⟩
  | cons step steps =>
    rw [renderSteps, renderSteps]
    refine endAlike_bind (along_renderStep h hpos hdeeper ht step hs hp) ?_
    rintro out₁ _ s₁ s₁' hstep hs₁ rfl
    exact along_renderSteps h hpos hdeeper ht steps rest hs₁ (hp.advance (.next hstep))

end

/-! ### Steps that differ -/

/-- One step has others in its place, and the steps around it are the same. -/
theorem along_around (h : Going e ch S T) (hpos : ch.shallow → 0 < n)
    (hdeeper : ∀ k, n = k + 1 → ChangeAlike e S ch T P k) {t t' : Template} (ht : T t t')
    {indent out : String} (front back : List Step) {step : Step} (steps' : List Step)
    (hstep : ∀ {out s s'}, Along e S ch n n' s s' →
      Place.Always e P ⟨n, t, indent, step :: back, out, s⟩ →
      EndAlike (Along e S ch n n') Eq Eq (renderStep e (renderLevels e n) t indent step out s)
        (renderSteps e (renderLevels e n') t' indent steps' out s'))
    {s s' : State σ} (hs : Along e S ch n n' s s')
    (hp : Place.Always e P ⟨n, t, indent, front ++ step :: back, out, s⟩) :
    EndAlike (Along e S ch n n') Eq Eq
      (renderSteps e (renderLevels e n) t indent (front ++ step :: back) out s)
      (renderSteps e (renderLevels e n') t' indent (front ++ (steps' ++ back)) out s') := by
  rw [renderSteps_append, renderSteps_append]
  refine endAlike_bind (along_renderSteps h hpos hdeeper ht front (step :: back) hs hp) ?_
  rintro out₁ _ s₁ s₁' hfront hs₁ rfl
  have hp₁ : Place.Always e P ⟨n, t, indent, step :: back, out₁, s₁⟩ :=
    fun q hq => hp q ((reaches_behind hfront (step :: back)).trans hq)
  rw [renderSteps, renderSteps_append]
  refine endAlike_bind (hstep hs₁ hp₁) ?_
  rintro out₂ _ s₂ s₂' hrun hs₂ rfl
  refine along_renderSteps h hpos hdeeper ht back [] hs₂ ?_
  rw [List.append_nil]
  exact hp₁.advance (.next hrun)

/-- A single step has another one in its place. -/
theorem along_around_singleton (h : Going e ch S T) (hpos : ch.shallow → 0 < n)
    (hdeeper : ∀ k, n = k + 1 → ChangeAlike e S ch T P k) {t t' : Template} (ht : T t t')
    {indent out : String} {front back : List Step} {step step' : Step}
    (hstep : ∀ {out s s'}, Along e S ch n n' s s' →
      Place.Always e P ⟨n, t, indent, step :: back, out, s⟩ →
      EndAlike (Along e S ch n n') Eq Eq (renderStep e (renderLevels e n) t indent step out s)
        (renderStep e (renderLevels e n') t' indent step' out s'))
    {s s' : State σ} (hs : Along e S ch n n' s s')
    (hp : Place.Always e P ⟨n, t, indent, front ++ step :: back, out, s⟩) :
    EndAlike (Along e S ch n n') Eq Eq
      (renderSteps e (renderLevels e n) t indent (front ++ step :: back) out s)
      (renderSteps e (renderLevels e n') t' indent (front ++ step' :: back) out s') := by
  refine along_around h hpos hdeeper ht front back [step'] (fun hs hp => ?_) hs hp
  rw [renderSteps_singleton]
  exact hstep hs hp

variable (hsuits : ∀ q, P q → q.Suits e ch)
  (hhere : ∀ {n n' : Nat} {t t' : Template} {indent out : String} {steps steps' : List Step}
    {s s' : State σ}, (ch.shallow → 0 < n) → (∀ k, n = k + 1 → ChangeAlike e S ch T P k) →
    T t t' → ch.here steps steps' → Along e S ch n n' s s' →
    Place.Always e P ⟨n, t, indent, steps, out, s⟩ →
    EndAlike (Along e S ch n n') Eq Eq (renderSteps e (renderLevels e n) t indent steps out s)
      (renderSteps e (renderLevels e n') t' indent steps' out s'))

include hsuits hhere

theorem along_differ (h : Going e ch S T) (hpos : ch.shallow → 0 < n)
    (hdeeper : ∀ k, n = k + 1 → ChangeAlike e S ch T P k) {t t' : Template} (ht : T t t')
    {indent out : String} {steps steps' : List Step} (hdiffer : Step.Differ ch steps steps')
    {s s' : State σ} (hs : Along e S ch n n' s s')
    (hp : Place.Always e P ⟨n, t, indent, steps, out, s⟩) :
    EndAlike (Along e S ch n n') Eq Eq (renderSteps e (renderLevels e n) t indent steps out s)
      (renderSteps e (renderLevels e n') t' indent steps' out s') := by
  induction hdiffer generalizing out s s' with
  | here hdiffer => exact hhere hpos hdeeper ht hdiffer hs hp
  | body front back name strict text' d inner htext =>
    refine along_around_singleton h hpos hdeeper ht (fun hs hp => ?_) hs hp
    refine along_section h hpos hdeeper ht name strict d (fun hs hinner => ?_)
      (.inr ((hsuits _ hp.self).around _ _ _ _ _ _ rfl htext)) hs hp
    exact along_renderSteps h hpos hdeeper ht inner [] hs ((List.append_nil inner).symm ▸ hinner)
  | sectionStep front back name strict text' d htext _ ih =>
    refine along_around_singleton h hpos hdeeper ht (fun hs hp => ?_) hs hp
    exact along_section h hpos hdeeper ht name strict d ih
      (.inr ((hsuits _ hp.self).around _ _ _ _ _ _ rfl htext)) hs hp
  | inverted front back name _ ih =>
    exact along_around_singleton h hpos hdeeper ht
      (fun hs hp => along_inverted h hpos hdeeper name ih hs hp) hs hp
  | parent front back name own before after block dedent hinner _ =>
    refine along_around_singleton h hpos hdeeper ht
      (fun hs hp => along_parent h hpos hdeeper name own ?_ hs hp) hs hp
    exact List.rel_append (R := Override.Matches ch) (List.forall₂_same.mpr fun o _ => .refl ch o)
      (.cons ⟨rfl, rfl, .inr hinner⟩ (List.forall₂_same.mpr fun o _ => .refl ch o))
  | block front back name site site' hsite _ ih =>
    refine along_around_singleton h hpos hdeeper ht (fun hs hp => ?_) hs hp
    refine along_block hpos hdeeper ht name ih (hsite.imp_right ?_) hs hp
    rintro ⟨hsome, -, hopens⟩
    obtain ⟨own, rfl⟩ := Option.isSome_iff_exists.mp hsome
    exact (hsuits _ hp.self).site _ _ _ _ rfl hopens

/-- **Templates that differ in one place render alike** if what stands in that place does. -/
theorem changeAlike (h : Going e ch S T) (n : Nat) : ChangeAlike e S ch T P n := by
  have hsteps : ∀ n, (∀ k, n = k + 1 → ChangeAlike e S ch T P k) → ChangeAlike e S ch T P n := by
    intro n hdeeper n' t t' indent steps steps' out s s' hs ht hmatches hp
    have hpos : ch.shallow → 0 < n := fun hshallow => by
      have hdepth := (hsuits _ hp.self).depth hshallow
      have hlevels := hs.levels
      change s.depth < _ at hdepth
      omega
    rcases hmatches with rfl | hdiffer
    · refine along_renderSteps h hpos hdeeper ht steps' [] hs ?_
      rwa [List.append_nil]
    · exact along_differ hsuits hhere h hpos hdeeper ht hdiffer hs hp
  induction n with
  | zero => exact hsteps 0 fun k hk => absurd hk.symm (Nat.succ_ne_zero k)
  | succ n ih =>
    refine hsteps (n + 1) fun k hk => ?_
    obtain rfl := Nat.succ.inj hk
    exact ih

end

/-! ### Whole renders -/

/-- Templates whose steps are carried out alike render alike. -/
theorem ChangeAlike.renderTemplate {e : Engine σ} {S : Engine.Store σ → Engine.Store σ → Prop}
    {ch : Step.Change} {T : Template → Template → Prop} {P : Place σ → Prop}
    (h : ChangeAlike e S ch T P e.config.maxDepth) {t t' : Template} (ht : T t t')
    (hsteps : Step.Matches ch t.steps t'.steps) {s s' : Engine.Store σ} (hs : S s s')
    (hhelpers : s'.helpers = s.helpers) {data : Value}
    (hp : Place.Always e P ⟨e.config.maxDepth, t, "", t.steps, "", Engine.startState s data⟩) :
    EndAlike S Eq Eq (e.renderTemplate t data s) (e.renderTemplate t' data s') := by
  have hstart : Along e S ch e.config.maxDepth e.config.maxDepth (Engine.startState s data)
      (Engine.startState s' data) := by
    refine ⟨hs, ?_, .nil, rfl, rfl, .inl rfl⟩
    unfold Engine.startState
    rw [hhelpers]
  have hrun := h hstart ht hsteps hp
  cases hleft : renderLevels e (e.config.maxDepth + 1) t "" t.steps ""
      (Engine.startState s data) <;>
    cases hright : renderLevels e (e.config.maxDepth + 1) t' "" t'.steps ""
      (Engine.startState s' data) <;>
    rw [renderLevels] at hleft hright <;> rw [hleft, hright] at hrun
  · rw [Engine.renderTemplate_of_ok hleft, Engine.renderTemplate_of_ok hright]
    exact ⟨hrun.1.store, hrun.2⟩
  · exact hrun.elim
  · exact hrun.elim
  · rw [Engine.renderTemplate_of_error hleft, Engine.renderTemplate_of_error hright]
    exact ⟨hrun.1.store, hrun.2⟩

end Render

end Mustache
