import Mustache.Proofs.Engine.Fingerprint
import Mustache.Proofs.Engine.Strict
import Mustache.Proofs.Render.Visited

/-!
Engines whose escape is replaced while they work. Compiled templates stay registered, and the key
of a source tells the built-in escape from a function, but not one function from another. So once
a function has replaced the escape, all templates that the engine comes by use it, except those
registered before for the same source under another function. Main statement:
`applies_replaced`.
-/

namespace Mustache.Engine

variable {σ : Type}

/-! ### Histories with changes of the escape -/

/-- What happens to an engine: it carries out an operation, or its escape is replaced. -/
inductive Event (σ : Type)
  | operation (op : Operation σ)
  | escapeWith (f : String → String)

/-- An engine with its store. -/
structure Running (σ : Type) where
  engine : Engine σ
  store : Store σ

def Running.next (r : Running σ) : Event σ → Running σ
  | .operation op => { r with store := op.leaves r.engine r.store }
  | .escapeWith f => { r with engine := r.engine.withEscape (.custom f) }

def Running.run (r : Running σ) (events : List (Event σ)) : Running σ := events.foldl next r

/-- The escape, and the functions that replace it in the course of the events. -/
def escapes (e : Engine σ) (events : List (Event σ)) : List Escape :=
  e.escape :: events.filterMap fun
    | .operation _ => none
    | .escapeWith f => some (.custom f)

/-- Registered templates escape as the engine did at some time, and their keys are those that the
engine had then for some source. -/
structure Traced (e : Engine σ) (known : List Escape) (s : Store σ) : Prop where
  escape : ∀ {key t}, s.registry.find? key = some t → t.escape ∈ known
  key : ∀ {key t}, s.registry.find? key = some t →
    ∃ source, key = (e.withEscape t.escape).cacheKey source

/-- The engine is `e` but for its escape, which is known. -/
structure Escaped (e : Engine σ) (known : List Escape) (e' : Engine σ) : Prop where
  escape : e'.escape ∈ known
  cacheKey : e'.cacheKey = (e.withEscape e'.escape).cacheKey
  withEscape : ∀ escape, e'.withEscape escape = e.withEscape escape

theorem escape_of_compiling {e : Engine σ} {cache : Cache σ} {name source : String}
    {s s' : Store σ} {t : Template} (h : Compiling e cache name source s (.ok t) s') :
    s.registry.find? (e.cacheKey source) = some t ∨ t.escape = e.escape := by
  cases h with
  | known hknown => exact Or.inl hknown
  | made _ _ hcompile =>
    obtain ⟨steps, rfl⟩ := fields_of_compile hcompile
    exact Or.inr rfl

theorem invariant_traced {e e' : Engine σ} {known : List Escape} (h : Escaped e known e') :
    Invariant e' (Traced e known) where
  compiles {s} cache name source hs := by
    have hnew : ∀ {key t},
        (left (e'.compileWith cache name source) s).registry.find? key = some t →
        s.registry.find? key = some t ∨ key = e'.cacheKey source ∧ t.escape = e'.escape := by
      intro key t hfind
      rcases find?_of_compiling (compiling_compileWith e' cache name source s) hfind with
        hbefore | ⟨rfl, hresult⟩
      · exact Or.inl hbefore
      · exact (escape_of_compiling (compiling_of_result hresult)).imp_right fun hown => ⟨rfl, hown⟩
    refine ⟨fun hfind => ?_, fun hfind => ?_⟩
    · rcases hnew hfind with hbefore | ⟨-, hown⟩
      · exact hs.escape hbefore
      · exact hown ▸ h.escape
    · rcases hnew hfind with hbefore | ⟨rfl, hown⟩
      · exact hs.key hbefore
      · exact ⟨source, by rw [hown, h.cacheKey]⟩
  clears _ := ⟨(nomatch ·), (nomatch ·)⟩
  surroundings _ _ hs := ⟨hs.escape, hs.key⟩

theorem traced_run {e : Engine σ} {known : List Escape} {events : List (Event σ)} {r : Running σ}
    (hr : Escaped e known r.engine) (hstore : Traced e known r.store)
    (hevents : ∀ f, .escapeWith f ∈ events → .custom f ∈ known) :
    Escaped e known (r.run events).engine ∧ Traced e known (r.run events).store := by
  induction events generalizing r with
  | nil => exact ⟨hr, hstore⟩
  | cons event events ih =>
    have hrest := fun f hf => hevents f (List.mem_cons_of_mem event hf)
    cases event with
    | operation op => exact ih hr ((invariant_traced hr).leaves op r.store hstore) hrest
    | escapeWith f =>
      refine ih (r := r.next (.escapeWith f)) ⟨hevents f List.mem_cons_self, ?_, ?_⟩ hstore hrest
      · exact congrArg cacheKey (hr.withEscape (.custom f))
      · exact hr.withEscape

/-! ### After the last change -/

/-- Templates that the keys of sources lead to escape as the engine does, but for those that they
led to in the old store. -/
def Renewed (e : Engine σ) (old s : Store σ) : Prop :=
  ∀ source t, s.registry.find? (e.cacheKey source) = some t →
    t.escape = e.escape ∨ old.registry.find? (e.cacheKey source) = some t

theorem escape_of_gives {e : Engine σ} {old : Store σ} {source : String} {t : Template}
    (h : e.Gives (Renewed e old) source t) :
    t.escape = e.escape ∨ old.registry.find? (e.cacheKey source) = some t := by
  obtain ⟨cache, name, s, hs, hresult⟩ := h
  rcases escape_of_compiling (compiling_of_result hresult) with hknown | hown
  · exact hs source t hknown
  · exact Or.inl hown

theorem invariant_renewed (e : Engine σ) (old : Store σ) : Invariant e (Renewed e old) where
  compiles {s} cache name source hs := by
    intro other t hfind
    rcases find?_of_compiling (compiling_compileWith e cache name source s) hfind with
      hbefore | ⟨hkey, hresult⟩
    · exact hs other t hbefore
    · rw [hkey]
      exact escape_of_gives ⟨cache, name, s, hs, hresult⟩
  clears _ := fun _ _ hfind => nomatch hfind
  surroundings _ _ hs := hs

/-- The engine comes by the template: it compiles or loads it, or works through it in a render. The
handle that a render is asked for is not one of these. -/
inductive ComesBy (e : Engine σ) (s : Store σ) : Template → Prop
  | compile {source t} (h : result (e.compile source) s = .ok t) : ComesBy e s t
  | loadTemplate {name t} (h : result (e.loadTemplate name) s = .ok t) : ComesBy e s t
  | loadPartial {name t} (h : result (e.loadPartial name) s = .ok (some t)) : ComesBy e s t
  | loadLambda {text delimiters t} (h : result (e.loadLambda text delimiters) s = .ok t) :
      ComesBy e s t
  | renderTemplate {handle data q}
      (h : Relation.ReflTransGen (Render.Visits e) (e.startPlace handle data s) q)
      (hother : q.template ≠ handle) : ComesBy e s q.template
  | render {name data t s' q} (hload : e.loadTemplate name s = .ok t s')
      (h : Relation.ReflTransGen (Render.Visits e) (e.startPlace t data s') q) :
      ComesBy e s q.template

theorem exists_gives_of_comesBy {e : Engine σ} {P : Store σ → Prop} (h : Lasting e P) {s : Store σ}
    (hs : P s) {t : Template} (ht : ComesBy e s t) : ∃ source, e.Gives P source t := by
  cases ht with
  | compile hresult => exact ⟨_, _, _, s, hs, hresult⟩
  | loadTemplate hresult => exact gives_of_loadTemplate hs hresult
  | loadPartial hresult => exact gives_of_loadPartial hs hresult
  | loadLambda hresult => exact ⟨_, gives_of_loadLambda hs hresult⟩
  | renderTemplate hreaches hother =>
    exact (Render.kept_of_reaches h hreaches hs).2.resolve_left hother
  | @render name data t s' q hload hreaches =>
    have hstore := h.loadTemplate name s hs
    rw [left_of_ok hload] at hstore
    rcases (Render.kept_of_reaches h hreaches hstore).2 with hfirst | hgives
    · rw [hfirst]
      exact gives_of_loadTemplate hs (result_of_ok hload)
    · exact hgives

/-- Each escaped variable of the template prints `f` of its text. -/
def Applies (e : Engine σ) (f : String → String) (t : Template) : Prop :=
  ∀ deeper indent name strict lineStart out,
    Render.renderStep e deeper t indent (.interpolation name true strict lineStart) out = do
      let text ← Render.interpolate e deeper t name strict
      return out ++ (if lineStart then indent else "") ++ f text

theorem applies_of_escape (e : Engine σ) {f : String → String} {t : Template}
    (h : t.escape = .custom f) : e.Applies f t := by
  intro deeper indent name strict lineStart out
  rw [Render.renderStep, h]
  rfl

/-- The template, which applies `g`, was registered in the old store under the key that its source
still has. -/
def Stale (e : Engine σ) (old : Store σ) (g : String → String) (t : Template) : Prop :=
  e.Applies g t ∧ ∃ source, old.registry.find? (e.cacheKey source) = some t

/-- **A replaced escape takes effect.** Whatever an engine has done and however often its escape
was replaced, from the last time on, by `f`, each template that it comes by applies `f` to escaped
variables, unless it was registered before, under an earlier function and the key that its source
still has; or else the digest has a collision. -/
theorem applies_replaced (e : Engine σ) (helpers : Table Value) (w : σ) (events : List (Event σ))
    (f : String → String) (later : List (Operation σ)) (t : Template) :
    let r := Running.run ⟨e, freshStore helpers w⟩ events
    let e' := r.engine.withEscape (.custom f)
    ComesBy e' (e'.perform later r.store) t →
      e'.Applies f t ∨
      (∃ g, .custom g ∈ e.escapes events ∧ e'.Stale r.store g t) ∨
      ∃ mode source other, .html mode ∈ e.escapes events ∧
        Collide e.digest (keyBytes e'.fingerprint source)
          (keyBytes (e.withEscape (.html mode)).fingerprint other) := by
  intro r e' ht
  have hfunctions : ∀ g, .escapeWith g ∈ events → .custom g ∈ e.escapes events := fun g hg =>
    List.mem_cons_of_mem _ (List.mem_filterMap.mpr ⟨_, hg, rfl⟩)
  have hescaped : Escaped e (e.escapes events) e := ⟨List.mem_cons_self, rfl, fun _ => rfl⟩
  have hfresh : Traced e (e.escapes events) (freshStore helpers w) := ⟨(nomatch ·), (nomatch ·)⟩
  obtain ⟨hengine, htraced⟩ := traced_run (r := ⟨e, freshStore helpers w⟩) hescaped hfresh
    hfunctions
  have hrenewed : Renewed e' r.store (e'.perform later r.store) :=
    (invariant_renewed e' r.store).perform later r.store fun _ _ hfind => Or.inr hfind
  obtain ⟨source, hgives⟩ :=
    exists_gives_of_comesBy (invariant_renewed e' r.store).lasting hrenewed ht
  rcases escape_of_gives hgives with hown | hold
  · exact Or.inl (applies_of_escape e' hown)
  · cases hescape : t.escape with
    | custom g =>
      exact Or.inr (Or.inl ⟨g, hescape ▸ htraced.escape hold, applies_of_escape e' hescape, source,
        hold⟩)
    | html mode =>
      obtain ⟨other, hkey⟩ := htraced.key hold
      rw [hescape] at hkey
      refine Or.inr (Or.inr ⟨mode, source, other, hescape ▸ htraced.escape hold, ?_, ?_⟩)
      · intro hbytes
        have hname := keyName_eq_of_keyBytes_eq hbytes
        change "custom" = "html:" ++ mode.name at hname
        cases mode <;> exact absurd hname (by decide)
      · have hsame : e' = e.withEscape (.custom f) := hengine.withEscape (.custom f)
        rw [hsame] at hkey ⊢
        exact hkey

/-- An engine of default options, its keys what they should be the digest of. -/
def literalEngine : Engine Unit :=
  { plainEngine [] with digest := fun bytes => String.ofList (bytes.map Char.ofUInt8) }

/-- Puts the text in brackets. -/
def bracketed (text : String) : String := "[" ++ text ++ "]"

/-- A source that was compiled under the built-in escape is compiled anew under a function. -/
theorem applies_replaced_builtin :
    let events : List (Event Unit) := [.operation (.compile loneSource)]
    let r := Running.run ⟨literalEngine, freshStore [] ()⟩ events
    let e' := r.engine.withEscape (.custom bracketed)
    ∃ t, ComesBy e' (e'.perform [] r.store) t ∧ e'.Applies bracketed t := by
  intro events r e'
  have hok : (result (e'.compile loneSource) r.store).isOk = true := by decide +kernel
  cases hresult : result (e'.compile loneSource) r.store with
  | error err =>
    rw [hresult] at hok
    cases hok
  | ok t =>
    have ht : ComesBy e' (e'.perform [] r.store) t := .compile hresult
    refine ⟨t, ht, ?_⟩
    rcases applies_replaced literalEngine [] () events bracketed [] t ht with
      happlies | ⟨g, hg, -⟩ | ⟨mode, source, other, -, hne, hsame⟩
    · exact happlies
    · cases List.mem_singleton.mp hg
    · exact absurd (spelled_injective 0 hsame) hne

/-- One function after another: a source compiled under the first prints what the first makes of
its variable, and does not apply the second. -/
theorem first_function_stays :
    let events : List (Event Unit) := [.escapeWith id, .operation (.compile loneSource)]
    let r := Running.run ⟨literalEngine, freshStore [] ()⟩ events
    let e' := r.engine.withEscape (.custom bracketed)
    result (e'.render loneSource (.map [("x", .string "a")])) r.store = .ok "a" ∧
      ∃ t, ComesBy e' r.store t ∧ ¬ e'.Applies bracketed t := by
  intro events r e'
  refine ⟨by decide +kernel, ?_⟩
  have hprints : (result (e'.compile loneSource) r.store).map (·.escape.apply "a") = .ok "a" := by
    decide +kernel
  cases hresult : result (e'.compile loneSource) r.store with
  | error err =>
    rw [hresult] at hprints
    cases hprints
  | ok t =>
    rw [hresult] at hprints
    have hplain : t.escape.apply "a" = "a" := Except.ok.inj hprints
    refine ⟨t, .compile hresult, fun happlies => ?_⟩
    let s := startState r.store (.map [("x", .string "a")])
    have htext : ∀ deeper, Render.interpolate e' deeper t ⟨"x", []⟩ false s = .ok "a" s :=
      fun _ => rfl
    have hstep := congrFun (happlies (fun _ _ _ out => pure out) "" ⟨"x", []⟩ false false "") s
    rw [Render.renderStep, Render.bind_of_ok _ (htext _), Render.bind_of_ok _ (htext _)] at hstep
    have hsame : "" ++ "" ++ t.escape.apply "a" = "" ++ "" ++ bracketed "a" :=
      (EStateM.Result.ok.inj hstep).1
    rw [hplain] at hsame
    exact absurd hsame (by decide)

end Mustache.Engine
