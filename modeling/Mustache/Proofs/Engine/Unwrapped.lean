import Mustache.Proofs.Engine.Beside
import Mustache.Proofs.Engine.Strict
import Mustache.Proofs.Render.Unwrapped

/-!
Sources out of which the tags of a section are taken. If the section is over a callable that gives
its body back, such a source renders as it did with the tags. The two renders do not compile the
same sources, so what they leave in the registry and in the cache differs. Main statement:
`render_taken`.
-/

namespace Mustache.Engine

open Render

variable {σ κ : Type}

/-! ### Two stores -/

/-- The template has the escape of the engine and calls host objects if the engine does. -/
structure Owns (e : Engine σ) (t : Template) : Prop where
  escape : t.escape = e.escape
  strictCallables : t.strictCallables = e.config.strictCallables

/-- Both templates are the engine's. -/
def OwnsBoth (e : Engine σ) (t t' : Template) : Prop := e.Owns t ∧ e.Owns t'

section

variable {e : Engine σ} {t t' : Template} {tree : List Node}

theorem Compiled.owns (h : e.Compiled t tree) : e.Owns t := by
  obtain ⟨steps, hfields⟩ := fields_of_compile h.compile
  exact ⟨congrArg Template.escape hfields, congrArg Template.strictCallables hfields⟩

theorem Akin.twins (h : e.Akin t t') : Render.Twin e.OwnsBoth t t' :=
  ⟨⟨h.compiled.elim fun _ => Compiled.owns, h.compiled'.elim fun _ => Compiled.owns⟩, by
    rw [h.twin]⟩

end

/-- Two sound stores with the same helpers and the same world, the caches beside it aside. -/
structure Kindred (e : Engine (σ × κ)) (holds : κ → String → Artifact → Prop)
    (s s' : Store (σ × κ)) : Prop where
  sound : e.Sound (fun wk => holds wk.2) s
  sound' : e.Sound (fun wk => holds wk.2) s'
  helpers : s'.helpers = s.helpers
  world : s'.world.1 = s.world.1

section

variable {e : Engine σ} {cache : Cache κ} {holds : κ → String → Artifact → Prop}
  {s s' : Store (σ × κ)}

theorem Kindred.symm {E : Engine (σ × κ)} (hs : E.Kindred holds s s') : E.Kindred holds s' s :=
  ⟨hs.sound', hs.sound, hs.helpers.symm, hs.world.symm⟩

theorem Sound.setWorld (h : (e.beside cache).Sound (fun wk => holds wk.2) s) (w : σ) :
    (e.beside cache).Sound (fun wk => holds wk.2) { s with world := (w, s.world.2) } :=
  ⟨h.registered, h.held⟩

theorem sharesWorld_kindred : SharesWorld ((e.beside cache).Kindred holds) where
  world hs := hs.world
  setWorld hs w := ⟨hs.sound.setWorld w, hs.sound'.setWorld w, hs.helpers, rfl⟩

variable {c : Cache (σ × κ)} (hkeys : Function.Injective (e.beside cache).cacheKey)
  (hc : c.Remembers fun wk => holds wk.2) (hget : ∀ key wk, (left (c.get key) wk).1 = wk.1)
  (hset : ∀ key a wk, (left (c.set key a) wk).1 = wk.1)

include hkeys hc hget hset

/-- From both stores a source comes to templates that are the same to a render. -/
theorem alike_compileWith_kindred (name source : String) :
    Alike ((e.beside cache).Kindred holds) Eq (Render.Twin (e.beside cache).OwnsBoth)
      ((e.beside cache).compileWith c name source)
      ((e.beside cache).compileWith c name source) := by
  refine alike_of_result_left (fun s s' hs => ?_) fun s s' hs => ?_
  · exact (agree_of_compiling hkeys hc hs.sound hs.sound' (compiling_compileWith _ c name source s)
      (compiling_compileWith _ c name source s')).imp (fun _ _ => id) fun _ _ => Akin.twins
  · have h := compiling_compileWith (e.beside cache) c name source s
    have h' := compiling_compileWith (e.beside cache) c name source s'
    refine ⟨sound_of_compiling hc hs.sound h, sound_of_compiling hc hs.sound' h', ?_, ?_⟩
    · rw [helpers_of_compiling h, helpers_of_compiling h', hs.helpers]
    · rw [first_of_compiling hget hset h, first_of_compiling hget hset h', hs.world]

/-- A source that has a tree is compiled, and the store stays kindred to the other one. -/
theorem exists_compileWith_of_parse {source : String} {tree : List Node}
    (hparse : (e.beside cache).parse source = .ok tree)
    (hs : (e.beside cache).Kindred holds s s') (name : String) :
    ∃ t s₁, (e.beside cache).compileWith c name source s = .ok t s₁ ∧
      (e.beside cache).Kindred holds s₁ s' ∧ t.source = source ∧
      (e.beside cache).Compiled t tree := by
  have h := compiling_compileWith (e.beside cache) c name source s
  cases hresult : result ((e.beside cache).compileWith c name source) s with
  | error err =>
    rw [hresult] at h
    obtain ⟨⟨cause, hcause, -⟩, -⟩ := malformed_of_compiling hc hs.sound h
    cases hcause.symm.trans hparse
  | ok t =>
    rw [hresult] at h
    obtain ⟨hkey, ⟨tree', hcompiled⟩, -⟩ := compiled_of_compiling hc hs.sound h
    obtain hsource : t.source = source := hkeys hkey
    obtain rfl : tree' = tree :=
      Except.ok.inj (hcompiled.parse.symm.trans
        ((congrArg (e.beside cache).parse hsource).trans hparse))
    refine ⟨t, _, ok_of_result hresult, ⟨sound_of_compiling hc hs.sound h, hs.sound', ?_, ?_⟩,
      hsource, hcompiled⟩
    · rw [helpers_of_compiling h, hs.helpers]
    · rw [first_of_compiling hget hset h, hs.world]

end

/-! ### A section unwrapped -/

/-- The body of the section behind these tokens comes to the steps `lone`, be it read and compiled
under the pragmas in force there or, as text from a callable is, under those of the engine. -/
structure Lone (e : Engine σ) (front : List Token) (body : String) (lone : List Step) : Prop where
  inForce : Template.stepsUnder? e.config.strictVariables (e.pragmas.through front)
    (e.pragmas.through (Node.outside e.pragmas front)) body = some lone
  own : Template.stepsUnder? e.config.strictVariables e.pragmas e.pragmas body = some lone

section

variable {e : Engine σ} {cache : Cache κ} {holds : κ → String → Artifact → Prop}

theorem first_get_beside (key : String) (wk : σ × κ) : (left (cache.beside.get key) wk).1 = wk.1 :=
  (congrArg Prod.fst (cache.left_get_beside wk key)).trans rfl

theorem first_set_beside (key : String) (a : Artifact) (wk : σ × κ) :
    (left (cache.beside.set key a) wk).1 = wk.1 :=
  (congrArg Prod.fst (cache.left_set_beside wk key a)).trans rfl

variable (hkeys : Function.Injective (e.beside cache).cacheKey) (hcache : cache.Remembers holds)

include hkeys hcache

/-- The engine goes on alike from both stores. -/
theorem going_kindred {ch : Step.Change} (hshallow : ch.shallow) :
    Going (e.beside cache) ch ((e.beside cache).Kindred holds) (e.beside cache).OwnsBoth where
  escape h := h.2.escape.trans h.1.escape.symm
  strictCallables h := h.2.strictCallables.trans h.1.strictCallables.symm
  name _ := .inl hshallow
  partials hs name := congrArg (e.partials · name) hs.world
  compiles := alike_compileWith_kindred hkeys hcache.beside first_get_beside first_set_beside
  compilesUncached := alike_compileWith_kindred hkeys
    (Cache.lawful_none fun wk : σ × κ => holds wk.2).remembers (fun _ _ => rfl) fun _ _ _ => rfl
  nullary := alike_nullary_beside sharesWorld_kindred
  unary := alike_unary_beside sharesWorld_kindred

/-- A body that has a tree is compiled as a text of a callable, and the store stays kindred to the
other one. -/
theorem exists_loadLambda_of_parse (hstandard : e.delimiters = .standard) {body : String}
    {tree : List Node} (hparse : (e.beside cache).parse body = .ok tree) {s s' : Store (σ × κ)}
    (hs : (e.beside cache).Kindred holds s s') :
    ∃ t s₁, (e.beside cache).loadLambda body (some .standard) s = .ok t s₁ ∧
      (e.beside cache).Kindred holds s₁ s' ∧ t.source = body ∧
      (e.beside cache).Compiled t tree := by
  have hsource : (e.beside cache).lambdaSource body (some .standard) = body :=
    if_pos hstandard.symm
  unfold loadLambda
  rw [hsource]
  split
  · exact exists_compileWith_of_parse hkeys hcache.beside first_get_beside first_set_beside hparse
      hs "lambda"
  · exact exists_compileWith_of_parse hkeys (Cache.lawful_none _).remembers (fun _ _ => rfl)
      (fun _ _ _ => rfl) hparse hs "lambda"

/-- The engine goes on alike also if only the first render compiles the body. -/
theorem unwrapping_kindred (hstandard : e.delimiters = .standard) {body : String} {lone : List Step}
    (hline : '\n' ∉ body.toList) (hne : body.toList ≠ [])
    (hlone : Template.stepsUnder? e.config.strictVariables e.pragmas e.pragmas body = some lone)
    {ch : Step.Change} (hshallow : ch.shallow) :
    Unwrapping (e.beside cache) ch ((e.beside cache).Kindred holds) (e.beside cache).OwnsBoth body
      lone where
  toGoing := going_kindred hkeys hcache hshallow
  loads {s s'} hs := by
    obtain ⟨ts, tree, w, hscan, htree, hsteps⟩ := Template.stepsUnder?_eq_some_iff.mp hlone
    have hparse : (e.beside cache).parse body = .ok tree :=
      parse_of_scan (e := e.beside cache) (hstandard ▸ hscan) htree
    obtain ⟨t, s₁, hload, hs₁, rfl, hcompiled⟩ :=
      exists_loadLambda_of_parse hkeys hcache hstandard hparse hs
    refine ⟨t, s₁, hload, hs₁, ?_, fun hu => ⟨hcompiled.owns, hu.2⟩⟩
    obtain ⟨steps, w', hsteps', hfields⟩ := Template.compile_eq_ok_iff.mp hcompiled.compile
    rw [hfields]
    exact (Prod.mk.inj (Except.ok.inj (hsteps'.symm.trans hsteps))).1
  plain hopening := Option.some.inj (hlone.symm.trans
    (Template.stepsUnder?_of_not_contains hopening hline hne _ _ _))

end

/-! ### A callable that gives back what it gets -/

/-- An engine of default options whose callables give back what they get. -/
def echoEngine : Engine Unit :=
  { plainEngine [] with
    digest := spelled 0
    host :=
      { nullary := fun _ w => (.ok .null, w)
        unary := fun _ v _ w => .done (.ok v) w } }

/-- The steps of a text and a variable behind it. -/
def loneEcho : List Step := [.text "b" true, .interpolation ⟨"x", []⟩ true false false]

theorem lone_echo : echoEngine.Lone [] "b\x7b\x7bx\x7d\x7d" loneEcho := by
  have hlone : Template.stepsUnder? false PragmaSet.empty PragmaSet.empty "b\x7b\x7bx\x7d\x7d" =
      some loneEcho :=
    Template.stepsUnder?_eq_some_iff.mpr ⟨[⟨.text, "b", 1, 0, 1, .standard, none⟩,
      ⟨.escaped, "x", 1, 1, 6, .standard, none⟩], [.text "b", .interpolation "x" true 1], _,
      by decide +kernel, by cbv, rfl⟩
  exact ⟨hlone, hlone⟩

section

variable {ch : Step.Change} {s s' : Store (Unit × Unit)} {st : State (Unit × Unit)} {n : Nat}
  {t : Template} {out : String} {inner : List Step}

theorem unwrapping_echo (hshallow : ch.shallow) : Unwrapping (echoEngine.beside Cache.none) ch
    ((echoEngine.beside (Cache.none : Cache Unit)).Kindred fun _ _ _ => False)
    (echoEngine.beside (Cache.none : Cache Unit)).OwnsBoth "b\x7b\x7bx\x7d\x7d" loneEcho :=
  unwrapping_kindred (e := echoEngine) (cacheKey_injective (spelled_injective 0))
    (Cache.lawful_none _).remembers rfl (by decide) (by decide) lone_echo.own hshallow

theorem fits_echo (hshallow : ch.shallow) (haround : ¬ ch.around "b\x7b\x7bx\x7d\x7d")
    (hdepth : st.depth = 0)
    (hscopes : st.scopes = [.map [("w", .callable ⟨0, .unary⟩), ("x", .string "c")]])
    (hsound : (echoEngine.beside Cache.none).Sound (fun _ _ _ => False) st.store) :
    Place.Always (echoEngine.beside Cache.none)
      (Place.Fits (echoEngine.beside (Cache.none : Cache Unit)) ch "w" "b\x7b\x7bx\x7d\x7d")
      ⟨n, t, "", [.sectionStep ⟨"w", []⟩ false "b\x7b\x7bx\x7d\x7d" .standard inner], out, st⟩ := by
  have hresolve : resolve "w" false st = .ok (.callable ⟨0, .unary⟩) st :=
    resolve_of_lookup (hscopes ▸ rfl) false
  have hvalue : ∀ deeper, sectionValue (echoEngine.beside (Cache.none : Cache Unit)) deeper
      ⟨"w", []⟩ false st = .ok (.callable ⟨0, .unary⟩) st := fun deeper =>
    (bind_of_ok _ hresolve).trans rfl
  -- the template of the text has the steps of the body
  have hopens : ∀ {t₁ s₁}, OpensText (echoEngine.beside (Cache.none : Cache Unit))
      "b\x7b\x7bx\x7d\x7d" (some .standard) st t₁ s₁ → t₁.steps = loneEcho := by
    intro t₁ s₁ h
    obtain ⟨t₂, s₂, hload, -, hsteps, -⟩ :=
      (unwrapping_echo hshallow).loads ⟨hsound, hsound, rfl, rfl⟩
    have hboth := h.load
    unfold onStore at hboth
    rw [hload] at hboth
    obtain ⟨rfl, -⟩ := EStateM.Result.ok.inj hboth
    exact hsteps
  have hputs : ∀ step ∈ loneEcho, PutsOut st.scopes step := by
    rw [hscopes]
    exact List.forall_mem_cons.mpr ⟨.text _ _,
      List.forall_mem_singleton.mpr (.interpolation _ _ _ rfl)⟩
  refine .of_visits ⟨⟨fun _ => hdepth ▸ by decide, ?_, ?_⟩, ?_⟩ fun q hvisits => ?_
  · intro name strict text d inner rest hsteps htext
    cases hsteps
    exact absurd htext haround
  · intro name site inner rest hsteps
    cases hsteps
  · intro filters strict inner rest hsteps
    obtain ⟨hname, rfl, -⟩ := Step.sectionStep.inj (List.cons.inj hsteps).1
    refine ⟨⟨0, hname ▸ hvalue _, rfl⟩, rfl, fun k t₁ s₁ _ htext => calm_putsOut ?_⟩
    intro step hstep
    exact htext.samePlace.scopes ▸ hputs step (hopens htext ▸ hstep)
  · cases hvisits with
    | advance hadvance =>
      cases hadvance with
      | next hstep =>
        refine always_fits_putsOut _ _ _ (List.forall_mem_nil _) ?_
        rw [((render_restores _ _ _ _ _).2.2.1 _).of_ok hstep |>.depth, hdepth]
        decide
      | answered hvalue' hcall htext =>
        obtain ⟨hc, rfl⟩ := EStateM.Result.ok.inj ((hvalue _).symm.trans hvalue')
        cases hc
        obtain ⟨rfl, rfl⟩ := EStateM.Result.ok.inj hcall
        refine always_fits_putsOut _ _ _ (fun step hstep => ?_) ?_
        · exact htext.samePlace.scopes ▸ hputs step (hopens htext ▸ hstep)
        · show _ + 1 < _
          rw [htext.samePlace.depth]
          change st.depth + 1 < _
          rw [hdepth]
          decide
      | body hvalue' hplain =>
        obtain ⟨rfl, -⟩ := EStateM.Result.ok.inj ((hvalue _).symm.trans hvalue')
        exact absurd rfl (hplain _)
    | asked hcalls hasks =>
      cases hcalls with
      | sectionName _ hfilter => exact absurd hfilter not_filterCalls_nil
      | sectionBody hvalue' =>
        obtain ⟨hc, -⟩ := EStateM.Result.ok.inj ((hvalue _).symm.trans hvalue')
        cases hc
        cases hasks

end

end Mustache.Engine
