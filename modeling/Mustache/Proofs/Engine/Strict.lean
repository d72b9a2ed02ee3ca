import Mustache.Proofs.Engine.Replay
import Mustache.Proofs.Render.Strict

/-!
An engine and its strict form, which differ in the option for strict variables alone. Under that
option every source comes to a template with the same steps, all lookups in them strict, so a
render gives what it gives without the option, unless it comes to a variable or a section whose
path does not resolve there. Main statement: `render_strict`.
-/

namespace Mustache.Engine

variable {σ : Type} {e : Engine σ} {holds : σ → String → Artifact → Prop} {cache : Cache σ}
  {s s' : Store σ} {P : Callable → Prop}

/-- The engine with strict variables. -/
def strict (e : Engine σ) : Engine σ :=
  { e with config := { e.config with strictVariables := true } }

/-! ### What a source comes to -/

/-- The registries hold templates of the same sources, strict ones in the second. -/
def Abreast (e : Engine σ) (registry registry' : Registry) : Prop :=
  ∀ source, Option.Rel Template.Strict (registry.find? (e.cacheKey source))
    (registry'.find? (e.strict.cacheKey source))

section

variable {registry registry' : Registry} (h : e.Abreast registry registry') (name source : String)

include h

theorem agree_comesTo : Agree Eq Template.Strict (e.comesTo registry name source)
    (e.strict.comesTo registry' name source) := by
  have hfind := h source
  unfold comesTo
  cases hfound : registry.find? (e.cacheKey source) <;>
    cases hfound' : registry'.find? (e.strict.cacheKey source) <;> rw [hfound, hfound'] at hfind
  · have hparse : e.strict.parse source = e.parse source := rfl
    rw [hparse]
    cases e.parse source with
    | error err => exact rfl
    | ok tree =>
      have hcompile : Template.compile (e.strict.compileOptions (e.strict.cacheKey source)) name
          source tree = _ :=
        Template.compile_strict (e.compileOptions (e.cacheKey source)) (e.strict.cacheKey source)
          name source tree
      simp only [bind, Except.bind, hcompile]
      cases Template.compile (e.compileOptions (e.cacheKey source)) name source tree with
      | error err => exact rfl
      | ok t => exact rfl
  · cases hfind
  · cases hfind
  · cases hfind with
    | some ht => exact ht

theorem abreast_registers (hkeys : Function.Injective e.cacheKey)
    (hkeys' : Function.Injective e.strict.cacheKey) :
    e.Abreast (e.registers registry name source) (e.strict.registers registry' name source) := by
  have hfind := h source
  have hagree := agree_comesTo h name source
  unfold registers
  cases hfound : registry.find? (e.cacheKey source) <;>
    cases hfound' : registry'.find? (e.strict.cacheKey source) <;> rw [hfound, hfound'] at hfind
  · cases hcomes : e.comesTo registry name source <;>
      cases hcomes' : e.strict.comesTo registry' name source <;> rw [hcomes, hcomes'] at hagree
    · exact h
    · exact hagree.elim
    · exact hagree.elim
    · intro other
      rw [find?_insert_registry, find?_insert_registry]
      by_cases hsame : other = source
      · rw [if_pos (congrArg _ hsame), if_pos (congrArg _ hsame)]
        exact .some hagree
      · rw [if_neg fun hkey => hsame (hkeys hkey), if_neg fun hkey => hsame (hkeys' hkey)]
        exact h other
  · cases hfind
  · cases hfind
  · exact h

end

/-! ### Two stores -/

/-- The cache holds trees of their sources, each under the key of its source. -/
def HoldsTrees (e : Engine σ) (holds : σ → String → Artifact → Prop) (w : σ) : Prop :=
  ∀ {key a}, holds w key a → key = e.cacheKey a.source ∧ e.parse a.source = .ok a.tree

/-- A store of the engine and one of its strict form, with the same helpers and sources, that have
templates of the same sources. -/
structure Paired (e : Engine σ) (holds : σ → String → Artifact → Prop) (s s' : Store σ) :
    Prop where
  abreast : e.Abreast s.registry s'.registry
  helpers : s'.helpers = s.helpers
  shelves : e.SameShelves s.world s'.world
  held : e.HoldsTrees holds s.world
  held' : e.strict.HoldsTrees holds s'.world

theorem holdsTrees_of_compiling (hcache : cache.Remembers holds) {name source : String}
    {r : Except Error Template} (hheld : e.HoldsTrees holds s.world)
    (h : Compiling e cache name source s r s') : e.HoldsTrees holds s'.world := by
  intro key a ha
  rcases held_of_compiling hcache h ha with ha | ⟨rfl, hsource, hparse⟩
  · exact hheld ha
  · rw [hsource]
    exact ⟨rfl, hparse⟩

section

variable (hkeys : Function.Injective e.cacheKey) (hkeys' : Function.Injective e.strict.cacheKey)

include hkeys hkeys'

theorem alike_compileWith_strict (hcache : cache.Remembers holds) (haside : e.CacheAside cache)
    (name source : String) :
    Alike (e.Paired holds) Eq Template.Strict (e.compileWith cache name source)
      (e.strict.compileWith cache name source) := by
  have hboth : ∀ s s', e.Paired holds s s' →
      Agree Eq Template.Strict (result (e.compileWith cache name source) s)
        (result (e.strict.compileWith cache name source) s') ∧
      e.Paired holds (left (e.compileWith cache name source) s)
        (left (e.strict.compileWith cache name source) s') := by
    intro s s' hs
    have hcompiling := compiling_compileWith e cache name source s
    have hcompiling' := compiling_compileWith e.strict cache name source s'
    obtain ⟨hresult, hregistry⟩ :=
      comesTo_of_compiling (tree_of_gets hkeys hcache hs.held) hcompiling
    obtain ⟨hresult', hregistry'⟩ :=
      comesTo_of_compiling (tree_of_gets hkeys' hcache hs.held') hcompiling'
    refine ⟨?_, ?_, ?_, ?_, ?_, ?_⟩
    · rw [hresult, hresult']
      exact agree_comesTo hs.abreast name source
    · rw [hregistry, hregistry']
      exact abreast_registers hs.abreast name source hkeys hkeys'
    · rw [helpers_of_compiling hcompiling, helpers_of_compiling hcompiling', hs.helpers]
    · have hleft := sameShelves_of_compiling haside hcompiling
      have haside' : e.strict.CacheAside cache := haside.congr rfl rfl
      have hleft' := sameShelves_of_compiling haside' hcompiling'
      exact hleft.symm.trans (hs.shelves.trans (hleft'.congr rfl rfl))
    · exact holdsTrees_of_compiling hcache hs.held hcompiling
    · exact holdsTrees_of_compiling hcache hs.held' hcompiling'
  exact alike_of_result_left (fun s s' hs => (hboth s s' hs).1) fun s s' hs => (hboth s s' hs).2

/-- **A render with the strict form goes on as one with the engine** until it is lost. -/
theorem hardened_strict (hcache : e.cache.Remembers holds) (haside : e.CacheAside e.cache)
    (hprompt : e.host.Prompt P) : Render.Hardened e e.strict (e.Paired holds) P where
  maxDepth := rfl
  delimiters := rfl
  host := rfl
  prompt := hprompt
  loadPartial := alike_loadPartial (fun _ => rfl) (fun hs => hs.shelves.partials)
    (alike_compileWith_strict hkeys hkeys' hcache haside)
  loadLambda := alike_loadLambda rfl rfl
    (alike_compileWith_strict hkeys hkeys' hcache haside)
    (alike_compileWith_strict hkeys hkeys' (Cache.lawful_none holds).remembers
      (cacheAside_none e))

end

/-! ### Renders -/

/-- Where a render of a template starts. -/
def startPlace (e : Engine σ) (t : Template) (data : Value) (s : Store σ) : Render.Place σ :=
  ⟨e.config.maxDepth, t, "", t.steps, "", startState s data⟩

/-- Rendering the name comes to a variable or a section, its lookup strict, whose path does not
resolve there. -/
def Meets (e : Engine σ) (name : String) (data : Value) (s : Store σ) (path : String) : Prop :=
  ∃ t s', e.loadTemplate name s = .ok t s' ∧ (e.startPlace t data s').Meets e path

theorem result_render_of_ok {name : String} {data : Value} {t : Template}
    (h : e.loadTemplate name s = .ok t s') :
    result (e.render name data) s = result (e.renderTemplate t data) s' := by
  unfold render
  simp only [result, bind, EStateM.bind, h]

/-- A render that comes to such a variable or section fails for its path. -/
theorem render_of_meets {name path : String} {data : Value} (h : e.Meets name data s path) :
    result (e.render name data) s = .error (.unknownVariable path) := by
  obtain ⟨t, s', hload, hmeets⟩ := h
  obtain ⟨r, hrun⟩ := hmeets.fails
  rw [result_render_of_ok hload]
  exact result_of_error (renderTemplate_of_error hrun)

section

variable {data : Value} (h : Render.Hardened e e.strict (e.Paired holds) P)
  (hdata : data.CallablesIn P)

include h hdata

theorem renderTemplate_strict {t t' : Template} (ht : Template.Strict t t')
    (hs : e.Paired holds s s') (hhelpers : ∀ entry ∈ s.helpers, entry.2.CallablesIn P) :
    result (e.strict.renderTemplate t' data) s' = result (e.renderTemplate t data) s ∨
      ∃ path, (e.strict.startPlace t' data s').Meets e.strict path := by
  have hstart : Render.InStep (e.Paired holds) P (startState s data) (startState s' data) := by
    refine ⟨?_, forall_startScopes hdata (.map hhelpers), rfl, rfl, hs⟩
    unfold startState
    rw [hs.helpers]
  have hrun := h.renderLevels (e.config.maxDepth + 1) "" t.steps "" ht hstart
  rw [← ht.steps] at hrun
  rcases hrun with ⟨path, -, -, k, hk, hmeets⟩ | hend
  · obtain rfl : e.config.maxDepth = k := Nat.succ.inj hk
    exact Or.inr ⟨path, hmeets⟩
  · left
    cases hrun : Render.renderLevels e (e.config.maxDepth + 1) t "" t.steps ""
        (startState s data) <;>
      cases hrun' : Render.renderLevels e.strict (e.config.maxDepth + 1) t' "" t'.steps ""
        (startState s' data) <;> rw [hrun, hrun'] at hend
    · rw [result_of_ok (renderTemplate_of_ok hrun), result_of_ok (renderTemplate_of_ok hrun'),
        hend.2]
    · exact hend.elim
    · exact hend.elim
    · rw [result_of_error (renderTemplate_of_error hrun),
        result_of_error (renderTemplate_of_error hrun'), hend.2]

end

/-- Where keys tell sources apart, a strict render is lost or gives what the other gives. -/
theorem render_strict_of_keys (hkeys : Function.Injective e.cacheKey)
    (hkeys' : Function.Injective e.strict.cacheKey) (hcache : e.cache.Remembers holds)
    (haside : e.CacheAside e.cache) (hprompt : e.host.Prompt P) {data : Value}
    (hdata : data.CallablesIn P) (hs : e.Paired holds s s')
    (hhelpers : ∀ entry ∈ s.helpers, entry.2.CallablesIn P) (name : String) :
    result (e.strict.render name data) s' = result (e.render name data) s ∨
      ∃ path, e.strict.Meets name data s' path := by
  have hload : EndAlike (e.Paired holds) Eq Template.Strict (e.loadTemplate name s)
      (e.strict.loadTemplate name s') :=
    alike_loadTemplate (fun _ => rfl) (fun hs => hs.shelves.loader)
      (alike_compileWith_strict hkeys hkeys' hcache haside) name s s' hs
  have hkept := helpers_loadTemplate e name s
  cases hrun : e.loadTemplate name s <;> cases hrun' : e.strict.loadTemplate name s' <;>
    rw [hrun, hrun'] at hload
  · rename_i t r t' r'
    rw [left_of_ok hrun] at hkept
    have hrender := renderTemplate_strict
      (hardened_strict hkeys hkeys' hcache haside hprompt) hdata hload.2 hload.1 (hkept ▸ hhelpers)
    rw [result_render_of_ok hrun, result_render_of_ok hrun']
    refine hrender.imp_right ?_
    rintro ⟨path, hmeets⟩
    exact ⟨path, t', r', hrun', hmeets⟩
  · exact hload.elim
  · exact hload.elim
  · left
    unfold render
    simp only [result, bind, EStateM.bind, hrun, hrun', hload.2]

/-- **Strict variables only turn results into failures for paths that do not resolve.** From new
stores over the same sources a render with strict variables gives exactly what it gives without,
text or error, or it comes to a variable or a section whose path does not resolve there and fails
for this path. The digest has to tell the inputs that occur apart, and callables that are within
reach must not ask for texts; where there are none this asks for nothing. -/
theorem render_strict (hcache : e.cache.Remembers holds) (haside : e.CacheAside e.cache)
    (hprompt : e.host.Prompt P) {inputs : List (List UInt8)}
    (hdistinct : ∀ x ∈ inputs, ∀ y ∈ inputs, e.digest x = e.digest y → x = y)
    {helpers : Table Value} {w w' : σ} (hshelves : e.SameShelves w w')
    (hheld : ∀ key a, holds w key a → e.Honest inputs key a)
    (hheld' : ∀ key a, holds w' key a → e.strict.Honest inputs key a) {data : Value}
    (hdata : data.CallablesIn P) (hhelpers : ∀ entry ∈ helpers, entry.2.CallablesIn P)
    (name : String)
    (hdepends : e.DependsOn inputs fun e => result (e.render name data) (freshStore helpers w))
    (hdepends' : e.strict.DependsOn inputs fun e =>
      (result (e.render name data) (freshStore helpers w'),
        e.Meets name data (freshStore helpers w'))) :
    result (e.strict.render name data) (freshStore helpers w') =
        result (e.render name data) (freshStore helpers w) ∨
      ∃ path, result (e.strict.render name data) (freshStore helpers w') =
          .error (.unknownVariable path) ∧
        e.strict.Meets name data (freshStore helpers w') path := by
  -- A digest that tells all inputs apart makes no difference to the two runs.
  obtain ⟨digest, hinjective, hsame⟩ := exists_injective_digest hdistinct
  let ideal : Engine σ := { e with digest }
  have hkeys : Function.Injective ideal.cacheKey := cacheKey_injective hinjective
  have hkeys' : Function.Injective ideal.strict.cacheKey := cacheKey_injective hinjective
  have hstart : ideal.Paired holds (freshStore helpers w) (freshStore helpers w') := by
    refine ⟨fun _ => .none, rfl, hshelves.congr rfl rfl, fun {key a} ha => ?_, fun {key a} ha => ?_⟩
    · obtain ⟨hinput, hkey, hparse⟩ := hheld key a ha
      exact ⟨hkey.trans (hsame _ hinput).symm, hparse⟩
    · obtain ⟨hinput, hkey, hparse⟩ := hheld' key a ha
      exact ⟨hkey.trans (hsame _ hinput).symm, hparse⟩
  have hrender := render_strict_of_keys (e := ideal) hkeys hkeys' hcache (haside.congr rfl rfl)
    hprompt hdata hstart hhelpers name
  have hlenient : result (ideal.render name data) (freshStore helpers w) = _ :=
    hdepends digest hsame
  obtain ⟨hstrict, hmeets⟩ := Prod.mk.inj (hdepends' digest hsame)
  have hstrict' : result (ideal.strict.render name data) (freshStore helpers w') = _ := hstrict
  have hmeets' : ideal.strict.Meets name data (freshStore helpers w') = _ := hmeets
  rw [hlenient, hstrict', hmeets'] at hrender
  refine hrender.imp_right ?_
  rintro ⟨path, hmeets⟩
  exact ⟨path, render_of_meets hmeets, hmeets⟩

/-- The template of a lone variable, its lookup strict or not. -/
def inlineVariable (key : String) (strict : Bool) : Template :=
  ⟨"inline", key, loneSource, .html .compat, true, [.interpolation ⟨"x", []⟩ true strict true]⟩

theorem loadTemplate_inlineVariable (digest : List UInt8 → String) (strictVariables : Bool) :
    let E : Engine Unit := { plainEngine [] with
      digest, config := { (plainEngine []).config with strictVariables } }
    let t := inlineVariable (E.cacheKey loneSource) strictVariables
    E.loadTemplate loneSource (freshStore [] ()) =
      .ok t ⟨Registry.empty.insert (E.cacheKey loneSource) t, [], ()⟩ := by
  intro E t
  have hcompile : Template.compile (E.compileOptions (E.cacheKey loneSource)) "inline" loneSource
      [.interpolation "x" true 1] = .ok t := by
    cases strictVariables <;> rfl
  have hload : E.loadTemplate loneSource (freshStore [] ()) =
      E.compileWith Cache.none "inline" loneSource (freshStore [] ()) :=
    loadTemplate_of_source rfl
  have hparse : E.parse loneSource = .ok [.interpolation "x" true 1] := parse_loneSource
  rw [hload, compileWith_of_miss rfl (fun _ h => by cases h)]
  simp only [bind, EStateM.bind, parseArtifact_of_ok hparse]
  exact finish_of_ok hcompile

/-- A variable that nothing in the scopes is for. -/
theorem render_strict_unresolved :
    let e := plainEngine []
    let data := Value.map [("y", .int 1)]
    result (e.render loneSource data) (freshStore [] ()) = .ok "" ∧
      ∃ path, result (e.strict.render loneSource data) (freshStore [] ()) =
          .error (.unknownVariable path) ∧
        e.strict.Meets loneSource data (freshStore [] ()) path := by
  intro e data
  have hlenient : ∀ digest, result (({ e with digest } : Engine Unit).render loneSource data)
      (freshStore [] ()) = .ok "" :=
    fun digest => (result_render_of_ok (loadTemplate_inlineVariable digest false)).trans rfl
  have hstrict : ∀ digest, result (({ e.strict with digest } : Engine Unit).render loneSource data)
      (freshStore [] ()) = .error (.unknownVariable "x") :=
    fun digest => (result_render_of_ok (loadTemplate_inlineVariable digest true)).trans rfl
  have hmeets : ∀ digest, ({ e.strict with digest } : Engine Unit).Meets loneSource data
      (freshStore [] ()) = fun path => path = "x" := by
    intro digest
    have hload := loadTemplate_inlineVariable digest true
    funext path
    refine propext ⟨?_, ?_⟩
    · rintro ⟨t, s, hload', q, hreaches, hq⟩
      obtain ⟨rfl, rfl⟩ := EStateM.Result.ok.inj (hload.symm.trans hload')
      rcases hreaches.cases_head with rfl | ⟨p, hadvance, -⟩
      · exact (Option.some.inj hq.1).symm
      · cases hadvance with
        | next h => cases h
        | called hresolve => cases hresolve
    · rintro rfl
      exact ⟨_, _, hload, _, .refl, rfl, rfl⟩
  have hprompt : e.host.Prompt fun _ => False := ⟨fun h => h.elim, fun h => h.elim⟩
  have hdata : data.CallablesIn fun _ => False :=
    .map fun entry hentry => by rw [List.mem_singleton.mp hentry]; exact .int 1
  have hremembers : e.cache.Remembers fun _ _ _ => False := (Cache.lawful_none _).remembers
  have hdistinct : ∀ x ∈ ([] : List (List UInt8)), ∀ y ∈ ([] : List (List UInt8)),
      e.digest x = e.digest y → x = y :=
    fun _ hx => nomatch hx
  have hhelpers : ∀ entry ∈ ([] : Table Value), entry.2.CallablesIn fun _ => False :=
    fun _ h => nomatch h
  have hrender : result (e.strict.render loneSource data) (freshStore [] ()) =
        result (e.render loneSource data) (freshStore [] ()) ∨ _ :=
    render_strict hremembers (cacheAside_none e) hprompt hdistinct (.refl ()) (fun _ _ h => h.elim)
      (fun _ _ h => h.elim) hdata hhelpers loneSource
      (fun digest _ => (hlenient digest).trans (hlenient e.digest).symm)
      (fun digest _ => congrArg₂ Prod.mk ((hstrict digest).trans (hstrict e.strict.digest).symm)
        ((hmeets digest).trans (hmeets e.strict.digest).symm))
  refine ⟨hlenient e.digest, hrender.resolve_left fun hsame => ?_⟩
  cases (hstrict e.strict.digest).symm.trans (hsame.trans (hlenient e.digest))

end Mustache.Engine
