import Mathlib
import Mustache.Proofs.Engine.Keys
import Mustache.Proofs.Engine.Twin
import Mustache.Proofs.Render.Sources

/-!
A render does not depend on what its engine did before. After any history a name renders as it does
with an engine that is new, up to names in errors, as long as the digest tells apart the inputs that
occur. Main statement: `render_after_history`.
-/

namespace Mustache.Engine

variable {σ α : Type} {e : Engine σ} {holds : σ → String → Artifact → Prop}

/-! ### What a history leaves sound -/

/-- The operation does not forge artifacts: a change of the world makes the cache hold no more than
it did. -/
def Operation.Harmless (holds : σ → String → Artifact → Prop) : Operation σ → Prop
  | .edit f => ∀ w key a, holds (f w) key a → holds w key a
  | _ => True

section

variable (hcache : e.cache.Lawful holds) (hpure : e.host.Pure)

include hcache hpure

theorem sound_leaves {op : Operation σ} (hop : op.Harmless holds) {s : Store σ}
    (hs : e.Sound holds s) : e.Sound holds (op.leaves e s) := by
  have hparallel := parallel_sound hcache hpure
  have hself : s = s ∧ e.Sound holds s := ⟨rfl, hs⟩
  cases op with
  | render name data => exact ((hparallel.render name data).left hself).2
  | renderTemplate t data => exact ((hparallel.renderTemplate rfl data).left hself).2
  | compile source =>
    exact sound_of_compiling hcache.remembers hs
      (compiling_compileWith e e.cache "source" source s)
  | loadTemplate name => exact ((hparallel.loadTemplate name).left hself).2
  | loadPartial name => exact ((hparallel.loadPartial name).left hself).2
  | loadLambda text delimiters => exact ((hparallel.loadLambda text delimiters).left hself).2
  | addHelper name v => exact ⟨hs.registered, hs.held⟩
  | removeHelper name =>
    obtain ⟨helpers, heq⟩ := left_removeHelper name s
    rw [Operation.leaves, heq]
    exact ⟨hs.registered, hs.held⟩
  | clearCache =>
    rw [Operation.leaves, left_clearCache]
    refine ⟨fun hfind => ?_, fun hheld => hs.held (hcache.clear hheld)⟩
    cases hfind
  | edit f => exact ⟨hs.registered, fun hheld => hs.held (hop _ _ _ hheld)⟩

/-- Registered templates and cached artifacts stay what their sources come to through every
history. -/
theorem sound_perform {history : List (Operation σ)} (hops : ∀ op ∈ history, op.Harmless holds)
    {s : Store σ} (hs : e.Sound holds s) : e.Sound holds (e.perform history s) := by
  induction history generalizing s with
  | nil => exact hs
  | cons op history ih =>
    rw [perform_cons]
    exact ih (fun op hop => hops op (List.mem_cons_of_mem _ hop))
      (sound_leaves hcache hpure (hops op List.mem_cons_self) hs)

end

/-! ### What a digest has to tell apart -/

/-- What comes of `run` takes the digest at `inputs` only. -/
def DependsOn (e : Engine σ) (inputs : List (List UInt8)) (run : Engine σ → α) : Prop :=
  ∀ digest : List UInt8 → String, (∀ x ∈ inputs, digest x = e.digest x) →
    run { e with digest } = run e

theorem dependsOn_compileWith (cache : Cache σ) (name source : String) :
    e.DependsOn [keyBytes e.fingerprint source] (·.compileWith cache name source) := by
  intro digest h
  have hkey : ({ e with digest } : Engine σ).cacheKey source = e.cacheKey source :=
    h _ List.mem_cons_self
  simp only [compileWith, hkey]
  rfl

/-- The artifact holds the tree of its source, and is kept under the key of its source. -/
structure Honest (e : Engine σ) (inputs : List (List UInt8)) (key : String) (a : Artifact) :
    Prop where
  input : keyBytes e.fingerprint a.source ∈ inputs
  key : key = e.cacheKey a.source
  parse : e.parse a.source = .ok a.tree

/-- **A render does not depend on what the engine did before.** It gives the same text as with a
new engine in a world with the same sources, or fails in the same way. And a source that does not
compile leaves the store as it was. -/
theorem render_after_history (hcache : e.cache.Lawful holds) (haside : e.CacheAside e.cache)
    (hpure : e.host.Pure) {history : List (Operation σ)}
    (hops : ∀ op ∈ history, op.Harmless holds) {inputs : List (List UInt8)}
    (hdistinct : ∀ x ∈ inputs, ∀ y ∈ inputs, e.digest x = e.digest y → x = y)
    {helpers : Table Value} {w w' : σ} (hheld : ∀ key a, holds w key a → e.Honest inputs key a)
    (hheld' : ∀ key a, holds w' key a → e.Honest inputs key a) {s : Store σ}
    (hs : e.perform history (freshStore helpers w) = s) (hshelves : e.SameShelves s.world w')
    (name : String) (data : Value)
    (hhistory : e.DependsOn inputs (·.perform history (freshStore helpers w)))
    (hrender : e.DependsOn inputs fun e => result (e.render name data) s)
    (hfresh : e.DependsOn inputs fun e =>
      result (e.render name data) (freshStore s.helpers w')) :
    Agree Error.SameKind Eq (result (e.render name data) s)
        (result (e.render name data) (freshStore s.helpers w')) ∧
      ∀ source err, result (e.compile source) s = .error err → left (e.compile source) s = s := by
  constructor
  · -- A digest that tells all inputs apart makes no difference to the three runs.
    obtain ⟨digest, hinjective, hsame⟩ := exists_injective_digest hdistinct
    let ideal : Engine σ := { e with digest }
    have hkeys : Function.Injective ideal.cacheKey := cacheKey_injective hinjective
    have hhonest : ∀ {w key a}, (∀ key a, holds w key a → e.Honest inputs key a) →
        holds w key a → key = ideal.cacheKey a.source ∧ ideal.parse a.source = .ok a.tree := by
      intro w key a hheld ha
      obtain ⟨hinput, hkey, hparse⟩ := hheld key a ha
      exact ⟨hkey.trans (hsame _ hinput).symm, hparse⟩
    have hsound : ideal.Sound holds s := by
      have hstore : ideal.perform history (freshStore helpers w) = s :=
        (hhistory digest hsame).trans hs
      rw [← hstore]
      exact sound_perform (e := ideal) hcache hpure hops
        (sound_freshStore (hhonest hheld) helpers)
    have hasideal : ideal.CacheAside ideal.cache :=
      ⟨fun key w => ⟨(haside.get key w).loader, (haside.get key w).partials⟩,
        fun key a w => ⟨(haside.set key a w).loader, (haside.set key a w).partials⟩⟩
    have hsiblings : ideal.Siblings holds s (freshStore s.helpers w') :=
      ⟨hsound, sound_freshStore (hhonest hheld') s.helpers,
        ⟨hshelves.loader, hshelves.partials⟩, rfl⟩
    have hafter : result (ideal.render name data) s = result (e.render name data) s :=
      hrender digest hsame
    have hnew : result (ideal.render name data) (freshStore s.helpers w') =
        result (e.render name data) (freshStore s.helpers w') := hfresh digest hsame
    rw [← hafter, ← hnew]
    exact ((parallel_twin hkeys hcache hasideal hpure).render name data).result hsiblings
  · intro source err herr
    have hsound : e.Sound holds s := by
      rw [← hs]
      exact sound_perform hcache hpure hops
        (sound_freshStore (fun ha => ⟨(hheld _ _ ha).key, (hheld _ _ ha).parse⟩) helpers)
    have hcompiling := compiling_compileWith e e.cache "source" source s
    change result (e.compileWith e.cache "source" source) s = _ at herr
    rw [herr] at hcompiling
    obtain ⟨-, hmiss, hleft⟩ := malformed_of_compiling hcache.remembers hsound hcompiling
    rw [hcache.miss hmiss] at hleft
    exact hleft

/-- The source of a variable. -/
def loneSource : String := "\x7b\x7bx\x7d\x7d"

/-- The template of that source. -/
def loneVariable (name : String) : Template :=
  ⟨name, (plainEngine []).cacheKey loneSource, loneSource, .html .compat, true,
    [.interpolation ⟨"x", []⟩ true false true]⟩

theorem parse_loneSource :
    (plainEngine []).parse loneSource = .ok [.interpolation "x" true 1] := by
  cbv

theorem compileWith_loneVariable {s : Store Unit} (name : String)
    (hnew : s.registry.find? ((plainEngine []).cacheKey loneSource) = none) :
    (plainEngine []).compileWith Cache.none name loneSource s =
      .ok (loneVariable name)
        ⟨s.registry.insert ((plainEngine []).cacheKey loneSource) (loneVariable name),
          s.helpers, ()⟩ := by
  have hcompile : Template.compile
      ((plainEngine []).compileOptions ((plainEngine []).cacheKey loneSource)) name
      loneSource [.interpolation "x" true 1] = .ok (loneVariable name) := rfl
  rw [compileWith_of_miss hnew (fun _ h => by cases h)]
  simp only [bind, EStateM.bind, parseArtifact_of_ok parse_loneSource]
  exact finish_of_ok hcompile

theorem result_render_loneVariable (digest : List UInt8 → String) {s s' : Store Unit}
    {name : String}
    (h : ({ plainEngine [] with digest } : Engine Unit).compileWith Cache.none "inline" loneSource
      s = .ok (loneVariable name) s')
    (hhelpers : s'.helpers = [("x", .string "a")]) :
    result (({ plainEngine [] with digest } : Engine Unit).render loneSource .null) s =
      .ok "a" := by
  obtain ⟨registry, helpers, w⟩ := s'
  subst hhelpers
  have hload : ({ plainEngine [] with digest } : Engine Unit).loadTemplate loneSource s =
      .ok (loneVariable name) ⟨registry, _, w⟩ :=
    (loadTemplate_of_source rfl).trans h
  unfold render
  simp only [result, bind, EStateM.bind, hload]
  rfl

/-- A source that was compiled under another name, and a helper that came later. -/
theorem render_after_history_compile :
    let e := plainEngine []
    let s := e.perform [.compile loneSource, .removeHelper "y", .addHelper "x" (.string "a")]
      (freshStore [] ())
    Agree Error.SameKind Eq (result (e.render loneSource .null) s)
        (result (e.render loneSource .null) (freshStore s.helpers ())) ∧
      ∀ source err, result (e.compile source) s = .error err → left (e.compile source) s = s := by
  intro e s
  have hs : s = ⟨Registry.empty.insert (e.cacheKey loneSource) (loneVariable "source"),
      [("x", .string "a")], ()⟩ := by
    have hcompile := compileWith_loneVariable (s := freshStore [] ()) "source" rfl
    change left (addHelper "x" (.string "a")) (left (removeHelper "y")
      (left (e.compileWith Cache.none "source" loneSource) (freshStore [] ()))) = _
    rw [left_of_ok hcompile]
    rfl
  have hpure : e.host.Pure :=
    ⟨fun _ => ⟨.ok .null, fun _ => rfl⟩,
      fun _ _ _ => ⟨.done (.ok .null), .done rfl, fun _ => rfl⟩⟩
  have hdistinct : ∀ x ∈ [keyBytes e.fingerprint loneSource],
      ∀ y ∈ [keyBytes e.fingerprint loneSource], e.digest x = e.digest y → x = y := by
    simp
  have hfind : s.registry.find? (e.cacheKey loneSource) = some (loneVariable "source") := by
    rw [hs, find?_insert_registry, if_pos rfl]
  have hhelpers : s.helpers = [("x", .string "a")] := by rw [hs]
  have hrender : ∀ {t s'} name, e.compileWith Cache.none "inline" loneSource t =
      .ok (loneVariable name) s' → s'.helpers = [("x", .string "a")] →
      e.DependsOn [keyBytes e.fingerprint loneSource] fun e =>
        result (e.render loneSource .null) t := by
    intro t s' name h hhelpers digest hdigest
    have hcompile := dependsOn_compileWith Cache.none "inline" loneSource digest hdigest
    exact (result_render_loneVariable digest ((congrFun hcompile t).trans h) hhelpers).trans
      (result_render_loneVariable e.digest h hhelpers).symm
  refine render_after_history (Cache.lawful_none fun _ _ _ => False) (cacheAside_none e) hpure ?_
    hdistinct (fun _ _ h => h.elim) (fun _ _ h => h.elim) rfl (.refl ()) _ _ ?_
    (hrender "source" (compileWith_of_known hfind) hhelpers)
    (hrender "inline" (compileWith_loneVariable "inline" rfl) hhelpers)
  · simp [Operation.Harmless]
  · intro digest hdigest
    exact congrArg (fun op => left (addHelper "x" (.string "a")) (left (removeHelper "y")
      (left op (freshStore [] ()))))
      (dependsOn_compileWith Cache.none "source" loneSource digest hdigest)

end Mustache.Engine
