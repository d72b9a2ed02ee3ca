import Mustache.Focus
import Mustache.Proofs.Engine.Replay

/-!
Engines with a cache beside the world. Whatever such a cache forgets and however it fails, as long
as what it gives was stored by engines of the same fingerprint, each operation gives what it gives
with no cache at all. Main statement: `answer_beside`.
-/

namespace Mustache

open Engine (result left)

variable {σ κ α : Type}

/-! ### Beside the world -/

/-- The course of a call in a world that something stands beside. -/
def Act.beside : Act σ → κ → Act (σ × κ)
  | .done result w, k => .done result (w, k)
  | .render text w next, k => .render text (w, k) fun out wk => (next out wk.1).beside wk.2

def Host.beside (host : Host σ) : Host (σ × κ) where
  nullary id wk := ((host.nullary id wk.1).1, (host.nullary id wk.1).2, wk.2)
  unary id v d wk := (host.unary id v d wk.1).beside wk.2

/-- What stands beside the world. -/
def Focus.aside : Focus (σ × κ) κ where
  get wk := wk.2
  set k wk := (wk.1, k)

def Cache.beside (cache : Cache κ) : Cache (σ × κ) where
  get key := Focus.aside.run (cache.get key)
  set key a := Focus.aside.run (cache.set key a)
  remove key := Focus.aside.run (cache.remove key)
  clear := Focus.aside.run cache.clear
  has key wk := cache.has key wk.2

namespace Engine

/-- The engine with a cache beside its world, in place of its own. -/
def beside (e : Engine σ) (cache : Cache κ) : Engine (σ × κ) where
  config := e.config
  escape := e.escape
  delimiters := e.delimiters
  pragmas := e.pragmas
  loader wk := e.loader wk.1
  partials wk := e.partials wk.1
  cache := cache.beside
  host := e.host.beside
  digest := e.digest

/-- The operation in a world that something stands beside. -/
def Operation.beside : Operation σ → Operation (σ × κ)
  | .render name data => .render name data
  | .renderTemplate t data => .renderTemplate t data
  | .compile source => .compile source
  | .loadTemplate name => .loadTemplate name
  | .loadPartial name => .loadPartial name
  | .loadLambda text delimiters => .loadLambda text delimiters
  | .addHelper name v => .addHelper name v
  | .removeHelper name => .removeHelper name
  | .clearCache => .clearCache
  | .edit f => .edit fun wk => (f wk.1, wk.2)

/-- What an operation gives when it does not fail. -/
inductive Answer
  | text (out : String)
  | template (t : Template)
  | partialTemplate (t : Option Template)
  | value (v : Value)
  | nothing

/-- An operation as it is carried out. -/
def Operation.run (e : Engine σ) : Operation σ → EngineM σ Answer
  | .render name data => .text <$> e.render name data
  | .renderTemplate t data => .text <$> e.renderTemplate t data
  | .compile source => .template <$> e.compile source
  | .loadTemplate name => .template <$> e.loadTemplate name
  | .loadPartial name => .partialTemplate <$> e.loadPartial name
  | .loadLambda text delimiters => .template <$> e.loadLambda text delimiters
  | .addHelper name v => (fun _ => .nothing) <$> Engine.addHelper name v
  | .removeHelper name => .value <$> Engine.removeHelper name
  | .clearCache => (fun _ => .nothing) <$> e.clearCache
  | .edit f => (fun _ => .nothing) <$> modify fun s => { s with world := f s.world }

theorem Operation.left_run (e : Engine σ) (op : Operation σ) (s : Store σ) :
    left (op.run e) s = op.leaves e s := by
  cases op <;> exact left_map _ _ s

end Engine

/-! ### What a cache may give -/

theorem Focus.result_aside (op : EStateM Error κ α) (wk : σ × κ) :
    result (Focus.aside.run op) wk = result op wk.2 := by
  unfold Focus.run result Focus.aside
  dsimp only
  cases op wk.2 <;> rfl

theorem Focus.left_aside (op : EStateM Error κ α) (wk : σ × κ) :
    left (Focus.aside.run op) wk = (wk.1, left op wk.2) := by
  unfold Focus.run left Focus.aside
  dsimp only
  cases op wk.2 <;> rfl

namespace Cache

variable (cache : Cache κ) (wk : σ × κ)

theorem left_get_beside (key : String) :
    left (cache.beside.get key) wk = (wk.1, left (cache.get key) wk.2) := Focus.left_aside _ wk

theorem left_set_beside (key : String) (a : Artifact) :
    left (cache.beside.set key a) wk = (wk.1, left (cache.set key a) wk.2) := Focus.left_aside _ wk

theorem left_clear_beside : left cache.beside.clear wk = (wk.1, left cache.clear wk.2) :=
  Focus.left_aside _ wk

end Cache

theorem Cache.Remembers.beside {cache : Cache κ} {holds : κ → String → Artifact → Prop}
    (h : cache.Remembers holds) :
    (cache.beside : Cache (σ × κ)).Remembers fun wk => holds wk.2 where
  held_of_get hget := h.held_of_get ((Focus.result_aside _ _).symm.trans hget)
  get hheld := by
    rw [Cache.left_get_beside] at hheld
    exact h.get hheld
  set hheld := by
    rw [Cache.left_set_beside] at hheld
    exact h.set hheld
  clear hheld := by
    rw [Cache.left_clear_beside] at hheld
    exact h.clear hheld

namespace Engine

/-- All options that have a part in what a source compiles to are the same, an escape known by its
name alone. -/
structure SameFingerprint {τ : Type} (e : Engine σ) (e' : Engine τ) : Prop where
  escape : e'.escape.keyName = e.escape.keyName
  charset : e'.config.charsetKey = e.config.charsetKey
  strictCallables : e'.config.strictCallables = e.config.strictCallables
  strictVariables : e'.config.strictVariables = e.config.strictVariables
  pragmas : e'.pragmas = e.pragmas
  delimiters : e'.delimiters = e.delimiters
  digest : e'.digest = e.digest

/-- The artifact is one that an engine of the same fingerprint stores under the key. -/
def Stored (e : Engine σ) (key : String) (a : Artifact) : Prop :=
  ∃ (τ : Type) (e' : Engine τ), e.SameFingerprint e' ∧ ∃ name source tree,
    e'.parse source = .ok tree ∧ key = e'.cacheKey source ∧ a = ⟨name, key, source, tree⟩

/-- A stored artifact holds the tree of its source, under the key of its source. -/
theorem Stored.parse {e : Engine σ} {key : String} {a : Artifact} (h : e.Stored key a) :
    key = e.cacheKey a.source ∧ e.parse a.source = .ok a.tree := by
  obtain ⟨τ, e', hsame, name, source, tree, hparse, rfl, rfl⟩ := h
  have hfingerprint : e'.fingerprint = e.fingerprint := by
    unfold fingerprint
    rw [hsame.escape, hsame.charset, hsame.strictCallables, hsame.strictVariables, hsame.pragmas,
      hsame.delimiters]
  constructor
  · change e'.digest (keyBytes e'.fingerprint source) = e.digest (keyBytes e.fingerprint source)
    rw [hfingerprint, hsame.digest]
  · rw [← hparse]
    unfold Engine.parse tokenize
    rw [hsame.pragmas, hsame.delimiters]

/-! ### Two engines -/

/-- Two stores that differ in what the cache keeps at most: that is artifacts with the trees of
their sources. -/
structure Shadows (e : Engine σ) (holds : κ → String → Artifact → Prop) (s s' : Store (σ × κ)) :
    Prop where
  registry : s'.registry = s.registry
  helpers : s'.helpers = s.helpers
  world : s'.world.1 = s.world.1
  held : ∀ {key a}, holds s.world.2 key a →
    key = e.cacheKey a.source ∧ e.parse a.source = .ok a.tree

/-- The engine without a cache. -/
abbrev bare (κ : Type) (e : Engine σ) : Engine (σ × κ) := e.beside Cache.none

variable {e : Engine σ} {cache : Cache κ} {holds : κ → String → Artifact → Prop}

section

variable {E : Engine (σ × κ)} {c : Cache (σ × κ)} {name source : String} {s s' : Store (σ × κ)}

theorem tree_of_gets_none {wk wk' : σ × κ} {a : Artifact}
    (h : Gets E Cache.none name source wk a wk') :
    a.source = source ∧ E.parse source = .ok a.tree := by
  cases h with
  | hit h => cases h
  | parsed _ h => exact ⟨rfl, h⟩

theorem first_of_compiling (hget : ∀ key wk, (left (c.get key) wk).1 = wk.1)
    (hset : ∀ key a wk, (left (c.set key a) wk).1 = wk.1) {r : Except Error Template}
    (h : Compiling E c name source s r s') : s'.world.1 = s.world.1 :=
  world_of_compiling (R := fun (w w' : σ × κ) => w'.1 = w.1) (fun _ => rfl)
    (fun h h' => h'.trans h) hget hset h

end

theorem alike_compileWith_beside (hkeys : Function.Injective e.cacheKey) {c : Cache (σ × κ)}
    (hc : c.Remembers fun wk => holds wk.2) (hget : ∀ key wk, (left (c.get key) wk).1 = wk.1)
    (hset : ∀ key a wk, (left (c.set key a) wk).1 = wk.1) (name source : String) :
    Alike (e.Shadows holds) Eq Eq ((e.beside cache).compileWith c name source)
      ((e.bare κ).compileWith Cache.none name source) := by
  have hboth : ∀ s s', e.Shadows holds s s' →
      result ((e.beside cache).compileWith c name source) s =
        result ((e.bare κ).compileWith Cache.none name source) s' ∧
      e.Shadows holds (left ((e.beside cache).compileWith c name source) s)
        (left ((e.bare κ).compileWith Cache.none name source) s') := by
    intro s s' hs
    have hcompiling := compiling_compileWith (e.beside cache) c name source s
    have hcompiling' := compiling_compileWith (e.bare κ) Cache.none name source s'
    have hworld := first_of_compiling hget hset hcompiling
    have hworld' := first_of_compiling (fun _ _ => rfl) (fun _ _ _ => rfl) hcompiling'
    obtain ⟨hresult, hregistry⟩ := comesTo_of_compiling
      (tree_of_gets (e := e.beside cache) hkeys hc hs.held) hcompiling
    obtain ⟨hresult', hregistry'⟩ := comesTo_of_compiling tree_of_gets_none hcompiling'
    refine ⟨?_, ?_, ?_, hworld'.trans (hs.world.trans hworld.symm), fun hheld => ?_⟩
    · rw [hresult, hresult', hs.registry]
      rfl
    · rw [hregistry, hregistry', hs.registry]
      rfl
    · rw [helpers_of_compiling hcompiling, helpers_of_compiling hcompiling', hs.helpers]
    · rcases held_of_compiling hc hcompiling hheld with hheld | ⟨rfl, hsource, hparse⟩
      · exact hs.held hheld
      · rw [hsource]
        exact ⟨rfl, hparse⟩
  exact alike_of_result_left (fun s s' hs => agree_eq_iff.mpr (hboth s s' hs).1)
    fun s s' hs => (hboth s s' hs).2

/-- Related stores have the same world, what stands beside it aside, and stay related when both get
another one. -/
structure SharesWorld (S : Store (σ × κ) → Store (σ × κ) → Prop) : Prop where
  world : ∀ {s s'}, S s s' → s'.world.1 = s.world.1
  setWorld : ∀ {s s'}, S s s' → ∀ w,
    S { s with world := (w, s.world.2) } { s' with world := (w, s'.world.2) }

section

variable {S : Store (σ × κ) → Store (σ × κ) → Prop} (hS : SharesWorld S) {s s' : Store (σ × κ)}

include hS

/-- A call that neither sees nor changes the cache goes on alike from both stores. -/
theorem alike_act_beside (act : Act σ) (hs : S s s') :
    Act.Alike S Eq s s' (act.beside s.world.2) (act.beside s'.world.2) := by
  induction act generalizing s s' with
  | done result w => exact .done (agree_eq_iff.mpr rfl) (hS.setWorld hs w)
  | render text w next ih =>
    refine .render (hS.setWorld hs w) fun out out' t t' hout ht => ?_
    obtain rfl := agree_eq_iff.mp hout
    rw [hS.world ht]
    exact ih out t.world.1 ht

theorem alike_nullary_beside (hs : S s s') (id : Nat) :
    Agree Eq Eq ((e.beside cache).host.nullary id s.world).1
        ((e.beside cache).host.nullary id s'.world).1 ∧
      S { s with world := ((e.beside cache).host.nullary id s.world).2 }
        { s' with world := ((e.beside cache).host.nullary id s'.world).2 } := by
  change Agree Eq Eq (e.host.nullary id s.world.1).1 (e.host.nullary id s'.world.1).1 ∧
    S { s with world := ((e.host.nullary id s.world.1).2, s.world.2) }
      { s' with world := ((e.host.nullary id s'.world.1).2, s'.world.2) }
  rw [hS.world hs]
  exact ⟨agree_eq_iff.mpr rfl, hS.setWorld hs _⟩

theorem alike_unary_beside (hs : S s s') (id : Nat) (v : Value) (d : Delimiters) :
    Act.Alike S Eq s s' ((e.beside cache).host.unary id v d s.world)
      ((e.beside cache).host.unary id v d s'.world) := by
  change Act.Alike S Eq s s' ((e.host.unary id v d s.world.1).beside s.world.2)
    ((e.host.unary id v d s'.world.1).beside s'.world.2)
  rw [hS.world hs]
  exact alike_act_beside hS _ hs

end

theorem sharesWorld_shadows : SharesWorld (e.Shadows holds) where
  world hs := hs.world
  setWorld hs _ := ⟨hs.registry, hs.helpers, rfl, hs.held⟩

/-- **An engine with a cache goes on as one without.** -/
theorem parallel_beside (hkeys : Function.Injective e.cacheKey) (hcache : cache.Remembers holds) :
    Parallel (e.beside cache) (e.bare κ) (e.Shadows holds) Eq Eq where
  refl _ := rfl
  maxDepth := rfl
  delimiters := rfl
  cacheLambdaTemplates := rfl
  limit _ h := by rw [h]
  twin h := by rw [h]; exact ⟨rfl, rfl, rfl⟩
  helpers hs := hs.helpers
  loader hs name := congrArg (e.loader · name) hs.world
  partials hs name := congrArg (e.partials · name) hs.world
  compiles := by
    refine alike_compileWith_beside hkeys hcache.beside (fun key wk => ?_) fun key a wk => ?_
    · exact (congrArg Prod.fst (cache.left_get_beside wk key)).trans rfl
    · exact (congrArg Prod.fst (cache.left_set_beside wk key a)).trans rfl
  compilesUncached := alike_compileWith_beside hkeys (Cache.lawful_none _).remembers
    (fun _ _ => rfl) fun _ _ _ => rfl
  nullary := alike_nullary_beside sharesWorld_shadows
  unary := alike_unary_beside sharesWorld_shadows

/-! ### Operations -/

theorem alike_removeHelper (name : String) :
    Alike (e.Shadows holds) Eq Eq (removeHelper name) (removeHelper name) := by
  have hhelper : Alike (e.Shadows holds) Eq Eq (helper name) (helper name) := by
    unfold helper
    refine alike_get.bind fun s s' hs => ?_
    rw [hs.helpers]
    split
    · exact alike_pure rfl
    · exact alike_throw rfl
  unfold removeHelper
  refine hhelper.bind fun v v' hv => (alike_modify fun s s' hs => ?_).bind fun _ _ _ =>
    alike_pure hv
  exact ⟨hs.registry, congrArg (·.erase name) hs.helpers, hs.world, hs.held⟩

section

variable (hkeys : Function.Injective e.cacheKey) (hcache : cache.Remembers holds)

include hkeys hcache

/-- Every operation but emptying the cache goes on with a cache as without. -/
theorem alike_run {op : Operation σ} (hop : op ≠ .clearCache) :
    Alike (e.Shadows holds) Eq Eq (op.beside.run (e.beside cache)) (op.beside.run (e.bare κ)) := by
  have hparallel := parallel_beside hkeys hcache
  cases op with
  | render name data => exact (hparallel.render name data).map fun _ _ h => congrArg _ h
  | renderTemplate t data =>
    exact (hparallel.renderTemplate rfl data).map fun _ _ h => congrArg _ h
  | compile source => exact (hparallel.compiles "source" source).map fun _ _ h => congrArg _ h
  | loadTemplate name => exact (hparallel.loadTemplate name).map fun _ _ h => congrArg _ h
  | loadPartial name =>
    refine (hparallel.loadPartial name).map fun t t' h => ?_
    cases h with
    | none => rfl
    | some h => exact congrArg _ (congrArg some h)
  | loadLambda text d => exact (hparallel.loadLambda text d).map fun _ _ h => congrArg _ h
  | addHelper name v =>
    refine (alike_modify fun s s' hs => ?_).map fun _ _ _ => rfl
    exact ⟨hs.registry, congrArg (·.insert name v) hs.helpers, hs.world, hs.held⟩
  | removeHelper name => exact (alike_removeHelper name).map fun _ _ h => congrArg _ h
  | clearCache => exact absurd rfl hop
  | edit f =>
    refine (alike_modify fun s s' hs => ?_).map fun _ _ _ => rfl
    exact ⟨hs.registry, hs.helpers, congrArg f hs.world, hs.held⟩

theorem leaves_of_shadows (op : Operation σ) {s s' : Store (σ × κ)} (hs : e.Shadows holds s s') :
    e.Shadows holds (op.beside.leaves (e.beside cache) s) (op.beside.leaves (e.bare κ) s') := by
  by_cases hop : op = .clearCache
  · subst hop
    change e.Shadows holds (left (e.beside cache).clearCache s) (left (e.bare κ).clearCache s')
    rw [left_clearCache, left_clearCache]
    refine ⟨congrArg Registry.clear hs.registry, hs.helpers, ?_, fun hheld => ?_⟩
    · exact hs.world.trans (congrArg Prod.fst (cache.left_clear_beside s.world)).symm
    · exact hs.held (hcache.beside.clear hheld)
  · rw [← Operation.left_run, ← Operation.left_run]
    exact (alike_run hkeys hcache hop).left hs

theorem perform_of_shadows (history : List (Operation σ)) {s s' : Store (σ × κ)}
    (hs : e.Shadows holds s s') :
    e.Shadows holds ((e.beside cache).perform (history.map .beside) s)
      ((e.bare κ).perform (history.map .beside) s') := by
  induction history generalizing s s' with
  | nil => exact hs
  | cons op history ih => exact ih (leaves_of_shadows hkeys hcache op hs)

end

/-- What an operation gives after others, with the engine new at first. -/
def answerAfter (helpers : Table Value) (w : σ) (history : List (Operation σ)) (op : Operation σ)
    (e : Engine σ) : Except Error Answer :=
  result (op.run e) (e.perform history (freshStore helpers w))

/-- **The cache is transparent.** At every point of every history, each operation but emptying the
cache gives with it what it gives without any cache, as long as the digest tells apart the inputs
that occur. The cache may forget and fail at will; what it holds was stored by engines of the same
fingerprint. -/
theorem answer_beside (hcache : cache.Remembers holds) {inputs : List (List UInt8)}
    (hdistinct : ∀ x ∈ inputs, ∀ y ∈ inputs, e.digest x = e.digest y → x = y) {k : κ}
    (hheld : ∀ key a, holds k key a →
      e.Stored key a ∧ keyBytes e.fingerprint a.source ∈ inputs)
    (helpers : Table Value) (w : σ) (history : List (Operation σ)) {op : Operation σ}
    (hop : op ≠ .clearCache)
    (hcached : (e.beside cache).DependsOn inputs
      (answerAfter helpers (w, k) (history.map .beside) op.beside))
    (hbare : (e.bare κ).DependsOn inputs
      (answerAfter helpers (w, k) (history.map .beside) op.beside)) :
    answerAfter helpers (w, k) (history.map .beside) op.beside (e.beside cache) =
      answerAfter helpers (w, k) (history.map .beside) op.beside (e.bare κ) := by
  -- A digest that tells all inputs apart makes no difference to the two runs.
  obtain ⟨digest, hinjective, hsame⟩ := exists_injective_digest hdistinct
  let ideal : Engine σ := { e with digest }
  have hkeys : Function.Injective ideal.cacheKey := cacheKey_injective hinjective
  have hstart : ideal.Shadows holds (freshStore helpers (w, k)) (freshStore helpers (w, k)) := by
    refine ⟨rfl, rfl, rfl, fun {key a} ha => ?_⟩
    obtain ⟨hstored, hinput⟩ := hheld key a ha
    exact ⟨hstored.parse.1.trans (hsame _ hinput).symm, hstored.parse.2⟩
  have hstores := perform_of_shadows hkeys hcache history hstart
  have hanswers := agree_eq_iff.mp ((alike_run hkeys hcache hop).result hstores)
  exact (hcached digest hsame).symm.trans (hanswers.trans (hbare digest hsame))

theorem dependsOn_compile_beside (e : Engine σ) (cache : Cache κ) (wk : σ × κ)
    (name : String) (v : Value) (source : String) :
    (e.beside cache).DependsOn [keyBytes e.fingerprint source]
      (answerAfter [] wk [.addHelper name v] (.compile source)) := by
  intro digest hdigest
  have hcompile := dependsOn_compileWith (e := e.beside cache) cache.beside "source" source digest
    hdigest
  exact congrArg (fun op => result (Answer.template <$> op)
    (left (addHelper name v) (freshStore [] wk))) hcompile

/-- A cache in memory that has the source already, stored under another name. -/
theorem answer_beside_recent :
    let e := plainEngine []
    let cache : Cache Recent := Cache.recent ⟨id, fun r _ => r⟩
    let key := e.cacheKey loneSource
    let k : Recent := ⟨4, [(key, ⟨"other", key, loneSource, [.interpolation "x" true 1]⟩)]⟩
    let history : List (Operation Unit) := [.addHelper "x" (.string "a")]
    let op : Operation Unit := .compile loneSource
    answerAfter [] ((), k) (history.map .beside) op.beside (e.beside cache) =
      answerAfter [] ((), k) (history.map .beside) op.beside (e.bare Recent) := by
  intro e cache key k history op
  have hremembers := (Cache.lawful_recent (f := ⟨id, fun r _ => r⟩)
    ⟨fun _ _ => rfl, fun _ => rfl, fun _ _ _ => rfl⟩).remembers
  have hdistinct : ∀ x ∈ [keyBytes e.fingerprint loneSource],
      ∀ y ∈ [keyBytes e.fingerprint loneSource], e.digest x = e.digest y → x = y := by
    simp
  have hheld : ∀ key' a, (key', a) ∈ k.entries →
      e.Stored key' a ∧ keyBytes e.fingerprint a.source ∈ [keyBytes e.fingerprint loneSource] := by
    intro key' a ha
    obtain ⟨rfl, rfl⟩ := Prod.mk.inj (List.mem_singleton.mp ha)
    refine ⟨⟨Unit, e, ⟨rfl, rfl, rfl, rfl, rfl, rfl, rfl⟩, ?_⟩, List.mem_singleton.mpr rfl⟩
    exact ⟨"other", loneSource, _, parse_loneSource, rfl, rfl⟩
  have hdepends : ∀ c : Cache Recent, (e.beside c).DependsOn [keyBytes e.fingerprint loneSource]
      (answerAfter [] ((), k) (history.map .beside) op.beside) :=
    fun c => dependsOn_compile_beside e c ((), k) "x" (.string "a") loneSource
  have hop : op ≠ .clearCache := fun h => nomatch h
  exact answer_beside hremembers hdistinct hheld [] () history hop (hdepends cache)
    (hdepends Cache.none)

end Engine

end Mustache
