import Mustache.Proofs.Engine.Fingerprint

/-!
Engines that share a cache. Each has options, helpers and compiled templates of its own; the world
and the cache are there for all. What the cache is given and what it gives is recorded, and so it
can be told that no engine comes by a tree that was stored under other options or for another
source. Main statement: `keys_keep_apart`.
-/

namespace Mustache

open Engine (result left)

variable {ι σ κ : Type}

/-! ### Records -/

/-- What an engine got from the cache, or offered to it, under a key. -/
inductive CacheUse (ι : Type)
  | read (i : ι) (key : String) (a : Artifact)
  | stored (i : ι) (key : String) (a : Artifact)

/-- The engine that was given something. -/
def CacheUse.reader? : CacheUse ι → Option ι
  | .read i _ _ => some i
  | .stored .. => none

/-- The cache as the engine `i` uses it, with a record of its uses beside it, the last one first. -/
def Cache.recorded (cache : Cache κ) (i : ι) : Cache (κ × List (CacheUse ι)) where
  get key kl :=
    match cache.get key kl.1 with
    | .ok (some a) k => .ok (some a) (k, .read i key a :: kl.2)
    | .ok .none k => .ok .none (k, kl.2)
    | .error err k => .error err (k, kl.2)
  set key a kl :=
    match cache.set key a kl.1 with
    | .ok u k => .ok u (k, .stored i key a :: kl.2)
    | .error err k => .error err (k, .stored i key a :: kl.2)
  remove key kl :=
    match cache.remove key kl.1 with
    | .ok u k => .ok u (k, kl.2)
    | .error err k => .error err (k, kl.2)
  clear kl :=
    match cache.clear kl.1 with
    | .ok u k => .ok u (k, kl.2)
    | .error err k => .error err (k, kl.2)
  has key kl := cache.has key kl.1

namespace Cache

variable (cache : Cache κ) (i : ι) (kl : κ × List (CacheUse ι))

/-- The record changes nothing in what the cache gives. -/
theorem result_get_recorded (key : String) :
    result ((cache.recorded i).get key) kl = result (cache.get key) kl.1 := by
  unfold recorded result
  dsimp only
  rcases cache.get key kl.1 with ⟨_ | _, _⟩ | ⟨_, _⟩ <;> rfl

theorem left_get_recorded_of_hit {key : String} {a : Artifact}
    (h : result (cache.get key) kl.1 = .ok (some a)) :
    left ((cache.recorded i).get key) kl =
      (left (cache.get key) kl.1, .read i key a :: kl.2) := by
  have hget := Engine.ok_of_result h
  unfold recorded left
  dsimp only
  rw [hget]

theorem left_get_recorded_of_miss {key : String}
    (h : ∀ a, result (cache.get key) kl.1 ≠ .ok (some a)) :
    left ((cache.recorded i).get key) kl = (left (cache.get key) kl.1, kl.2) := by
  unfold result at h
  unfold recorded left
  dsimp only
  rcases hget : cache.get key kl.1 with ⟨_ | a, _⟩ | ⟨_, _⟩
  · rfl
  · rw [hget] at h
    exact absurd rfl (h a)
  · rfl

theorem left_set_recorded (key : String) (a : Artifact) :
    left ((cache.recorded i).set key a) kl =
      (left (cache.set key a) kl.1, .stored i key a :: kl.2) := by
  unfold recorded left
  dsimp only
  cases cache.set key a kl.1 <;> rfl

theorem left_clear_recorded :
    left (cache.recorded i).clear kl = (left cache.clear kl.1, kl.2) := by
  unfold recorded left
  dsimp only
  cases cache.clear kl.1 <;> rfl

end Cache

namespace Engine

/-! ### Honest records -/

/-- What the cache holds was stored by one of the engines, each stores trees of its own, under keys
of its own, and gets under such keys what one of them stored. -/
structure Recorded (E : ι → Engine σ) (holds : κ → String → Artifact → Prop)
    (kl : κ × List (CacheUse ι)) : Prop where
  held : ∀ {key a}, holds kl.1 key a → ∃ j, .stored j key a ∈ kl.2
  stored : ∀ {j key a}, .stored j key a ∈ kl.2 →
    key = (E j).cacheKey a.source ∧ (E j).parse a.source = .ok a.tree
  read : ∀ {i key a}, .read i key a ∈ kl.2 →
    (∃ source, key = (E i).cacheKey source) ∧ ∃ j, .stored j key a ∈ kl.2

section

variable {E : ι → Engine σ} {cache : Cache κ} {holds : κ → String → Artifact → Prop}
  (hcache : cache.Remembers holds) {i : ι} {kl : κ × List (CacheUse ι)}

include hcache

theorem Recorded.get (h : Recorded E holds kl) (i : ι) (source : String) :
    Recorded E holds (left ((cache.recorded i).get ((E i).cacheKey source)) kl) := by
  by_cases hhit : ∃ a, result (cache.get ((E i).cacheKey source)) kl.1 = .ok (some a)
  · obtain ⟨a, ha⟩ := hhit
    obtain ⟨j, hj⟩ := h.held (hcache.held_of_get ha)
    rw [Cache.left_get_recorded_of_hit cache i kl ha]
    refine ⟨fun hheld => ?_, fun hmem => ?_, fun hmem => ?_⟩
    · obtain ⟨j', hj'⟩ := h.held (hcache.get hheld)
      exact ⟨j', List.mem_cons_of_mem _ hj'⟩
    · rcases List.mem_cons.mp hmem with heq | hmem
      · cases heq
      · exact h.stored hmem
    · rcases List.mem_cons.mp hmem with heq | hmem
      · cases heq
        exact ⟨⟨source, rfl⟩, j, List.mem_cons_of_mem _ hj⟩
      · obtain ⟨hkey, j', hj'⟩ := h.read hmem
        exact ⟨hkey, j', List.mem_cons_of_mem _ hj'⟩
  · rw [Cache.left_get_recorded_of_miss cache i kl (not_exists.mp hhit)]
    exact ⟨fun hheld => h.held (hcache.get hheld), h.stored, h.read⟩

theorem Recorded.set (h : Recorded E holds kl) (i : ι) (name : String) {source : String}
    {tree : List Node} (hparse : (E i).parse source = .ok tree) :
    Recorded E holds (left ((cache.recorded i).set ((E i).cacheKey source)
      ⟨name, (E i).cacheKey source, source, tree⟩) kl) := by
  rw [Cache.left_set_recorded]
  refine ⟨fun hheld => ?_, fun hmem => ?_, fun hmem => ?_⟩
  · rcases hcache.set (a := ⟨name, (E i).cacheKey source, source, tree⟩) hheld with
      hheld | ⟨rfl, rfl⟩
    · obtain ⟨j, hj⟩ := h.held hheld
      exact ⟨j, List.mem_cons_of_mem _ hj⟩
    · exact ⟨i, List.mem_cons_self⟩
  · rcases List.mem_cons.mp hmem with heq | hmem
    · cases heq
      exact ⟨rfl, hparse⟩
    · exact h.stored hmem
  · rcases List.mem_cons.mp hmem with heq | hmem
    · cases heq
    · obtain ⟨hkey, j, hj⟩ := h.read hmem
      exact ⟨hkey, j, List.mem_cons_of_mem _ hj⟩

theorem Recorded.clear (h : Recorded E holds kl) (i : ι) :
    Recorded E holds (left (cache.recorded i).clear kl) := by
  rw [Cache.left_clear_recorded]
  exact ⟨fun hheld => h.held (hcache.clear hheld), h.stored, h.read⟩

end

/-! ### Engines with a common cache -/

section

variable (E : ι → Engine σ) (cache : Cache κ)

/-- The engine `i` at work in the common world, its cache the common one. -/
abbrev member (i : ι) : Engine (σ × κ × List (CacheUse ι)) := (E i).beside (cache.recorded i)

/-- What changes while the engines work: the compiled templates and helpers of each, and what they
share. -/
structure Group (ι σ κ : Type) where
  own : ι → Registry × Table Value
  world : σ × κ × List (CacheUse ι)

/-- The store of the engine `i`. -/
def Group.store (g : Group ι σ κ) (i : ι) : Store (σ × κ × List (CacheUse ι)) :=
  ⟨(g.own i).1, (g.own i).2, g.world⟩

variable [DecidableEq ι]

/-- The engine `i` carries out an operation. -/
def Group.next (g : Group ι σ κ) (i : ι) (op : Operation σ) : Group ι σ κ :=
  let s := op.beside.leaves (member E cache i) (g.store i)
  ⟨Function.update g.own i (s.registry, s.helpers), s.world⟩

/-- The engines carry out operations, each time one of them. -/
def Group.run (g : Group ι σ κ) (history : List (ι × Operation σ)) : Group ι σ κ :=
  history.foldl (fun g turn => g.next E cache turn.1 turn.2) g

end

section

variable {E : ι → Engine σ} {cache : Cache κ} {holds : κ → String → Artifact → Prop}
  (hcache : cache.Remembers holds)

include hcache

theorem recorded_of_compiling {i : ι} {name source : String}
    {s s' : Store (σ × κ × List (CacheUse ι))} {r : Except Error Template}
    (hs : Recorded E holds s.world.2)
    (h : Compiling (member E cache i) (cache.recorded i).beside name source s r s') :
    Recorded E holds s'.world.2 := by
  have hget : Recorded E holds
      (left ((cache.recorded i).beside.get ((member E cache i).cacheKey source)) s.world).2 := by
    rw [Cache.left_get_beside]
    exact hs.get hcache i source
  have hgets : ∀ {a w}, Gets (member E cache i) (cache.recorded i).beside name source s.world a w →
      Recorded E holds w.2 := by
    intro a w h
    cases h with
    | hit _ => exact hget
    | parsed _ hparse =>
      rw [Cache.left_set_beside]
      exact hget.set hcache i name hparse
  cases h with
  | known _ => exact hs
  | malformed _ _ _ => exact hget
  | refused _ h _ => exact hgets h
  | made _ h _ => exact hgets h

omit hcache in
theorem recorded_of_compiling_none {i : ι} {name source : String}
    {s s' : Store (σ × κ × List (CacheUse ι))} {r : Except Error Template}
    (hs : Recorded E holds s.world.2)
    (h : Compiling (member E cache i) Cache.none name source s r s') :
    Recorded E holds s'.world.2 := by
  have hworld : s'.world = s.world :=
    world_of_compiling (R := fun w w' => w' = w) (fun _ => rfl) (fun h h' => h'.trans h)
      (fun _ _ => rfl) (fun _ _ _ => rfl) h
  rwa [hworld]

omit hcache in
/-- A call sees and changes nothing that is recorded. -/
theorem alike_act_recorded (act : Act σ) {s : Store (σ × κ × List (CacheUse ι))}
    (hs : Recorded E holds s.world.2) :
    Act.Alike (fun s s' => s' = s ∧ Recorded E holds s.world.2) Eq s s (act.beside s.world.2)
      (act.beside s.world.2) := by
  induction act generalizing s with
  | done result w => exact .done (agree_eq_iff.mpr rfl) ⟨rfl, hs⟩
  | render text w next ih =>
    refine .render ⟨rfl, hs⟩ fun out out' t t' hout ht => ?_
    obtain rfl := agree_eq_iff.mp hout
    obtain ⟨rfl, ht⟩ := ht
    exact ih out _ ht

/-- Rendering keeps the record honest: it goes on alike with itself. -/
theorem parallel_recorded (i : ι) :
    Parallel (member E cache i) (member E cache i)
      (fun s s' => s' = s ∧ Recorded E holds s.world.2) Eq Eq where
  refl _ := rfl
  maxDepth := rfl
  delimiters := rfl
  cacheLambdaTemplates := rfl
  limit _ h := by rw [h]
  twin h := by rw [h]; exact ⟨rfl, rfl, rfl⟩
  helpers hs := by rw [hs.1]
  loader hs _ := by rw [hs.1]
  partials hs _ := by rw [hs.1]
  compiles name source := by
    refine alike_of_result_left ?_ ?_
    · rintro s s' ⟨rfl, -⟩
      exact agree_eq_iff.mpr rfl
    · rintro s s' ⟨rfl, hs⟩
      exact ⟨rfl, recorded_of_compiling hcache hs (compiling_compileWith _ _ name source s')⟩
  compilesUncached name source := by
    refine alike_of_result_left ?_ ?_
    · rintro s s' ⟨rfl, -⟩
      exact agree_eq_iff.mpr rfl
    · rintro s s' ⟨rfl, hs⟩
      exact ⟨rfl, recorded_of_compiling_none hs (compiling_compileWith _ _ name source s')⟩
  nullary {s s'} hs id := by
    obtain ⟨rfl, hs⟩ := hs
    exact ⟨agree_eq_iff.mpr rfl, rfl, hs⟩
  unary {s s'} hs id v d := by
    obtain ⟨rfl, hs⟩ := hs
    exact alike_act_recorded _ hs

/-- No operation makes the record dishonest. -/
theorem recorded_leaves (i : ι) (op : Operation σ) {s : Store (σ × κ × List (CacheUse ι))}
    (hs : Recorded E holds s.world.2) :
    Recorded E holds (op.beside.leaves (member E cache i) s).world.2 := by
  have hparallel := parallel_recorded (E := E) hcache i
  cases op with
  | render name data => exact ((hparallel.render name data).left ⟨rfl, hs⟩).2
  | renderTemplate t data => exact ((hparallel.renderTemplate rfl data).left ⟨rfl, hs⟩).2
  | compile source => exact ((hparallel.compiles "source" source).left ⟨rfl, hs⟩).2
  | loadTemplate name => exact ((hparallel.loadTemplate name).left ⟨rfl, hs⟩).2
  | loadPartial name => exact ((hparallel.loadPartial name).left ⟨rfl, hs⟩).2
  | loadLambda text d => exact ((hparallel.loadLambda text d).left ⟨rfl, hs⟩).2
  | addHelper name v => exact hs
  | removeHelper name =>
    obtain ⟨helpers, heq⟩ := left_removeHelper name s
    rw [Operation.beside, Operation.leaves, heq]
    exact hs
  | clearCache =>
    rw [Operation.beside, Operation.leaves, left_clearCache]
    change Recorded E holds (left (cache.recorded i).beside.clear s.world).2
    rw [Cache.left_clear_beside]
    exact hs.clear hcache i
  | edit f => exact hs

theorem recorded_run [DecidableEq ι] (history : List (ι × Operation σ)) {g : Group ι σ κ}
    (hg : Recorded E holds g.world.2) : Recorded E holds (g.run E cache history).world.2 := by
  induction history generalizing g with
  | nil => exact hg
  | cons turn history ih => exact ih (recorded_leaves hcache turn.1 turn.2 hg)

end

/-! ### Options -/

/-- All options that have a part in what a source compiles to are the same. -/
structure SameOptions {τ : Type} (e : Engine σ) (e' : Engine τ) : Prop extends
    SameButClosing e e' where
  closing : e'.delimiters.closing = e.delimiters.closing

theorem SameOptions.parse {τ : Type} {e : Engine σ} {e' : Engine τ} (h : e.SameOptions e')
    (source : String) : e'.parse source = e.parse source := by
  have hdelimiters : e'.delimiters = e.delimiters := by
    rw [Delimiters.mk.injEq]
    exact ⟨h.opening, h.closing⟩
  unfold Engine.parse tokenize
  rw [h.pragmas, hdelimiters]

/-- The closing delimiter of the second pair goes on, behind a NUL, after that of the first. -/
def RunsPast (d d' : Delimiters) : Prop :=
  ∃ rest, d'.closing.toList = d.closing.toList ++ '\x00' :: rest

/-- Where no closing delimiter runs past another, the bytes of a key tell options and sources. -/
theorem sameOptions_of_keyBytes_eq {e e' : Engine σ} (he : e.Configured) (he' : e'.Configured)
    (hpast : ¬ RunsPast e.delimiters e'.delimiters) (hpast' : ¬ RunsPast e'.delimiters e.delimiters)
    {source source' : String}
    (h : keyBytes e.fingerprint source = keyBytes e'.fingerprint source') :
    e.SameOptions e' ∧ source = source' := by
  obtain ⟨hsame, hclosing⟩ := (keyBytes_eq_iff he he').mp h
  rcases List.append_eq_append_iff.mp hclosing with ⟨mid, hmid, hrest⟩ | ⟨mid, hmid, hrest⟩
  · cases mid with
    | nil =>
      rw [List.append_nil] at hmid
      exact ⟨⟨hsame, String.toList_inj.mp hmid⟩, String.toList_inj.mp (List.cons.inj hrest).2⟩
    | cons c mid => exact absurd ⟨mid, by rw [hmid, (List.cons.inj hrest).1]⟩ hpast
  · cases mid with
    | nil =>
      rw [List.append_nil] at hmid
      exact ⟨⟨hsame, String.toList_inj.mp hmid.symm⟩,
        (String.toList_inj.mp (List.cons.inj hrest).2).symm⟩
    | cons c mid => exact absurd ⟨mid, by rw [hmid, (List.cons.inj hrest).1]⟩ hpast'

/-- Engines that start with what each has of its own, a world, and a cache that was not used. -/
def Group.start (own : ι → Registry × Table Value) (w : σ) (k : κ) : Group ι σ κ :=
  ⟨own, w, k, []⟩

/-- **Keys keep engines apart.** No two engines digest the same bytes unless options and source
are the same, if no closing delimiter runs past another. So whatever a cache gives to one of
several engines that share it was stored under the same options and for the source that is being
compiled, and is the tree of that source; or else the digest has a collision. -/
theorem keys_keep_apart [DecidableEq ι] {E : ι → Engine σ} {digest : List UInt8 → String}
    (hE : ∀ i, (E i).Configured) (hdigest : ∀ i, (E i).digest = digest)
    (hpast : ∀ i j, ¬ RunsPast (E i).delimiters (E j).delimiters) :
    (∀ i j source other,
      keyBytes (E i).fingerprint source = keyBytes (E j).fingerprint other →
        (E i).SameOptions (E j) ∧ source = other) ∧
    ∀ (cache : Cache κ) (holds : κ → String → Artifact → Prop), cache.Remembers holds →
      ∀ k, (∀ key a, ¬ holds k key a) → ∀ own w history i key a,
        .read i key a ∈ ((Group.start own w k).run E cache history).world.2.2 →
          ∃ source j, key = (E i).cacheKey source ∧
            .stored j key a ∈ ((Group.start own w k).run E cache history).world.2.2 ∧
            (Collide digest (keyBytes (E i).fingerprint source)
                (keyBytes (E j).fingerprint a.source) ∨
              (E i).SameOptions (E j) ∧ a.source = source ∧ (E i).parse source = .ok a.tree) := by
  have hapart : ∀ i j source other,
      keyBytes (E i).fingerprint source = keyBytes (E j).fingerprint other →
        (E i).SameOptions (E j) ∧ source = other := fun i j _ _ h =>
    sameOptions_of_keyBytes_eq (hE i) (hE j) (hpast i j) (hpast j i) h
  refine ⟨hapart, fun cache holds hcache k hempty own w history i key a hread => ?_⟩
  have hstart : Recorded E holds (Group.start own w k : Group ι σ κ).world.2 :=
    ⟨fun hheld => absurd hheld (hempty _ _), (nomatch ·), (nomatch ·)⟩
  have hrecorded := recorded_run hcache history hstart
  obtain ⟨⟨source, hkey⟩, j, hstored⟩ := hrecorded.read hread
  obtain ⟨hkey', hparse⟩ := hrecorded.stored hstored
  refine ⟨source, j, hkey, hstored, ?_⟩
  by_cases hbytes : keyBytes (E i).fingerprint source = keyBytes (E j).fingerprint a.source
  · obtain ⟨hsame, hsource⟩ := hapart i j _ _ hbytes
    rw [← hsource, hsame.parse] at hparse
    exact Or.inr ⟨hsame, hsource.symm, hparse⟩
  · refine Or.inl ⟨hbytes, ?_⟩
    have hdigests := hkey.symm.trans hkey'
    unfold cacheKey at hdigests
    rwa [hdigest, hdigest] at hdigests

/-- Two engines of default options and one that is strict about variables. -/
def threeEngines (i : Fin 3) : Engine Unit :=
  { plainEngine [] with
    config := { strictVariables := i = 2 }
    digest := fun bytes => String.ofList (bytes.map Char.ofUInt8) }

theorem configured_threeEngines (i : Fin 3) : (threeEngines i).Configured :=
  configured_of_parse? (by decide +revert +kernel) (by decide +revert) (by decide +revert +kernel)
    rfl rfl

/-- The second engine gets from the cache what the first stored; the third does not. -/
theorem keys_keep_apart_read :
    let cache : Cache Recent := Cache.recent ⟨id, fun r _ => r⟩
    let turn : Fin 3 → Fin 3 × Operation Unit := fun i => (i, .compile loneSource)
    let g : Group (Fin 3) Unit Recent := Group.start (fun _ => (Registry.empty, [])) () ⟨4, []⟩
    let log := (g.run threeEngines cache [turn 0, turn 2, turn 1]).world.2.2
    (∃ key a, .read 1 key a ∈ log) ∧
    (∀ source other, keyBytes (threeEngines 1).fingerprint source ≠
      keyBytes (threeEngines 2).fingerprint other) ∧
    ∀ i key a, .read i key a ∈ log → ∃ source j, key = (threeEngines i).cacheKey source ∧
      .stored j key a ∈ log ∧
      (Collide (fun bytes => String.ofList (bytes.map Char.ofUInt8))
          (keyBytes (threeEngines i).fingerprint source)
          (keyBytes (threeEngines j).fingerprint a.source) ∨
        (threeEngines i).SameOptions (threeEngines j) ∧ a.source = source ∧
          (threeEngines i).parse source = .ok a.tree) := by
  intro cache turn g log
  have hremembers := (Cache.lawful_recent (f := ⟨id, fun r _ => r⟩)
    ⟨fun _ _ => rfl, fun _ => rfl, fun _ _ _ => rfl⟩).remembers
  have hpast : ∀ i j : Fin 3, ¬ RunsPast (threeEngines i).delimiters (threeEngines j).delimiters := by
    rintro i j ⟨rest, hrest⟩
    have hlength := congrArg List.length hrest
    simp [threeEngines, plainEngine, Delimiters.standard] at hlength
  obtain ⟨hapart, hreads⟩ := keys_keep_apart configured_threeEngines (fun _ => rfl) hpast
  refine ⟨?_, fun source other h => ?_, fun i key a hread => ?_⟩
  · have hany : log.any (fun use => use.reader? == some 1) = true := by decide +kernel
    obtain ⟨use, huse, hsecond⟩ := List.any_eq_true.mp hany
    cases use with
    | read i key a => exact ⟨key, a, Option.some.inj (beq_iff_eq.mp hsecond) ▸ huse⟩
    | stored i key a => cases hsecond
  · exact absurd (hapart 1 2 _ _ h).1.strictVariables (by decide)
  · exact hreads cache _ hremembers ⟨4, []⟩ (fun _ _ => List.not_mem_nil) _ () _ i key a hread

/-- A closing delimiter with a NUL in it runs past the standard one: what is left of it counts as
the beginning of the source. -/
theorem standard_key_of_longer_closing :
    let e := plainEngine []
    let e' : Engine Unit :=
      { plainEngine [] with
        config := { delimiters := "\x7b\x7b \x7d\x7d\x00a" }
        delimiters := ⟨"\x7b\x7b", "\x7d\x7d\x00a"⟩ }
    e.Configured ∧ e'.Configured ∧ e.delimiters ≠ e'.delimiters ∧
      keyBytes e.fingerprint "a\x00x" = keyBytes e'.fingerprint "x" := by
  intro e e'
  have he : e.Configured :=
    configured_of_parse? (by decide +kernel) (by decide) (by decide +kernel) rfl rfl
  have he' : e'.Configured :=
    configured_of_parse? (by decide +kernel) (by decide) (by decide +kernel) rfl rfl
  refine ⟨he, he', by decide, ?_⟩
  exact (keyBytes_eq_iff he he').mpr ⟨⟨rfl, rfl, rfl, rfl, rfl, rfl⟩, by decide⟩

end Engine

end Mustache
