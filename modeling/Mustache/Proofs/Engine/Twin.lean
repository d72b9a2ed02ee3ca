import Mustache.Proofs.Engine.Sound
import Mustache.Proofs.Render.Parallel

/-!
Renders with one engine from two stores. Where keys tell sources apart, two templates of one source
differ in their names at most, whichever store they come from, so a render goes on alike from both,
up to names in errors. Main statement: `parallel_twin`.
-/

namespace Mustache

variable {σ : Type}

/-! ### Errors without names -/

/-- The error without the names of templates in it and the excerpt of the source. -/
def Error.anonymous : Error → Error
  | malformed defect line _ _ => malformed defect line none none
  | recursionLimit limit _ => recursionLimit limit ""
  | err => err

/-- The same error, the names of templates and the excerpt aside. -/
def Error.SameKind (err err' : Error) : Prop := err.anonymous = err'.anonymous

theorem Error.SameKind.refl (err : Error) : err.SameKind err := rfl

/-! ### Pure callables -/

/-- The course of a call that neither sees nor changes the world. -/
inductive Call
  | done (result : Except Error Value)
  | render (text : String) (next : Except Error String → Call)

namespace Call

/-- The course in a world. -/
def act : Call → σ → Act σ
  | done result, w => .done result w
  | render text next, w => .render text w fun out w => (next out).act w

/-- Two courses that ask for the same texts, and end alike if they are told outcomes that agree. -/
inductive Alike (E : Error → Error → Prop) : Call → Call → Prop
  | done {r r' : Except Error Value} (h : Agree E Eq r r') : Alike E (.done r) (.done r')
  | render {text : String} {next next' : Except Error String → Call}
      (h : ∀ out out', Agree E Eq out out' → Alike E (next out) (next' out')) :
      Alike E (.render text next) (.render text next')

theorem alike_act {E : Error → Error → Prop} {S : Engine.Store σ → Engine.Store σ → Prop}
    {c c' : Call} (h : Alike E c c') {s s' : Engine.Store σ} (hs : S s s') :
    Act.Alike S E s s' (c.act s.world) (c'.act s'.world) := by
  induction h generalizing s s' with
  | done h => exact .done h hs
  | render _ ih => exact .render hs fun out out' t t' hout ht => ih out out' hout ht

end Call

theorem Call.alike_self (c : Call) : Call.Alike Eq c c := by
  induction c with
  | done result => exact .done (agree_eq_iff.mpr rfl)
  | render text next ih => exact .render fun out out' hout => agree_eq_iff.mp hout ▸ ih out

/-- The callables neither see nor change the world, and do not look into the texts of errors. -/
structure Host.Pure (host : Host σ) : Prop where
  nullary : ∀ id, ∃ result, ∀ w, host.nullary id w = (result, w)
  unary : ∀ id v d, ∃ c : Call, Call.Alike Error.SameKind c c ∧ ∀ w, host.unary id v d w = c.act w

namespace Engine

variable {e : Engine σ} {holds : σ → String → Artifact → Prop} {s s' : Store σ}
  {cache : Cache σ} {name source : String}

/-! ### Loaders and caches -/

/-- The loaders give the same in both worlds. -/
structure SameShelves (e : Engine σ) (w w' : σ) : Prop where
  loader : ∀ name, e.loader w' name = e.loader w name
  partials : ∀ name, e.partials w' name = e.partials w name

theorem SameShelves.refl (w : σ) : e.SameShelves w w := ⟨fun _ => rfl, fun _ => rfl⟩

theorem SameShelves.trans {w₁ w₂ w₃ : σ} (h : e.SameShelves w₁ w₂) (h' : e.SameShelves w₂ w₃) :
    e.SameShelves w₁ w₃ :=
  ⟨fun name => (h'.loader name).trans (h.loader name),
    fun name => (h'.partials name).trans (h.partials name)⟩

theorem SameShelves.symm {w w' : σ} (h : e.SameShelves w w') : e.SameShelves w' w :=
  ⟨fun name => (h.loader name).symm, fun name => (h.partials name).symm⟩

theorem SameShelves.congr {e' : Engine σ} {w w' : σ} (h : e.SameShelves w w')
    (hloader : e'.loader = e.loader) (hpartials : e'.partials = e.partials) :
    e'.SameShelves w w' :=
  ⟨hloader ▸ h.loader, hpartials ▸ h.partials⟩

/-- The cache keeps its artifacts where no loader looks. -/
structure CacheAside (e : Engine σ) (cache : Cache σ) : Prop where
  get : ∀ key w, e.SameShelves w (left (cache.get key) w)
  set : ∀ key a w, e.SameShelves w (left (cache.set key a) w)

theorem CacheAside.congr {e' : Engine σ} (h : e.CacheAside cache)
    (hloader : e'.loader = e.loader) (hpartials : e'.partials = e.partials) :
    e'.CacheAside cache :=
  ⟨fun key w => (h.get key w).congr hloader hpartials,
    fun key a w => (h.set key a w).congr hloader hpartials⟩

theorem cacheAside_none (e : Engine σ) : e.CacheAside Cache.none :=
  ⟨fun _ w => .refl w, fun _ _ w => .refl w⟩

theorem sameShelves_of_compiling (haside : e.CacheAside cache) {r : Except Error Template}
    (h : Compiling e cache name source s r s') : e.SameShelves s.world s'.world :=
  world_of_compiling SameShelves.refl SameShelves.trans haside.get haside.set h

/-! ### What a source comes to -/

/-- Two templates that differ in their names at most. -/
def Twin (t t' : Template) : Prop := t' = { t with name := t'.name }

theorem Compiled.twin {t t' : Template} {tree tree' : List Node} (h : e.Compiled t tree)
    (h' : e.Compiled t' tree') (hsource : t'.source = t.source) : Twin t t' := by
  have hparse := h'.parse
  rw [hsource, h.parse] at hparse
  obtain rfl := Except.ok.inj hparse
  have hcompile := h.compile
  have hcompile' := h'.compile
  rw [hsource] at hcompile'
  unfold Template.compile at hcompile hcompile'
  split at hcompile
  · rename_i steps w hsteps
    have hsteps' : (Template.compileNodes t.source.toList
        (e.compileOptions (e.cacheKey t.source)).strictVariables tree).run
          ⟨(e.compileOptions (e.cacheKey t.source)).pragmas, true⟩ =
            .ok (steps, w) := hsteps
    rw [hsteps'] at hcompile'
    unfold Twin
    rw [← Except.ok.inj hcompile, ← Except.ok.inj hcompile']
  · cases hcompile

/-- Both templates are what one source compiles to. -/
structure Akin (e : Engine σ) (t t' : Template) : Prop where
  source : t'.source = t.source
  compiled : ∃ tree, e.Compiled t tree
  compiled' : ∃ tree, e.Compiled t' tree

theorem Akin.twin {t t' : Template} (h : e.Akin t t') : Twin t t' := by
  obtain ⟨tree, ht⟩ := h.compiled
  obtain ⟨tree', ht'⟩ := h.compiled'
  exact ht.twin ht' h.source

/-! ### Two stores -/

/-- Two sound stores with the same helpers, whose worlds hold the same sources. -/
structure Siblings (e : Engine σ) (holds : σ → String → Artifact → Prop) (s s' : Store σ) :
    Prop where
  sound : e.Sound holds s
  sound' : e.Sound holds s'
  shelves : e.SameShelves s.world s'.world
  helpers : s'.helpers = s.helpers

/-- A source comes to the same from two sound stores. -/
theorem agree_of_compiling (hkeys : Function.Injective e.cacheKey) (hcache : cache.Remembers holds)
    (hs : e.Sound holds s) (hs' : e.Sound holds s') {t t' : Store σ} {r r' : Except Error Template}
    (h : Compiling e cache name source s r t) (h' : Compiling e cache name source s' r' t') :
    Agree Eq e.Akin r r' := by
  cases r with
  | ok a =>
    obtain ⟨hkey, hcompiled, -⟩ := compiled_of_compiling hcache hs h
    have hsource : a.source = source := hkeys hkey
    cases r' with
    | ok a' =>
      obtain ⟨hkey', hcompiled', -⟩ := compiled_of_compiling hcache hs' h'
      exact ⟨(hkeys hkey').trans hsource.symm, hcompiled, hcompiled'⟩
    | error err' =>
      obtain ⟨⟨cause, hcause, -⟩, -⟩ := malformed_of_compiling hcache hs' h'
      obtain ⟨tree, ha⟩ := hcompiled
      have hparse := ha.parse
      rw [hsource, hcause] at hparse
      cases hparse
  | error err =>
    obtain ⟨⟨cause, hcause, rfl⟩, -⟩ := malformed_of_compiling hcache hs h
    cases r' with
    | ok a' =>
      obtain ⟨hkey', ⟨tree', ha'⟩, -⟩ := compiled_of_compiling hcache hs' h'
      have hparse := ha'.parse
      rw [hkeys hkey', hcause] at hparse
      cases hparse
    | error err' =>
      obtain ⟨⟨cause', hcause', rfl⟩, -⟩ := malformed_of_compiling hcache hs' h'
      rw [hcause] at hcause'
      obtain rfl := Except.error.inj hcause'
      rfl

theorem alike_compileWith (hkeys : Function.Injective e.cacheKey) (hcache : cache.Lawful holds)
    (haside : e.CacheAside cache) (name source : String) :
    Alike (e.Siblings holds) Error.SameKind Twin (e.compileWith cache name source)
      (e.compileWith cache name source) := by
  refine alike_of_result_left (fun s s' hs => ?_) fun s s' hs => ?_
  · refine (agree_of_compiling hkeys hcache.remembers hs.sound hs.sound'
      (compiling_compileWith e cache name source s)
      (compiling_compileWith e cache name source s')).imp ?_ fun _ _ => Akin.twin
    rintro err _ rfl
    exact .refl err
  · have h := compiling_compileWith e cache name source s
    have h' := compiling_compileWith e cache name source s'
    refine ⟨sound_of_compiling hcache.remembers hs.sound h,
      sound_of_compiling hcache.remembers hs.sound' h', ?_, ?_⟩
    · exact (sameShelves_of_compiling haside h).symm.trans
        (hs.shelves.trans (sameShelves_of_compiling haside h'))
    · rw [helpers_of_compiling h, helpers_of_compiling h', hs.helpers]

theorem alike_compileWith_self (hcache : cache.Lawful holds) (name source : String) :
    Alike (fun s s' => s' = s ∧ e.Sound holds s) Eq Eq (e.compileWith cache name source)
      (e.compileWith cache name source) := by
  refine alike_of_result_left ?_ ?_
  · rintro s s' ⟨rfl, -⟩
    exact agree_eq_iff.mpr rfl
  · rintro s s' ⟨rfl, hs⟩
    exact ⟨rfl, sound_of_compiling hcache.remembers hs
      (compiling_compileWith e cache name source s')⟩

/-- **A render goes on alike from two stores** that hold the same sources and helpers. -/
theorem parallel_twin (hkeys : Function.Injective e.cacheKey) (hcache : e.cache.Lawful holds)
    (haside : e.CacheAside e.cache) (hpure : e.host.Pure) :
    Parallel e e (e.Siblings holds) Error.SameKind Twin where
  refl := Error.SameKind.refl
  maxDepth := rfl
  delimiters := rfl
  cacheLambdaTemplates := rfl
  limit _ _ := rfl
  twin h := by rw [h]; exact ⟨rfl, rfl, rfl⟩
  helpers hs := hs.helpers
  loader hs := hs.shelves.loader
  partials hs := hs.shelves.partials
  compiles := alike_compileWith hkeys hcache haside
  compilesUncached := alike_compileWith hkeys (Cache.lawful_none holds) (cacheAside_none e)
  nullary hs id := by
    obtain ⟨r, hr⟩ := hpure.nullary id
    rw [hr, hr]
    exact ⟨agree_refl Error.SameKind.refl r, hs⟩
  unary hs id v d := by
    obtain ⟨c, hc, hact⟩ := hpure.unary id v d
    rw [hact, hact]
    exact Call.alike_act hc hs

/-- Rendering keeps a store sound: it goes on alike with itself. -/
theorem parallel_sound (hcache : e.cache.Lawful holds) (hpure : e.host.Pure) :
    Parallel e e (fun s s' => s' = s ∧ e.Sound holds s) Eq Eq where
  refl _ := rfl
  maxDepth := rfl
  delimiters := rfl
  cacheLambdaTemplates := rfl
  limit _ h := by rw [h]
  twin h := by rw [h]; exact ⟨rfl, rfl, rfl⟩
  helpers hs := by rw [hs.1]
  loader hs _ := by rw [hs.1]
  partials hs _ := by rw [hs.1]
  compiles := alike_compileWith_self hcache
  compilesUncached := alike_compileWith_self (Cache.lawful_none holds)
  nullary hs id := by
    obtain ⟨r, hr⟩ := hpure.nullary id
    rw [hr, hr]
    exact ⟨agree_refl (fun _ => rfl) r, hs⟩
  unary hs id v d := by
    obtain ⟨c, -, hact⟩ := hpure.unary id v d
    rw [hact, hact]
    exact Call.alike_act c.alike_self hs

end Engine

end Mustache
