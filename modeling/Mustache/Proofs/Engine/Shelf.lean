import Mustache.Proofs.Engine.Twin

/-!
Sources that a render loads. Where no two of them have one key, and no other source that the engine
knows has a key of theirs, each of them comes to the template that its own tree compiles to, whatever
was loaded before. Main statement: `Stocked.compileWith`.
-/

namespace Mustache.Engine

variable {σ : Type}

/-- No two sources have one key. -/
def TellsApart (e : Engine σ) (sources : List String) : Prop :=
  ∀ x ∈ sources, ∀ y ∈ sources, e.cacheKey x = e.cacheKey y → x = y

/-- The store is sound, its loaders give what they give in the world `w`, and under the keys of the
sources it knows no others. -/
structure Stocked (e : Engine σ) (holds : σ → String → Artifact → Prop) (sources : List String)
    (w : σ) (s : Store σ) : Prop where
  sound : e.Sound holds s
  shelves : e.SameShelves w s.world
  alone : ∀ source ∈ sources, ∀ other, Knows holds s (e.cacheKey source) other → other = source

variable {e : Engine σ} {holds : σ → String → Artifact → Prop} {sources : List String} {w : σ}
  {s s' : Store σ} {name source : String} {tree : List Node}

theorem stocked_freshStore (helpers : Table Value) (hempty : ∀ key a, ¬ holds w key a) :
    e.Stocked holds sources w (freshStore helpers w) where
  sound := sound_freshStore (fun h => absurd h (hempty _ _)) helpers
  shelves := .refl w
  alone := by
    rintro source - other (⟨t, hfind, -⟩ | ⟨a, ha, -⟩)
    · cases hfind
    · exact absurd ha (hempty _ _)

section

variable (hcache : e.cache.Lawful holds) (haside : e.CacheAside e.cache)
  (hkeys : e.TellsApart sources) (h : e.Stocked holds sources w s) (hsource : source ∈ sources)

include hcache haside hkeys h hsource

theorem Stocked.of_compiling {r : Except Error Template}
    (hcompiling : Compiling e e.cache name source s r s') : e.Stocked holds sources w s' where
  sound := sound_of_compiling hcache.remembers h.sound hcompiling
  shelves := h.shelves.trans (sameShelves_of_compiling haside hcompiling)
  alone := by
    intro x hx other hknows
    rcases knows_of_compiling hcache.remembers hcompiling hknows with hknows | ⟨hkey, rfl⟩
    · exact h.alone x hx other hknows
    · exact (hkeys x hx _ hsource hkey).symm

/-- **A source comes to what its own tree compiles to**, and the others still do after it. -/
theorem Stocked.compileWith (hparse : e.parse source = .ok tree) (name : String) :
    ∃ t s', e.compileWith e.cache name source s = .ok t s' ∧ t.source = source ∧
      e.Compiled t tree ∧ e.Stocked holds sources w s' := by
  have hcompiling := compiling_compileWith e e.cache name source s
  have hstocked := h.of_compiling hcache haside hkeys hsource hcompiling
  have hgets : ∀ {a w'}, Gets e e.cache name source s.world a w' →
      a.source = source ∧ a.tree = tree := by
    intro a w' hgets
    rcases (held_of_gets hcache.remembers hgets).1 with hheld | ⟨hown, hparse'⟩
    · have hown := h.alone source hsource a.source (.inr ⟨a, hheld, rfl⟩)
      have hparse' := (h.sound.held hheld).2
      rw [hown] at hparse'
      exact ⟨hown, Except.ok.inj (hparse'.symm.trans hparse)⟩
    · exact ⟨hown, Except.ok.inj (hparse'.symm.trans hparse)⟩
  generalize hresult : result (e.compileWith e.cache name source) s = r at hcompiling
  generalize hleft : left (e.compileWith e.cache name source) s = s' at hcompiling hstocked
  have hok : ∀ {t}, r = .ok t → e.compileWith e.cache name source s = .ok t s' := by
    rintro t rfl
    rw [ok_of_result hresult, hleft]
  cases hcompiling with
  | @known t hfind =>
    obtain ⟨hkey, tree', hcompiled⟩ := h.sound.registered hfind
    have hown := h.alone source hsource t.source (.inl ⟨t, hfind, rfl⟩)
    have hparse' := hcompiled.parse
    rw [hown] at hparse'
    obtain rfl := Except.ok.inj (hparse'.symm.trans hparse)
    exact ⟨t, _, hok rfl, hown, hcompiled, hstocked⟩
  | malformed _ _ hfail => cases hparse.symm.trans hfail
  | refused _ hartifact hfail =>
    obtain ⟨hown, htree⟩ := hgets hartifact
    rw [hown, htree] at hfail
    obtain ⟨t, ht⟩ := exists_compile_of_parse hparse (e.compileOptions (e.cacheKey source)) name
    cases ht.symm.trans hfail
  | @made a w' t _ hartifact hcompile =>
    obtain ⟨hown, htree⟩ := hgets hartifact
    rw [hown, htree] at hcompile
    obtain ⟨steps, rfl⟩ := fields_of_compile hcompile
    exact ⟨_, _, hok rfl, rfl, ⟨hparse, hcompile⟩, hstocked⟩

theorem Stocked.loadPartial (hpartial : e.partials w name = .ok source)
    (hparse : e.parse source = .ok tree) :
    ∃ t s', e.loadPartial name s = .ok (some t) s' ∧ t.source = source ∧ e.Compiled t tree ∧
      e.Stocked holds sources w s' := by
  obtain ⟨t, s', hcompile, ht⟩ := h.compileWith hcache haside hkeys hsource hparse name
  refine ⟨t, s', ?_, ht⟩
  rw [loadPartial_of_source ((h.shelves.partials name).trans hpartial), map_eq_pure_bind]
  simp only [bind, EStateM.bind, hcompile]
  rfl

theorem Stocked.loadTemplate (hload : e.loader w name = .ok source)
    (hparse : e.parse source = .ok tree) :
    ∃ t s', e.loadTemplate name s = .ok t s' ∧ t.source = source ∧ e.Compiled t tree ∧
      e.Stocked holds sources w s' := by
  rw [loadTemplate_of_source ((h.shelves.loader name).trans hload)]
  exact h.compileWith hcache haside hkeys hsource hparse _

end

end Mustache.Engine
