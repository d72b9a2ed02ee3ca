import Mustache.Cache.Recent
import Mustache.Proofs.Engine.Compile
import Mustache.Proofs.Template.Steps

/-!
Stores and caches that hold what their keys promise: registered templates are what their sources
compile to, and artifacts hold the trees of their sources. Compiling keeps that so, as long as the
cache gives back only what it was given. Main statement: `sound_of_compiling`.
-/

namespace Mustache

open Engine (result left)

variable {σ : Type}

/-! ### Caches -/

/-- A cache that may forget and fail, but gives only what it `holds`, and holds only what it was
given. Getting nothing is not a use. -/
structure Cache.Lawful (cache : Cache σ) (holds : σ → String → Artifact → Prop) : Prop where
  held_of_get : ∀ {key w a}, result (cache.get key) w = .ok (some a) → holds w key a
  miss : ∀ {key w}, (∀ a, result (cache.get key) w ≠ .ok (some a)) → left (cache.get key) w = w
  get : ∀ {key w k a}, holds (left (cache.get key) w) k a → holds w k a
  set : ∀ {a w k b}, holds (left (cache.set a.key a) w) k b → holds w k b ∨ k = a.key ∧ b = a
  clear : ∀ {w k a}, holds (left cache.clear w) k a → holds w k a

/-- A cache that may forget and fail, and change with each use, but gives only what it `holds`, and
holds only what it was given. -/
structure Cache.Remembers (cache : Cache σ) (holds : σ → String → Artifact → Prop) : Prop where
  held_of_get : ∀ {key w a}, result (cache.get key) w = .ok (some a) → holds w key a
  get : ∀ {key w k a}, holds (left (cache.get key) w) k a → holds w k a
  set : ∀ {a w k b}, holds (left (cache.set a.key a) w) k b → holds w k b ∨ k = a.key ∧ b = a
  clear : ∀ {w k a}, holds (left cache.clear w) k a → holds w k a

theorem Cache.Lawful.remembers {cache : Cache σ} {holds : σ → String → Artifact → Prop}
    (h : cache.Lawful holds) : cache.Remembers holds :=
  ⟨h.held_of_get, h.get, h.set, h.clear⟩

theorem Cache.lawful_none (holds : σ → String → Artifact → Prop) : Cache.none.Lawful holds where
  held_of_get h := nomatch h
  miss _ := rfl
  get h := h
  set h := Or.inl h
  clear h := h

namespace Recent

theorem mem_of_mem_insert {r : Recent} {key k : String} {a b : Artifact}
    (h : (k, b) ∈ (r.insert key a).entries) : (k, b) ∈ r.entries ∨ k = key ∧ b = a := by
  rcases List.mem_cons.mp (List.mem_of_mem_take h) with hnew | hold
  · exact Or.inr (Prod.mk.inj hnew)
  · exact Or.inl (List.mem_filter.mp hold).1

theorem mem_of_find? {r : Recent} {key : String} {a : Artifact} (h : r.find? key = some a) :
    (key, a) ∈ r.entries := by
  obtain ⟨before, after, heq, -⟩ := List.lookup_eq_some_iff.mp h
  rw [heq]
  exact List.mem_append_right before List.mem_cons_self

theorem mem_of_mem_touch {r : Recent} {key k : String} {b : Artifact}
    (h : (k, b) ∈ (r.touch key).entries) : (k, b) ∈ r.entries := by
  unfold touch at h
  split at h
  · rename_i a ha
    rcases mem_of_mem_insert h with hold | ⟨rfl, rfl⟩
    · exact hold
    · exact mem_of_find? ha
  · exact h

end Recent

/-- The cache in memory holds the entries of its part of the world. -/
theorem Cache.lawful_recent {f : Focus σ Recent} (hf : f.Lawful) :
    (Cache.recent f).Lawful fun w key a => (key, a) ∈ (f.get w).entries where
  held_of_get h := Recent.mem_of_find? (Except.ok.inj h)
  miss {key w} h := by
    have hnone : (f.get w).find? key = .none := by
      cases hfind : (f.get w).find? key with
      | none => rfl
      | some a => exact absurd (congrArg Except.ok hfind) (h a)
    have htouch : (f.get w).touch key = f.get w := by
      unfold Recent.touch
      rw [hnone]
    change f.set ((f.get w).touch key) w = w
    rw [htouch]
    exact hf.set_get w
  get {key w k a} h := by
    change (k, a) ∈ (f.get (f.modify (·.touch key) w)).entries at h
    unfold Focus.modify at h
    rw [hf.get_set] at h
    exact Recent.mem_of_mem_touch h
  set {a w k b} h := by
    change (k, b) ∈ (f.get (f.modify (·.insert a.key a) w)).entries at h
    unfold Focus.modify at h
    rw [hf.get_set] at h
    exact Recent.mem_of_mem_insert h
  clear {w k a} h := by
    change (k, a) ∈ (f.get (f.modify Recent.clear w)).entries at h
    unfold Focus.modify at h
    rw [hf.get_set] at h
    cases h

namespace Engine

/-! ### What is parsed -/

theorem parse_of_scan {e : Engine σ} {source : String} {ts : List Token} {tree : List Node}
    (hscan : Token.scan e.delimiters source = .ok ts)
    (htree : Node.ofTokens e.pragmas ts = .ok tree) : e.parse source = .ok tree := by
  unfold parse tokenize
  rw [hscan]
  exact htree

theorem regular_of_parse {e : Engine σ} {source : String} {tree : List Node}
    (h : e.parse source = .ok tree) {n : Node} (hn : n.In tree) : n.Regular := by
  unfold parse at h
  cases hscan : e.tokenize source with
  | error err =>
    rw [hscan] at h
    cases h
  | ok ts =>
    rw [hscan] at h
    exact Node.regular_of_ofTokens hscan h hn

/-- A tree that was parsed compiles. -/
theorem exists_compile_of_parse {e : Engine σ} {source : String} {tree : List Node}
    (h : e.parse source = .ok tree) (options : CompileOptions) (name : String) :
    ∃ t, Template.compile options name source tree = .ok t := by
  unfold parse at h
  cases hscan : e.tokenize source with
  | error err =>
    rw [hscan] at h
    cases h
  | ok ts =>
    rw [hscan] at h
    exact Template.exists_compile_of_ofTokens hscan h options name

/-! ### Stores -/

/-- The template is what its source, whose tree this is, compiles to. -/
structure Compiled (e : Engine σ) (t : Template) (tree : List Node) : Prop where
  parse : e.parse t.source = .ok tree
  compile : Template.compile (e.compileOptions (e.cacheKey t.source)) t.name t.source tree = .ok t

/-- Registered templates are what their sources compile to, and artifacts hold the trees of
theirs, each under the key of its source. -/
structure Sound (e : Engine σ) (holds : σ → String → Artifact → Prop) (s : Store σ) : Prop where
  registered : ∀ {key t}, s.registry.find? key = some t →
    key = e.cacheKey t.source ∧ ∃ tree, e.Compiled t tree
  held : ∀ {key a}, holds s.world key a → key = e.cacheKey a.source ∧ e.parse a.source = .ok a.tree

/-- The source was registered or cached under the key. -/
def Knows (holds : σ → String → Artifact → Prop) (s : Store σ) (key source : String) : Prop :=
  (∃ t, s.registry.find? key = some t ∧ t.source = source) ∨
    ∃ a, holds s.world key a ∧ a.source = source

variable {e : Engine σ} {holds : σ → String → Artifact → Prop} {s s' : Store σ}
  {cache : Cache σ} {name source : String}

theorem sound_freshStore {w : σ}
    (hheld : ∀ {key a}, holds w key a → key = e.cacheKey a.source ∧ e.parse a.source = .ok a.tree)
    (helpers : Table Value) : e.Sound holds ⟨Registry.empty, helpers, w⟩ where
  registered h := nomatch h
  held := hheld

/-- What the cache gives, or is given, for a source. -/
theorem held_of_gets (hcache : cache.Remembers holds) {a : Artifact} {w w' : σ}
    (h : Gets e cache name source w a w') :
    (holds w (e.cacheKey source) a ∨ a.source = source ∧ e.parse source = .ok a.tree) ∧
      ∀ {k b}, holds w' k b → holds w k b ∨
        k = e.cacheKey source ∧ b.source = source ∧ e.parse source = .ok b.tree := by
  cases h with
  | hit h => exact ⟨Or.inl (hcache.held_of_get h), fun hb => Or.inl (hcache.get hb)⟩
  | parsed hmiss hparse =>
    refine ⟨Or.inr ⟨rfl, hparse⟩, fun hb => ?_⟩
    rcases hcache.set (a := ⟨name, _, source, _⟩) hb with hb | ⟨rfl, rfl⟩
    · exact Or.inl (hcache.get hb)
    · exact Or.inr ⟨rfl, rfl, hparse⟩

/-- What a source is compiled from is its own tree, where no other source has its key. -/
theorem tree_of_gets (hkeys : Function.Injective e.cacheKey) (hcache : cache.Remembers holds)
    {w w' : σ} (hheld : ∀ {key a}, holds w key a →
      key = e.cacheKey a.source ∧ e.parse a.source = .ok a.tree) {a : Artifact}
    (h : Gets e cache name source w a w') : a.source = source ∧ e.parse source = .ok a.tree := by
  rcases (held_of_gets hcache h).1 with hown | hown
  · obtain ⟨hkey, hparse⟩ := hheld hown
    obtain hsource : source = a.source := hkeys hkey
    exact ⟨hsource.symm, hsource ▸ hparse⟩
  · exact hown

/-- Compiling makes the cache hold no artifact but one with the tree of the source. -/
theorem held_of_compiling (hcache : cache.Remembers holds) {r : Except Error Template}
    (h : Compiling e cache name source s r s') {k : String} {b : Artifact}
    (hb : holds s'.world k b) : holds s.world k b ∨
      k = e.cacheKey source ∧ b.source = source ∧ e.parse source = .ok b.tree := by
  cases h with
  | known _ => exact Or.inl hb
  | malformed _ _ _ => exact Or.inl (hcache.get hb)
  | refused _ hgets _ => exact (held_of_gets hcache hgets).2 hb
  | made _ hgets _ => exact (held_of_gets hcache hgets).2 hb

section

variable (hcache : cache.Remembers holds)

include hcache

/-- Compiling makes no source known but its own. -/
theorem knows_of_compiling {r : Except Error Template} {key other : String}
    (h : Compiling e cache name source s r s') (hknows : Knows holds s' key other) :
    Knows holds s key other ∨ key = e.cacheKey source ∧ other = source := by
  rcases hknows with ⟨t, hfind, hsource⟩ | ⟨b, hb, hsource⟩
  · cases h with
    | known _ => exact Or.inl (Or.inl ⟨t, hfind, hsource⟩)
    | malformed _ _ _ => exact Or.inl (Or.inl ⟨t, hfind, hsource⟩)
    | refused _ _ _ => exact Or.inl (Or.inl ⟨t, hfind, hsource⟩)
    | @made a w t' _ hgets hcompile =>
      rw [find?_insert_registry] at hfind
      split at hfind
      · rename_i hkey
        obtain rfl := Option.some.inj hfind
        obtain ⟨steps, rfl⟩ := fields_of_compile hcompile
        rcases (held_of_gets hcache hgets).1 with hheld | ⟨hown, -⟩
        · exact Or.inl (Or.inr ⟨a, hkey ▸ hheld, hsource⟩)
        · exact Or.inr ⟨hkey, hsource ▸ hown⟩
      · exact Or.inl (Or.inl ⟨t, hfind, hsource⟩)
  · rcases held_of_compiling hcache h hb with hb | ⟨hkey, hown, -⟩
    · exact Or.inl (Or.inr ⟨b, hb, hsource⟩)
    · exact Or.inr ⟨hkey, hsource ▸ hown⟩

variable (hs : e.Sound holds s)

include hs

/-- The artifact that a source is compiled from holds the tree of its own source, which has the
same key. -/
theorem parse_of_gets {a : Artifact} {w : σ} (h : Gets e cache name source s.world a w) :
    e.cacheKey source = e.cacheKey a.source ∧ e.parse a.source = .ok a.tree := by
  rcases (held_of_gets hcache h).1 with hheld | ⟨hsource, hparse⟩
  · exact hs.held hheld
  · rw [hsource]
    exact ⟨rfl, hparse⟩

/-- **Compiling keeps a store sound.** -/
theorem sound_of_compiling {r : Except Error Template}
    (h : Compiling e cache name source s r s') : e.Sound holds s' := by
  constructor
  · intro key t hfind
    cases h with
    | known _ => exact hs.registered hfind
    | malformed _ _ _ => exact hs.registered hfind
    | refused _ _ _ => exact hs.registered hfind
    | @made a w t' _ hgets hcompile =>
      rw [find?_insert_registry] at hfind
      split at hfind
      · rename_i hkey
        obtain rfl := Option.some.inj hfind
        obtain ⟨hsame, hparse⟩ := parse_of_gets hcache hs hgets
        rw [hsame] at hcompile
        obtain ⟨steps, rfl⟩ := fields_of_compile hcompile
        exact ⟨hkey.trans hsame, a.tree, hparse, hcompile⟩
      · exact hs.registered hfind
  · intro k b hb
    rcases held_of_compiling hcache h hb with hb | ⟨rfl, hsource, hparse⟩
    · exact hs.held hb
    · rw [hsource]
      exact ⟨rfl, hparse⟩

/-- A template that compiling gives is what its source compiles to. The source was known before
under this key, or is the one compiled. -/
theorem compiled_of_compiling {t : Template} (h : Compiling e cache name source s (.ok t) s') :
    e.cacheKey t.source = e.cacheKey source ∧ (∃ tree, e.Compiled t tree) ∧
      (t.source = source ∨ Knows holds s (e.cacheKey source) t.source) := by
  cases h with
  | known hknown =>
    obtain ⟨hkey, hcompiled⟩ := hs.registered hknown
    exact ⟨hkey.symm, hcompiled, Or.inr (Or.inl ⟨t, hknown, rfl⟩)⟩
  | @made a w t _ hgets hcompile =>
    obtain ⟨hsame, hparse⟩ := parse_of_gets hcache hs hgets
    rw [hsame] at hcompile
    obtain ⟨steps, rfl⟩ := fields_of_compile hcompile
    refine ⟨hsame.symm, ⟨a.tree, hparse, hcompile⟩, ?_⟩
    · rcases (held_of_gets hcache hgets).1 with hheld | ⟨hown, -⟩
      · exact Or.inr (Or.inr ⟨a, hheld, rfl⟩)
      · exact Or.inl hown

/-- Nothing but a source that does not parse keeps compiling from giving a template, and then the
store is as it was, but for what the cache did. -/
theorem malformed_of_compiling {err : Error}
    (h : Compiling e cache name source s (.error err) s') :
    (∃ cause, e.parse source = .error cause ∧ err = cause.inTemplate name source) ∧
      (∀ a, result (cache.get (e.cacheKey source)) s.world ≠ .ok (some a)) ∧
      s' = { s with world := left (cache.get (e.cacheKey source)) s.world } := by
  cases h with
  | malformed hnew hmiss hparse => exact ⟨⟨_, hparse, rfl⟩, hmiss, rfl⟩
  | refused hnew hgets hcompile =>
    obtain ⟨t, ht⟩ := exists_compile_of_parse (parse_of_gets hcache hs hgets).2 _ _
    rw [ht] at hcompile
    cases hcompile

end

end Engine

end Mustache
