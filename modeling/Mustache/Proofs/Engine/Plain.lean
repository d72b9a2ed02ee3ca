import Mustache.Proofs.Engine.Beside
import Mustache.Proofs.Engine.Replaced
import Mustache.Proofs.Render.Plain

/-!
Sources without tags in an engine at work. Through every history registered templates and cached
artifacts stay what their sources come to, so a source in which the opening delimiter stands nowhere
compiles and renders to itself, and texts from callables that have no tags may be taken as they are.
Main statement: `renders_to_itself`.
-/

namespace Mustache.Engine

variable {σ κ : Type} {e : Engine σ} {cache : Cache κ} {holds : κ → String → Artifact → Prop}

/-! ### Stores of an engine with a cache beside its world -/

section

variable (hcache : cache.Remembers holds)

include hcache

/-- Rendering keeps a store sound: it goes on alike with itself. -/
theorem parallel_sound_beside : Parallel (e.beside cache) (e.beside cache)
    (fun s s' => s' = s ∧ (e.beside cache).Sound (fun wk => holds wk.2) s) Eq Eq := by
  have hshares : SharesWorld fun s s' : Store (σ × κ) =>
      s' = s ∧ (e.beside cache).Sound (fun wk => holds wk.2) s :=
    ⟨fun h => by rw [h.1], fun h w => ⟨by rw [h.1], h.2.registered, h.2.held⟩⟩
  have hcompiles : ∀ {c : Cache (σ × κ)}, c.Remembers (fun wk => holds wk.2) →
      ∀ name source, Alike (fun s s' => s' = s ∧ (e.beside cache).Sound (fun wk => holds wk.2) s)
        Eq Eq ((e.beside cache).compileWith c name source)
        ((e.beside cache).compileWith c name source) := by
    intro c hc name source
    refine alike_of_result_left ?_ ?_
    · rintro s s' ⟨rfl, -⟩
      exact agree_eq_iff.mpr rfl
    · rintro s s' ⟨rfl, hs⟩
      exact ⟨rfl, sound_of_compiling hc hs (compiling_compileWith _ c name source s')⟩
  exact {
    refl := fun _ => rfl
    maxDepth := rfl
    delimiters := rfl
    cacheLambdaTemplates := rfl
    limit := fun _ h => by rw [h]
    twin := fun h => by rw [h]; exact ⟨rfl, rfl, rfl⟩
    helpers := fun hs => by rw [hs.1]
    loader := fun hs _ => by rw [hs.1]
    partials := fun hs _ => by rw [hs.1]
    compiles := hcompiles hcache.beside
    compilesUncached := hcompiles (Cache.lawful_none _).remembers
    nullary := alike_nullary_beside hshares
    unary := alike_unary_beside hshares }

theorem sound_leaves_beside (op : Operation σ) {s : Store (σ × κ)}
    (hs : (e.beside cache).Sound (fun wk => holds wk.2) s) :
    (e.beside cache).Sound (fun wk => holds wk.2) (op.beside.leaves (e.beside cache) s) := by
  have hparallel := parallel_sound_beside (e := e) hcache
  cases op with
  | render name data => exact ((hparallel.render name data).left ⟨rfl, hs⟩).2
  | renderTemplate t data => exact ((hparallel.renderTemplate rfl data).left ⟨rfl, hs⟩).2
  | compile source => exact ((hparallel.compiles "source" source).left ⟨rfl, hs⟩).2
  | loadTemplate name => exact ((hparallel.loadTemplate name).left ⟨rfl, hs⟩).2
  | loadPartial name => exact ((hparallel.loadPartial name).left ⟨rfl, hs⟩).2
  | loadLambda text d => exact ((hparallel.loadLambda text d).left ⟨rfl, hs⟩).2
  | addHelper name v => exact ⟨hs.registered, hs.held⟩
  | removeHelper name =>
    obtain ⟨helpers, heq⟩ := left_removeHelper name s
    rw [Operation.beside, Operation.leaves, heq]
    exact ⟨hs.registered, hs.held⟩
  | clearCache =>
    rw [Operation.beside, Operation.leaves, left_clearCache]
    refine ⟨fun hfind => ?_, fun hheld => hs.held (hcache.beside.clear hheld)⟩
    rw [find?_clear] at hfind
    cases hfind
  | edit f => exact ⟨hs.registered, hs.held⟩

/-- Registered templates and cached artifacts are what their sources come to after every history,
whatever the callables of the host do to the world. -/
theorem sound_perform_beside (history : List (Operation σ)) {s : Store (σ × κ)}
    (hs : (e.beside cache).Sound (fun wk => holds wk.2) s) :
    (e.beside cache).Sound (fun wk => holds wk.2)
      ((e.beside cache).perform (history.map .beside) s) := by
  induction history generalizing s with
  | nil => exact hs
  | cons op history ih => exact ih (sound_leaves_beside hcache op hs)

end

/-! ### Texts taken as templates -/

/-- What becomes of a text from a callable when it is rendered as a template in any case. -/
def renderLoaded (e : Engine σ) (deeper : Render.Renderer σ) (text : String)
    (delimiters : Option Delimiters) : Render.RenderM σ String := do
  let t ← Render.onStore (e.loadLambda text delimiters)
  Render.entering e.config.maxDepth t.name (deeper t "" t.steps "")

/-- Texts with tags are rendered so. -/
theorem renderText_of_contains (deeper : Render.Renderer σ) {text : String}
    {delimiters : Option Delimiters}
    (h : Text.contains (delimiters.getD e.delimiters).opening.toList text.toList = true) :
    Render.renderText e deeper text delimiters = e.renderLoaded deeper text delimiters := by
  unfold Render.renderText
  rw [if_pos h]
  rfl

section

variable {source : String} {s : Store σ}
  (hplain : Text.contains e.delimiters.opening.toList source.toList = false)

include hplain

theorem renderText_of_not_contains (deeper : Render.Renderer σ) {delimiters : Option Delimiters}
    (hdelimiters : delimiters.getD e.delimiters = e.delimiters) (r : Render.State σ) :
    Render.renderText e deeper source delimiters r = .ok source r := by
  unfold Render.renderText
  rw [hdelimiters, if_neg (Bool.eq_false_iff.mp hplain)]
  rfl

variable {holds : σ → String → Artifact → Prop} (hs : e.Sound holds s)
  (hown : ∀ other, Knows holds s (e.cacheKey source) other → other = source)

include hs hown

/-- A source without tags compiles, to steps that print it, unless another source is known under
its key. -/
theorem exists_compileWith_literal {c : Cache σ} (hcache : c.Remembers holds) (name : String) :
    ∃ t s', e.compileWith c name source s = .ok t s' ∧ Literal t.steps source.toList := by
  have hcompiling := compiling_compileWith e c name source s
  cases hresult : result (e.compileWith c name source) s with
  | error err =>
    rw [hresult] at hcompiling
    obtain ⟨⟨cause, hcause, -⟩, -⟩ := malformed_of_compiling hcache hs hcompiling
    obtain ⟨texts, hparse, -⟩ := exists_parse_of_not_contains hplain
    exact nomatch hparse.symm.trans hcause
  | ok t =>
    rw [hresult] at hcompiling
    obtain ⟨-, ⟨tree, hcompiled⟩, hknows⟩ := compiled_of_compiling hcache hs hcompiling
    obtain rfl : t.source = source := hknows.elim id (hown _)
    exact ⟨t, _, ok_of_result hresult, literal_of_compiled hcompiled hplain⟩

theorem exists_loadLambda_literal (hcache : e.cache.Remembers holds)
    {delimiters : Option Delimiters} (hsource : e.lambdaSource source delimiters = source) :
    ∃ t s', e.loadLambda source delimiters s = .ok t s' ∧ Literal t.steps source.toList := by
  unfold loadLambda
  rw [hsource]
  refine exists_compileWith_literal hplain hs hown ?_ "lambda"
  split
  · exact hcache
  · exact (Cache.lawful_none holds).remembers

end

theorem renderTemplate_literal (e : Engine σ) {t : Template} {source : String}
    (h : Literal t.steps source.toList) (data : Value) (s : Store σ) :
    e.renderTemplate t data s = .ok source s := by
  refine renderTemplate_of_ok (r := startState s data) ?_
  rw [Render.renderLevels, Render.renderSteps_literal _ t h, String.empty_append,
    String.ofList_toList]

theorem render_literal {name source : String} {t : Template} {s s' : Store σ}
    (hload : e.loadTemplate name s = .ok t s') (h : Literal t.steps source.toList) (data : Value) :
    e.render name data s = .ok source s' := by
  simp only [render, bind, EStateM.bind, hload]
  exact renderTemplate_literal e h data s'

theorem renderLoaded_literal {source : String} {delimiters : Option Delimiters} {t : Template}
    {s' : Store σ} {r : Render.State σ}
    (hload : e.loadLambda source delimiters r.store = .ok t s')
    (h : Literal t.steps source.toList) :
    e.renderLoaded (Render.renderLevels e (e.config.maxDepth - r.depth)) source delimiters r =
      if r.depth < e.config.maxDepth then .ok source { r with store := s' }
      else .error (.recursionLimit e.config.maxDepth t.name) { r with store := s' } := by
  have honStore : Render.onStore (e.loadLambda source delimiters) r =
      .ok t { r with store := s' } := by
    unfold Render.onStore
    rw [hload]
  unfold renderLoaded
  rw [Render.bind_of_ok _ honStore]
  split
  · rename_i hdepth
    obtain ⟨n, hn⟩ : ∃ n, e.config.maxDepth - r.depth = n + 1 :=
      ⟨_, (Nat.succ_pred (by omega)).symm⟩
    refine (Render.entering_of_lt (s := { r with store := s' }) hdepth).trans ?_
    rw [hn, Render.renderLevels, Render.between, Render.renderSteps_literal _ t h,
      String.empty_append, String.ofList_toList]
    rfl
  · rename_i hdepth
    exact Render.entering_of_le (s := { r with store := s' }) (Nat.le_of_not_lt hdepth)

/-- In a sound store a source that is known under the key of another one collides with it. -/
theorem collide_of_knows {holds : σ → String → Artifact → Prop} {s : Store σ}
    {source other : String} (hs : e.Sound holds s)
    (hknows : Knows holds s (e.cacheKey source) other) (hne : other ≠ source) :
    Collide e.digest (keyBytes e.fingerprint other) (keyBytes e.fingerprint source) := by
  refine ⟨fun hbytes => hne (keyBytes_injective hbytes), ?_⟩
  rcases hknows with ⟨t, hfind, rfl⟩ | ⟨a, hheld, rfl⟩
  · exact (hs.registered hfind).1.symm
  · exact (hs.held hheld).1.symm

/-- Delimiters that are those of the engine, said or not, leave a text as it is. -/
theorem lambdaSource_of_mem {delimiters : Option Delimiters}
    (h : delimiters ∈ [none, some e.delimiters]) (source : String) :
    delimiters.getD e.delimiters = e.delimiters ∧ e.lambdaSource source delimiters = source := by
  rcases List.mem_pair.mp h with rfl | rfl
  · exact ⟨rfl, rfl⟩
  · exact ⟨rfl, if_pos rfl⟩

/-- **Text without tags passes through.** Whatever an engine has done, its store is sound. In each
sound store a source in which the opening delimiter stands nowhere compiles, to a template that
renders to the source itself, byte for byte, over all data and in every state; and a text from a
callable that is such a source is the same taken as it is or rendered as a template, unless this
would go below the limit on depth. But for a collision of the digest with a source known before. -/
theorem renders_to_itself (hcache : cache.Remembers holds) {source : String}
    (hplain : Text.contains e.delimiters.opening.toList source.toList = false) :
    let E := e.beside cache
    let kept := fun wk : σ × κ => holds wk.2
    (∀ helpers w k (history : List (Operation σ)), (∀ key a, holds k key a → e.Stored key a) →
      E.Sound kept (E.perform (history.map .beside) (freshStore helpers (w, k)))) ∧
    ∀ s, E.Sound kept s →
      (∃ other, Knows kept s (E.cacheKey source) other ∧
        Collide e.digest (keyBytes e.fingerprint other) (keyBytes e.fingerprint source)) ∨
      (∃ t s', E.compile source s = .ok t s' ∧
        ∀ data s'', E.renderTemplate t data s'' = .ok source s'') ∧
      (∀ name data, E.loader s.world name = .ok source →
        ∃ s', E.render name data s = .ok source s') ∧
      ∀ delimiters ∈ [none, some e.delimiters], ∀ r : Render.State (σ × κ), r.store = s →
        let deeper := Render.renderLevels E (E.config.maxDepth - r.depth)
        Render.renderText E deeper source delimiters r = .ok source r ∧
          ∃ name s', E.renderLoaded deeper source delimiters r =
            if r.depth < E.config.maxDepth then .ok source { r with store := s' }
            else .error (.recursionLimit E.config.maxDepth name) { r with store := s' } := by
  intro E kept
  constructor
  · intro helpers w k history hstored
    have hfresh : E.Sound kept (freshStore helpers (w, k)) :=
      ⟨nofun, fun hheld => (hstored _ _ hheld).parse⟩
    exact sound_perform_beside hcache history hfresh
  intro s hs
  by_cases hown : ∀ other, Knows kept s (E.cacheKey source) other → other = source
  · right
    have hliteral : ∀ name, ∃ t s', E.compileWith E.cache name source s = .ok t s' ∧
        Literal t.steps source.toList :=
      exists_compileWith_literal (e := E) hplain hs hown hcache.beside
    refine ⟨?_, ?_, ?_⟩
    · obtain ⟨t, s', hcompile, hsteps⟩ := hliteral "source"
      exact ⟨t, s', hcompile, renderTemplate_literal E hsteps⟩
    · intro name data hsource
      obtain ⟨t, s', hcompile, hsteps⟩ := hliteral (if source = name then "inline" else name)
      exact ⟨s', render_literal ((loadTemplate_of_source hsource).trans hcompile) hsteps data⟩
    · rintro delimiters hdelimiters r rfl deeper
      obtain ⟨hgetD, hsame⟩ := lambdaSource_of_mem (e := E) hdelimiters source
      obtain ⟨t, s', hload, hsteps⟩ :=
        exists_loadLambda_literal (e := E) hplain hs hown hcache.beside hsame
      exact ⟨renderText_of_not_contains (e := E) hplain deeper hgetD r, t.name, s',
        renderLoaded_literal hload hsteps⟩
  · left
    push Not at hown
    obtain ⟨other, hknows, hne⟩ := hown
    exact ⟨other, hknows, collide_of_knows (e := E) hs hknows hne⟩

/-- Blank lines, a lone brace and a closing delimiter, after a template was compiled. -/
theorem renders_to_itself_blanks :
    let E := literalEngine.beside (Cache.recent ⟨id, fun r _ => r⟩)
    let s := E.perform [.compile loneSource] (freshStore [] ((), (⟨4, []⟩ : Recent)))
    let source := " \r\n\n\t\x7b \x7d\x7d\n "
    ∃ t s', E.compile source s = .ok t s' ∧
      ∀ data s'', E.renderTemplate t data s'' = .ok source s'' := by
  intro E s source
  have hremembers := (Cache.lawful_recent (f := ⟨id, fun r _ => r⟩)
    ⟨fun _ _ => rfl, fun _ => rfl, fun _ _ _ => rfl⟩).remembers
  have hplain : Text.contains literalEngine.delimiters.opening.toList source.toList = false := by
    decide
  obtain ⟨hsound, hpasses⟩ := renders_to_itself hremembers hplain
  have hs := hsound [] () ⟨4, []⟩ [.compile loneSource] fun _ _ h => absurd h List.not_mem_nil
  rcases hpasses s hs with ⟨other, -, hne, hsame⟩ | ⟨hcompiles, -⟩
  · exact absurd (spelled_injective 0 hsame) hne
  · exact hcompiles

end Mustache.Engine
