import Mathlib.Logic.Relation
import Mustache.Proofs.Engine.History
import Mustache.Proofs.Render.Inert

/-!
Where the sources come from that are parsed in the course of a render. Over data without
callables it is the loader of partials alone, whatever the strings in the data look like. Main
statement: `parsesPartialsOnly_renderTemplate`.
-/

namespace Mustache.Engine

variable {σ : Type} {e : Engine σ} {s s' : Store σ}

/-- One partial is loaded, or fails to be. -/
def LoadsPartial (e : Engine σ) (s s' : Store σ) : Prop := ∃ name, s' = left (e.loadPartial name) s

/-- Any number of partials are loaded, one after the other. -/
def LoadsPartials (e : Engine σ) : Store σ → Store σ → Prop :=
  Relation.ReflTransGen (LoadsPartial e)

/-- The loader of partials gives the source for some name, at once or once some partials have been
loaded. -/
def Supplies (e : Engine σ) (s : Store σ) (source : String) : Prop :=
  ∃ name s', LoadsPartials e s s' ∧ e.partials s'.world name = .ok source

/-- A table supplies what is in it. -/
theorem exists_mem_of_supplies {sources : Table String} {source : String}
    (htable : e.partials = Loader.table sources) (h : Supplies e s source) :
    ∃ name, (name, source) ∈ sources := by
  obtain ⟨name, s', -, hentry⟩ := h
  rw [htable] at hentry
  change Loader.entry sources name = .ok source at hentry
  unfold Loader.entry Table.find? at hentry
  split at hentry
  · rename_i found hfind
    obtain ⟨before, after, rfl, -⟩ := List.lookup_eq_some_iff.mp hfind
    rw [← Except.ok.inj hentry]
    exact ⟨name, List.mem_append_right before List.mem_cons_self⟩
  · cases hentry

/-- All that an operation parses comes from the loader of partials: it changes the store like
some loads of partials, adds keys of supplied sources alone, and reports no malformed template
but those of such loads. -/
structure ParsesPartialsOnly (e : Engine σ) (s : Store σ) (op : EngineM σ α) : Prop where
  loads : LoadsPartials e s (left op s)
  keys : ∀ key, s.registry.find? key = none → (left op s).registry.find? key ≠ none →
    ∃ source, Supplies e s source ∧ key = e.cacheKey source
  faults : ∀ err, result op s = .error err → err.isSyntax →
    ∃ name s', LoadsPartials e s s' ∧ result (e.loadPartial name) s' = .error err

/-! ### Registered templates -/

theorem compiling_of_result {cache : Cache σ} {name source : String} {r : Except Error Template}
    (h : result (e.compileWith cache name source) s = r) :
    Compiling e cache name source s r (left (e.compileWith cache name source) s) :=
  h ▸ compiling_compileWith e cache name source s

/-- A template that is registered was so before, or its key is that of the source compiled. -/
theorem find?_of_compiling {cache : Cache σ} {name source key : String} {t : Template}
    {r : Except Error Template} (h : Compiling e cache name source s r s')
    (hfind : s'.registry.find? key = some t) :
    s.registry.find? key = some t ∨ key = e.cacheKey source ∧ r = .ok t := by
  cases h with
  | known _ => exact Or.inl hfind
  | malformed _ _ _ => exact Or.inl hfind
  | refused _ _ _ => exact Or.inl hfind
  | made _ _ _ =>
    rw [find?_insert_registry] at hfind
    split at hfind
    · rename_i hkey
      rw [Option.some.inj hfind]
      exact Or.inr ⟨hkey, rfl⟩
    · exact Or.inl hfind

/-- Registered templates call host objects or not as the engine does. -/
def CallsAlike (e : Engine σ) (s : Store σ) : Prop :=
  ∀ key t, s.registry.find? key = some t → t.strictCallables = e.config.strictCallables

theorem strictCallables_of_compiling {cache : Cache σ} {name source : String} {t : Template}
    (hs : CallsAlike e s)
    (h : Compiling e cache name source s (.ok t) s') :
    t.strictCallables = e.config.strictCallables := by
  cases h with
  | known hknown => exact hs _ t hknown
  | made _ _ hcompile =>
    obtain ⟨steps, rfl⟩ := fields_of_compile hcompile
    rfl

theorem invariant_callsAlike (e : Engine σ) : Invariant e (CallsAlike e) where
  compiles cache name source hs := by
    intro key t hfind
    rcases find?_of_compiling (compiling_compileWith e cache name source _) hfind with
      hbefore | ⟨-, hresult⟩
    · exact hs key t hbefore
    · exact strictCallables_of_compiling hs (compiling_of_result hresult)
  clears _ := fun _ _ hfind => nomatch hfind
  surroundings _ _ hs := hs

theorem callsAlike_of_reachable (h : Reachable e s) : CallsAlike e s := by
  obtain ⟨history, helpers, w, rfl⟩ := h
  refine (invariant_callsAlike e).perform history (freshStore helpers w) ?_
  exact fun _ _ hfresh => nomatch hfresh

/-! ### Loads of partials -/

theorem strictCallables_of_loadPartial {name : String} {t : Template}
    (hs : CallsAlike e s)
    (h : result (e.loadPartial name) s = .ok (some t)) :
    t.strictCallables = e.config.strictCallables := by
  obtain ⟨source, -, hresult⟩ := exists_source_of_loadPartial h
  exact strictCallables_of_compiling hs (compiling_of_result hresult)

theorem find?_of_loadsPartials {key : String} {t : Template} (h : LoadsPartials e s s')
    (hfind : s'.registry.find? key = some t) :
    s.registry.find? key = some t ∨ ∃ source, Supplies e s source ∧ key = e.cacheKey source := by
  induction h with
  | refl => exact Or.inl hfind
  | @tail mid last hpath hload ih =>
    obtain ⟨name, rfl⟩ := hload
    rcases left_loadPartial e name mid with heq | ⟨source, hsource, heq⟩
    · rw [heq] at hfind
      exact ih hfind
    · rw [heq] at hfind
      rcases find?_of_compiling (compiling_compileWith e e.cache name source mid) hfind with
        hbefore | ⟨hkey, -⟩
      · exact ih hbefore
      · exact Or.inr ⟨source, ⟨name, mid, hpath, hsource⟩, hkey⟩

/-! ### Renders -/

/-- What holds at every point of a render over data without callables. -/
theorem plain_loadsPartials (hstrict : e.config.strictCallables = true) (s : Store σ) :
    Render.Plain e
      (fun s' => LoadsPartials e s s' ∧ CallsAlike e s')
      (fun _ => True)
      (fun err => err.isSyntax →
        ∃ name s', LoadsPartials e s s' ∧ result (e.loadPartial name) s' = .error err) where
  newline := trivial
  loads name s' hs' :=
    ⟨hs'.1.tail ⟨name, rfl⟩, (invariant_callsAlike e).lasting.loadPartial name s' hs'.2⟩
  prints name s' t hs' hfound := by
    refine ⟨?_, fun _ _ _ => trivial, fun step _ => Step.prints_of_forall (fun _ => trivial) step⟩
    rw [strictCallables_of_loadPartial hs'.2 hfound, hstrict]
  fails name s' err hs' hfail _ := ⟨name, s', hs'.1, hfail⟩
  other err herr hsyntax := absurd hsyntax (by rw [herr]; exact Bool.false_ne_true)

theorem inert_startScopes {helpers : Table Value} {data : Value} (hdata : ¬ data.HasCallable)
    (hhelpers : ∀ entry ∈ helpers, ¬ entry.2.HasCallable) :
    (startScopes helpers data).Inert := by
  refine forall_startScopes hdata fun hcallable => ?_
  cases hcallable with
  | entry hmem h => exact hhelpers _ hmem h

/-- **Without callables, data is never compiled.** In every store that an engine with strict
callables comes to, rendering a template over data and helpers without callables parses only what
the loader of partials gives, whether it succeeds or fails. -/
theorem parsesPartialsOnly_renderTemplate (hstrict : e.config.strictCallables = true)
    (hs : Reachable e s) {t : Template} (ht : t.strictCallables = true) {data : Value}
    (hdata : ¬ data.HasCallable) (hhelpers : ∀ entry ∈ s.helpers, ¬ entry.2.HasCallable) :
    ParsesPartialsOnly e s (e.renderTemplate t data) := by
  have hregistered := callsAlike_of_reachable hs
  have hplain := plain_loadsPartials hstrict s
  have hprints : t.Prints fun _ => True :=
    ⟨ht, fun _ _ _ => trivial, fun step _ => Step.prints_of_forall (fun _ => trivial) step⟩
  have hstart : Render.Tame (fun s' => LoadsPartials e s s' ∧ CallsAlike e s') (fun _ => True)
      (startState s data) :=
    ⟨inert_startScopes hdata hhelpers, (fun _ hmem => nomatch hmem), .refl, hregistered⟩
  have hrun := Render.faithful_renderLevels hplain (e.config.maxDepth + 1) t "" t.steps "" hprints
    madeOf_empty hprints.steps madeOf_empty (startState s data) hstart
  have hkeys : LoadsPartials e s (left (e.renderTemplate t data) s) → ∀ key,
      s.registry.find? key = none → (left (e.renderTemplate t data) s).registry.find? key ≠ none →
      ∃ source, Supplies e s source ∧ key = e.cacheKey source := by
    intro hloads key hbefore hafter
    obtain ⟨t', hfind⟩ := Option.ne_none_iff_exists'.mp hafter
    rcases find?_of_loadsPartials hloads hfind with hold | hsupplied
    · rw [hbefore] at hold
      cases hold
    · exact hsupplied
  cases h : Render.renderLevels e (e.config.maxDepth + 1) t "" t.steps "" (startState s data) with
  | ok out r =>
    rw [h] at hrun
    have hrender := renderTemplate_of_ok h
    have hloads : LoadsPartials e s (left (e.renderTemplate t data) s) := by
      rw [left_of_ok hrender]
      exact hrun.1.store.1
    refine ⟨hloads, hkeys hloads, fun err hfail => ?_⟩
    rw [result_of_ok hrender] at hfail
    cases hfail
  | error err r =>
    rw [h] at hrun
    have hrender := renderTemplate_of_error h
    have hloads : LoadsPartials e s (left (e.renderTemplate t data) s) := by
      rw [left_of_error hrender]
      exact hrun.1.store.1
    refine ⟨hloads, hkeys hloads, fun err' hfail => ?_⟩
    rw [result_of_error hrender] at hfail
    rw [← Except.error.inj hfail]
    exact hrun.2

/-- An engine of default options with some partials, all of whose callables give nothing. -/
def plainEngine (partials : Table String) : Engine Unit where
  config := {}
  escape := .html .compat
  delimiters := Delimiters.standard
  pragmas := PragmaSet.empty
  loader := Loader.verbatim
  partials := Loader.table partials
  cache := Cache.none
  host :=
    { nullary := fun _ w => (.ok .null, w)
      unary := fun _ _ _ w => .done (.ok .null) w }

/-- The same engine with blocks, and with keys that are what they should be the digest of. -/
def blocksEngine (partials : Table String) : Engine Unit :=
  { plainEngine partials with
    config := { pragmas := [.blocks] }
    pragmas := PragmaSet.ofList [.blocks]
    digest := fun bytes => String.ofList (bytes.map Char.ofUInt8) }

/-- A string that looks like a tag is printed by a partial, and not parsed. -/
theorem parsesPartialsOnly_tag_in_data :
    ParsesPartialsOnly (plainEngine [("p", "\x7b\x7bx\x7d\x7d")]) (freshStore [] ())
      ((plainEngine [("p", "\x7b\x7bx\x7d\x7d")]).renderTemplate
        ⟨"t", "", "", .html .compat, true, [.partialStep (.fixed "p") none]⟩
        (.map [("x", .string "\x7b\x7bsecret\x7d\x7d")])) := by
  refine parsesPartialsOnly_renderTemplate rfl ⟨[], [], (), rfl⟩ rfl ?_ ?_
  · intro h
    cases h with
    | entry hmem h =>
      rw [(Prod.mk.inj (List.mem_singleton.mp hmem)).2] at h
      cases h
  · exact fun _ hmem => nomatch hmem

end Mustache.Engine
