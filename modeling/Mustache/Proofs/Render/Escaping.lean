import Mathlib
import Mustache.Proofs.Escape
import Mustache.Proofs.Engine.Sound
import Mustache.Proofs.Render.Sources
import Mustache.Proofs.Template.Steps

/-!
What the built-in escape is for. In a render that escapes every interpolation, over data without
callables, no character that the escape encodes comes from the data: those in the output are in
texts of templates. Main statement: `exists_text_of_mem_renderTemplate`.
-/

namespace Mustache

namespace Engine

variable {σ : Type} {e : Engine σ} {holds : σ → String → Artifact → Prop} {s s' : Store σ}

/-! ### Trees in play -/

/-- The trees that a render can print from: that of the template, and those of sources that the
loader of partials supplies. -/
def InPlay (e : Engine σ) (s : Store σ) (tree other : List Node) : Prop :=
  other = tree ∨ ∃ source, Supplies e s source ∧ e.parse source = .ok other

/-- The nodes of a tree that escapes every interpolation and has no text with `c`. -/
theorem fine_of_parse {source : String} {tree : List Node} {c : Char}
    (h : e.parse source = .ok tree) (hspace : Text.isSpace c = false)
    (hraw : ∀ name line, ¬ (Node.interpolation name false line).In tree)
    (htext : ∀ text, (Node.text text).In tree → c ∉ text.toList) {n : Node} (hn : n.In tree) :
    n.Fine (· ≠ c) := by
  have hregular := regular_of_parse h hn
  refine ⟨?_, ?_, ?_, hregular.blocks⟩
  · rintro text rfl d hd rfl
    exact htext text hn hd
  · rintro name line rfl
    exact absurd hn (hraw name line)
  · rintro own hown d hd rfl
    have hblank := List.all_eq_true.mp (hregular.blank own hown) d hd
    rw [hspace] at hblank
    cases hblank

/-- A template of such a tree puts out no `c` if the escape encodes it. -/
theorem prints_of_compiled {mode : QuoteMode} (hescape : e.escape = .html mode)
    (hstrict : e.config.strictCallables = true) {t : Template} {tree : List Node}
    (ht : e.Compiled t tree) {c : Char} (hc : Html.Encodes mode c)
    (hraw : ∀ name line, ¬ (Node.interpolation name false line).In tree)
    (htext : ∀ text, (Node.text text).In tree → c ∉ text.toList) : t.Prints (· ≠ c) := by
  have hfine : ∀ n : Node, n.In tree → n.Fine (· ≠ c) :=
    fun n hn => fine_of_parse ht.parse hc.not_isSpace hraw htext hn
  obtain ⟨steps, hsteps, hprints⟩ :=
    Template.exists_compile hfine (e.compileOptions (e.cacheKey t.source)) t.name t.source
  have heq := Except.ok.inj (hsteps.symm.trans ht.compile)
  rw [← heq]
  refine ⟨hstrict, fun text d hd hdc => ?_, hprints⟩
  change d ∈ (e.escape.apply text).toList at hd
  rw [hescape, hdc] at hd
  exact Html.notMem_escape hc text hd

/-! ### Renders -/

/-- What holds of the stores in a render from `s`: they are reached by loading partials, and know
only what was known and what is supplied. -/
structure Supplied (e : Engine σ) (holds : σ → String → Artifact → Prop) (s s' : Store σ) :
    Prop where
  loads : LoadsPartials e s s'
  sound : e.Sound holds s'
  knows : ∀ {key source}, Knows holds s' key source → Knows holds s key source ∨ Supplies e s source

theorem supplied_loadPartial (hcache : e.cache.Lawful holds) (h : e.Supplied holds s s')
    (name : String) : e.Supplied holds s (left (e.loadPartial name) s') := by
  refine ⟨h.loads.tail ⟨name, rfl⟩, ?_, ?_⟩
  · rcases left_loadPartial e name s' with heq | ⟨source, -, heq⟩
    · rw [heq]
      exact h.sound
    · rw [heq]
      exact sound_of_compiling hcache.remembers h.sound
        (compiling_compileWith e e.cache name source s')
  · intro key other hknows
    rcases left_loadPartial e name s' with heq | ⟨source, hsource, heq⟩
    · rw [heq] at hknows
      exact h.knows hknows
    · rw [heq] at hknows
      rcases knows_of_compiling hcache.remembers
          (compiling_compileWith e e.cache name source s') hknows with hbefore | ⟨-, rfl⟩
      · exact h.knows hbefore
      · exact Or.inr ⟨name, s', h.loads, hsource⟩

/-- A partial is what a supplied source compiles to, unless another source was known under the
key of one. -/
theorem exists_supplied_of_loadPartial (hcache : e.cache.Lawful holds)
    (hdistinct : ∀ source, Supplies e s source → ∀ other,
      Knows holds s (e.cacheKey source) other → other = source)
    (h : e.Supplied holds s s') {name : String} {t : Template}
    (hfound : result (e.loadPartial name) s' = .ok (some t)) :
    Supplies e s t.source ∧ ∃ tree, e.Compiled t tree := by
  obtain ⟨source, hsource, hresult⟩ := exists_source_of_loadPartial hfound
  have hsupplies : Supplies e s source := ⟨name, s', h.loads, hsource⟩
  obtain ⟨-, hcompiled, hown | hknows⟩ :=
    compiled_of_compiling hcache.remembers h.sound (compiling_of_result hresult)
  · exact ⟨hown ▸ hsupplies, hcompiled⟩
  · rcases h.knows hknows with hbefore | hlater
    · exact ⟨hdistinct source hsupplies _ hbefore ▸ hsupplies, hcompiled⟩
    · exact ⟨hlater, hcompiled⟩

/-- **Escaped templates put out no markup of the data.** If all trees in play escape every
interpolation, then a character of the output that the escape encodes is in a text of one of
them. -/
theorem exists_text_of_mem_renderTemplate {mode : QuoteMode} (hescape : e.escape = .html mode)
    (hstrict : e.config.strictCallables = true) (hcache : e.cache.Lawful holds)
    (hs : e.Sound holds s)
    (hdistinct : ∀ source, Supplies e s source → ∀ other,
      Knows holds s (e.cacheKey source) other → other = source)
    {t : Template} {tree : List Node} (ht : e.Compiled t tree)
    (hraw : ∀ other, InPlay e s tree other →
      ∀ name line, ¬ (Node.interpolation name false line).In other)
    {data : Value} (hdata : ¬ data.HasCallable)
    (hhelpers : ∀ entry ∈ s.helpers, ¬ entry.2.HasCallable) {out : String}
    (hout : result (e.renderTemplate t data) s = .ok out) {c : Char}
    (hc : Html.Encodes mode c) (hmem : c ∈ out.toList) :
    ∃ other text, InPlay e s tree other ∧ (Node.text text).In other ∧ c ∈ text.toList := by
  by_contra hnone
  have htext : ∀ other, InPlay e s tree other → ∀ text, (Node.text text).In other →
      c ∉ text.toList :=
    fun other hplay text hin hmem => hnone ⟨other, text, hplay, hin, hmem⟩
  have hprints : ∀ {t' tree'}, e.Compiled t' tree' → InPlay e s tree tree' →
      t'.Prints (· ≠ c) := fun ht' hplay =>
    prints_of_compiled hescape hstrict ht' hc (hraw _ hplay) (htext _ hplay)
  have hplain : Render.Plain e (e.Supplied holds s) (· ≠ c) fun _ => True := by
    refine ⟨?_, fun name s' h => supplied_loadPartial hcache h name, ?_, ?_, ?_⟩
    · rintro rfl
      exact absurd hc.not_isSpace (by decide)
    · intro name s' t' h hfound
      obtain ⟨hsupplies, tree', ht'⟩ := exists_supplied_of_loadPartial hcache hdistinct h hfound
      exact hprints ht' (Or.inr ⟨t'.source, hsupplies, ht'.parse⟩)
    · exact fun _ _ _ _ _ => trivial
    · exact fun _ _ => trivial
  have hown := hprints ht (Or.inl rfl)
  have hrun := Render.faithful_renderLevels hplain (e.config.maxDepth + 1) t "" t.steps "" hown
    madeOf_empty hown.steps madeOf_empty (startState s data)
    ⟨inert_startScopes hdata hhelpers, (fun _ hos => nomatch hos), .refl, hs, Or.inl⟩
  cases h : Render.renderLevels e (e.config.maxDepth + 1) t "" t.steps "" (startState s data) with
  | ok out' r =>
    rw [h] at hrun
    rw [result_of_ok (renderTemplate_of_ok h)] at hout
    rw [Except.ok.inj hout] at hrun
    exact hrun.2 c hmem rfl
  | error err r =>
    rw [result_of_error (renderTemplate_of_error h)] at hout
    cases hout

/-- A partial that puts a value behind a character of its own. -/
theorem exists_text_of_mem_renderTemplate_partial :
    let e := plainEngine [("p", "<\x7b\x7bx\x7d\x7d")]
    ∃ other text, InPlay e (freshStore [] ()) [.partialNode "p" false (some "") 1] other ∧
      (Node.text text).In other ∧ '<' ∈ text.toList := by
  intro e
  let t : Template := ⟨"t", e.cacheKey "\x7b\x7b>p\x7d\x7d", "\x7b\x7b>p\x7d\x7d",
    .html .compat, true, [.partialStep (.fixed "p") (some "")]⟩
  have hsound : e.Sound (fun _ _ _ => False) (freshStore [] ()) :=
    sound_freshStore False.elim []
  have hcompile : ∀ key, Template.compile (e.compileOptions key) "t" "\x7b\x7b>p\x7d\x7d"
      [.partialNode "p" false (some "") 1] = .ok { t with key } := fun _ => rfl
  have ht : e.Compiled t [.partialNode "p" false (some "") 1] := ⟨by cbv, hcompile _⟩
  have hparse : e.parse "<\x7b\x7bx\x7d\x7d" = .ok [.text "<", .interpolation "x" true 1] := by cbv
  have hout : (result (e.renderTemplate t (.map [("x", .string "<i>")])) (freshStore [] ())) =
      .ok "<&lt;i&gt;" := by
    decide +kernel
  refine exists_text_of_mem_renderTemplate rfl rfl (Cache.lawful_none _) hsound ?_ ht ?_ ?_ ?_
    hout (Or.inl rfl) (by decide)
  · rintro source hsource other (⟨t', hfind, hother⟩ | ⟨a, hheld, hother⟩)
    · cases hfind
    · exact hheld.elim
  · rintro other (rfl | ⟨source, hsource, hother⟩) name line hin
    · simp [Node.In.cons_iff, Node.not_in_nil, Node.children] at hin
    · obtain ⟨name, hmem⟩ := exists_mem_of_supplies rfl hsource
      obtain ⟨-, rfl⟩ := Prod.mk.inj (List.mem_singleton.mp hmem)
      rw [hparse] at hother
      obtain rfl := Except.ok.inj hother
      simp [Node.In.cons_iff, Node.not_in_nil, Node.children] at hin
  · intro h
    cases h with
    | entry hmem h =>
      rw [(Prod.mk.inj (List.mem_singleton.mp hmem)).2] at h
      cases h
  · exact fun _ hmem => absurd hmem List.not_mem_nil

end Engine

end Mustache
