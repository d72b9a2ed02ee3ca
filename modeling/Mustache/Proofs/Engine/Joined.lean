import Mustache.Proofs.Engine.Strict
import Mustache.Proofs.Node.Joined
import Mustache.Proofs.Render.Onto
import Mustache.Proofs.Render.Switched
import Mustache.Proofs.Template.Joined
import Mustache.Proofs.Token.Joined

/-!
One template behind another. Behind a source that ends in a newline and changes neither pragmas nor
delimiters a second one compiles as it does alone, and what the two together put out is what they
put out one after the other. It may be otherwise where a text in a parent tag takes the beginning of
a line from what follows the tag, and where a standalone block is overridden by blanks alone. Main
statement: `renderTemplate_append`.
-/

namespace Mustache

variable {σ : Type}

namespace Engine

open Render Relation

section

variable (e : Engine σ)

/-- What stands behind the source begins a line of output. -/
def LeavesLineStart (source : String) : Prop :=
  ∃ tree, e.parse source = .ok tree ∧
    Template.leavesLineStart (e.compileOptions (e.cacheKey source)) source tree = true

/-- The first text or variable of the source, if there is one, is not in a parent tag. -/
def BeginsOutside (source : String) : Prop :=
  ∃ tree, e.parse source = .ok tree ∧ Node.anyFirstInParent? tree ≠ some true

/-- The source ends in a newline, and holds neither a pragma nor a change of delimiters. -/
structure IsLines (source : String) : Prop where
  ends : source.toList.getLast? = some '\n'
  plain : ∀ ts, e.tokenize source = .ok ts →
    ∀ u ∈ ts, u.kind ≠ .pragma ∧ u.kind ≠ .delimiters

end

variable {e : Engine σ} {name first second : String} {t₁ t₂ : Template}

/-- Without pragma tags, the pragmas of the engine stay in force. -/
theorem foldl_enables_of_plain {s : PragmaSet} {ts : List Token} {tree : List Node}
    (htree : Node.ofTokens s ts = .ok tree) (hplain : ∀ u ∈ ts, u.kind ≠ .pragma) :
    (Node.outlineAll tree).foldl Node.enables s = s := by
  obtain ⟨htags, houtline⟩ := Node.outlineAll_eq_visits htree
  have hvisits : ∀ v ∈ Node.visits s ts, v.tag.kind ≠ .pragma := by
    intro v hv
    exact hplain v.tag (htags ▸ List.mem_map_of_mem hv)
  rw [houtline]
  generalize Node.visits s ts = vs at hvisits
  induction vs with
  | nil => rfl
  | cons v vs ih =>
    obtain ⟨hv, hvs⟩ := List.forall_mem_cons.mp hvisits
    rw [List.flatMap_cons, List.foldl_append, Node.enables_leaves, if_neg fun h => hv h.1]
    exact ih hvs

theorem compiled_eq_ok_iff {source : String} {t : Template} :
    e.compiled name source = .ok t ↔ ∃ ts tree, Token.scan e.delimiters source = .ok ts ∧
      Node.ofTokens e.pragmas ts = .ok tree ∧
      Template.compile (e.compileOptions (e.cacheKey source)) name source tree = .ok t := by
  unfold compiled parse tokenize
  cases Token.scan e.delimiters source with
  | error err => exact ⟨(nomatch ·), fun ⟨_, _, h, _⟩ => nomatch h⟩
  | ok ts =>
    cases htree : Node.ofTokens e.pragmas ts with
    | error err =>
      constructor
      · intro h
        simp only [bind, Except.bind, htree] at h
        cases h
      · rintro ⟨_, _, hscan, htree', -⟩
        rw [← Except.ok.inj hscan, htree] at htree'
        cases htree'
    | ok tree =>
      simp only [bind, Except.bind, htree]
      constructor
      · exact fun h => ⟨ts, tree, rfl, htree, h⟩
      · rintro ⟨_, _, hscan, htree', h⟩
        obtain rfl := Except.ok.inj hscan
        obtain rfl := Except.ok.inj (htree.symm.trans htree')
        exact h

/-- A source behind lines compiles as it does alone, to the steps of the lines and then its own.
These may lack marks where the lines do not leave the beginning of a line. -/
theorem compiled_append (hd : e.delimiters.Writable) (hlines : e.IsLines first)
    (h₁ : e.compiled name first = .ok t₁) (h₂ : e.compiled name second = .ok t₂) :
    ∃ t steps, e.compiled name (first ++ second) = .ok t ∧ LooksLike t t₁ ∧ LooksLike t t₂ ∧
      t.steps = t₁.steps ++ steps ∧
      (e.LeavesLineStart first → steps = t₂.steps) ∧
      (e.BeginsOutside second → Step.allUnmarked steps = Step.allUnmarked t₂.steps) := by
  obtain ⟨ts, tree, hscan, htree, hcompile⟩ := compiled_eq_ok_iff.mp h₁
  obtain ⟨us, tree', hscan', htree', hcompile'⟩ := compiled_eq_ok_iff.mp h₂
  have hplain := hlines.plain ts hscan
  have hscanned := Token.scan_append hd hscan (.inr hlines.ends) (fun u hu => (hplain u hu).2) hscan'
  have hmoved := Node.ofTokens_moved (Text.byteLength first.toList) (Text.newlines first.toList)
    e.pragmas us
  rw [Node.run_of_ofTokens htree'] at hmoved
  have hparsed := Node.ofTokens_append htree (fun u hu => (hplain u hu).1) hmoved
  obtain ⟨steps, hsteps, hleaves, hbegins⟩ := Template.compile_append (e.cacheKey second)
    (e.cacheKey (first ++ second)) (fun n => Node.stopsBy_of_ofTokens hscan htree)
    (foldl_enables_of_plain htree fun u hu => (hplain u hu).1)
    (Template.fine_of_ofTokens hscan' htree') hcompile hcompile'
  obtain ⟨steps₁, -, -, rfl⟩ := Template.compile_eq_ok_iff.mp hcompile
  obtain ⟨steps₂, -, -, rfl⟩ := Template.compile_eq_ok_iff.mp hcompile'
  refine ⟨_, steps, compiled_eq_ok_iff.mpr ⟨_, _, hscanned, hparsed, hsteps⟩, ⟨rfl, rfl, rfl⟩,
    ⟨rfl, rfl, rfl⟩, rfl, ?_, ?_⟩
  · rintro ⟨_, hparse, hleft⟩
    obtain rfl := Except.ok.inj ((parse_of_scan hscan htree).symm.trans hparse)
    exact hleaves hleft
  · rintro ⟨_, hparse, hfirst⟩
    obtain rfl := Except.ok.inj ((parse_of_scan hscan' htree').symm.trans hparse)
    exact hbegins hfirst

/-- A render ends where another one of the same data would start. -/
theorem eq_startState {t : Template} {data : Value} {s : Store σ} {out : String}
    {r : Render.State σ} (h : renderLevels e (e.config.maxDepth + 1) t "" t.steps ""
      (startState s data) = .ok out r) : r = startState r.store data := by
  have hplace := (compositional_restores e).renderLevels (e.config.maxDepth + 1) t "" t.steps ""
    (startState s data)
  have hhelpers := (lasting_helpers e s.helpers).compositional.renderLevels
    (e.config.maxDepth + 1) t "" t.steps "" (startState s data) rfl
  rw [after_of_ok h] at hplace hhelpers
  obtain ⟨store, scopes, overrides, depth⟩ := r
  obtain ⟨rfl, rfl, rfl⟩ := hplace
  unfold startState
  rw [show store.helpers = s.helpers from hhelpers]

/-- What a template puts out, it puts onto any output that it does not notice. -/
theorem renderSteps_onto {t : Template} {data : Value} {s : Store σ} {out o : String}
    {r : Render.State σ} (hrun : renderLevels e (e.config.maxDepth + 1) t "" t.steps ""
      (startState s data) = .ok o r) (h : (e.startPlace t data s).Unaware e out) :
    renderSteps e (renderLevels e e.config.maxDepth) t "" t.steps out (startState s data) =
      .ok (out ++ o) r := by
  have honto := grown_run h
  rw [show (e.startPlace t data s).run e = .ok o r from hrun] at honto
  change EndAs (Grown "" out) (.ok o r) (renderSteps e (renderLevels e e.config.maxDepth) t ""
    t.steps out (startState s data)) at honto
  cases hother : renderSteps e (renderLevels e e.config.maxDepth) t "" t.steps out
      (startState s data) with
  | ok a r' =>
    rw [hother] at honto
    obtain ⟨rfl, x, rfl, rfl⟩ := honto
    rw [String.empty_append]
  | error err r' =>
    rw [hother] at honto
    exact honto.elim

/-- **Rendering is compositional at line boundaries.** Behind lines, a source compiles if it does
alone, and the two together put out what they put out one after the other, the second from where the
first leaves the engine; unless the lines do not leave the beginning of a line to a text in a parent
tag, or blanks are moved behind an output that ends in a newline. For whatever steps put out depends
on what was put out before only where they move blanks, and only by its final newline. -/
theorem renderTemplate_append (hd : e.delimiters.Writable) (hlines : e.IsLines first)
    (h₁ : e.compiled name first = .ok t₁) (h₂ : e.compiled name second = .ok t₂) :
    (∃ t, e.compiled name (first ++ second) = .ok t ∧
      (e.LeavesLineStart first ∨ e.BeginsOutside second →
        ∀ data s o₁ s₁ o₂ s₂, e.renderTemplate t₁ data s = .ok o₁ s₁ →
          e.renderTemplate t₂ data s₁ = .ok o₂ s₂ → (e.startPlace t₂ data s₁).Unaware e o₁ →
          e.renderTemplate t data s = .ok (o₁ ++ o₂) s₂)) ∧
    ∀ (p : Place σ) (out' : String), p.Unaware e out' →
      EndAs (Grown p.out out') (p.run e) (Place.run e { p with out := out' }) := by
  refine ⟨?_, fun p out' h => grown_run h⟩
  obtain ⟨t, steps, ht, hlike₁, hlike₂, hsteps, hleaves, hbegins⟩ :=
    compiled_append hd hlines h₁ h₂
  refine ⟨t, ht, fun hmarks data s o₁ s₁ o₂ s₂ hrun₁ hrun₂ hunaware => ?_⟩
  obtain ⟨r₁, hr₁, rfl⟩ := renderTemplate_eq_ok_iff.mp hrun₁
  obtain ⟨r₂, hr₂, rfl⟩ := renderTemplate_eq_ok_iff.mp hrun₂
  have hsecond : renderSteps e (renderLevels e e.config.maxDepth) t "" steps =
      renderSteps e (renderLevels e e.config.maxDepth) t₂ "" t₂.steps := by
    rw [renderSteps_congr hlike₂ (renderLevels_congr hlike₂ _)]
    rcases hmarks with hleft | hbegin
    · rw [hleaves hleft]
    · rw [← renderSteps_unmarked, hbegins hbegin, renderSteps_unmarked]
  refine renderTemplate_eq_ok_iff.mpr ⟨r₂, ?_, rfl⟩
  rw [hsteps, renderLevels, renderSteps_append]
  have hfirst : renderSteps e (renderLevels e e.config.maxDepth) t "" t₁.steps ""
      (startState s data) = .ok o₁ r₁ := by
    rw [renderSteps_congr hlike₁ (renderLevels_congr hlike₁ _)]
    exact hr₁
  rw [bind_of_ok _ hfirst, hsecond, eq_startState hr₁]
  exact renderSteps_onto hr₂ hunaware

/-- A partial that ends without a newline leaves the moved blanks behind it to themselves. -/
theorem renderTemplate_append_blanks :
    let e := blocksEngine [("p", "a"), ("q", "\x7b\x7b$b\x7d\x7d\n\x7b\x7b/b\x7d\x7d\n")]
    let first := "\x7b\x7b>p\x7d\x7d\n"
    let second := "\x7b\x7b<q\x7d\x7d\n\x7b\x7b$b\x7d\x7d\n\x7b\x7bx\x7d\x7d\x7b\x7b/b\x7d\x7d\n" ++
      "\x7b\x7b/q\x7d\x7d"
    let data : Value := .map [("x", .string "  ")]
    ∃ t, e.compiled "t" (first ++ second) = .ok t ∧
      result (e.renderTemplate t data) (freshStore [] ()) = .ok "a\n" := by
  intro e first second data
  have hscan : e.tokenize first =
      .ok [⟨.partialTag, "p", 1, 0, 6, Delimiters.standard, some ""⟩] := by
    decide +kernel
  have hlines : e.IsLines first := by
    refine ⟨by decide, fun ts hts u hu => ?_⟩
    obtain rfl := Except.ok.inj (hscan.symm.trans hts)
    obtain rfl := List.mem_singleton.mp hu
    decide
  have hscan' : e.tokenize second = .ok
      [⟨.parent, "q", 1, 0, 6, Delimiters.standard, some ""⟩,
        ⟨.block, "b", 2, 7, 13, Delimiters.standard, some ""⟩,
        ⟨.escaped, "x", 3, 14, 19, Delimiters.standard, none⟩,
        ⟨.close, "b", 3, 19, 25, Delimiters.standard, none⟩,
        ⟨.text, "\n", 3, 25, 26, Delimiters.standard, none⟩,
        ⟨.close, "q", 4, 26, 32, Delimiters.standard, none⟩] := by
    decide +kernel
  have h₁ : e.compiled "t" first = .ok ⟨"t", e.cacheKey first, first, .html .compat, true,
      [.partialStep (.fixed "p") (some "")]⟩ :=
    compiled_eq_ok_iff.mpr ⟨_, [.partialNode "p" false (some "") 1], hscan, by cbv, rfl⟩
  have h₂ : e.compiled "t" second = .ok ⟨"t", e.cacheKey second, second, .html .compat, true,
      [.parent "q" (some "")
        [⟨"b", true, [.interpolation ⟨"x", []⟩ true false true]⟩]]⟩ :=
    compiled_eq_ok_iff.mpr ⟨_, [.parent "q" (some "")
      [.block "b" [.interpolation "x" true 3] (some "") 2] 1], hscan', by cbv, rfl⟩
  obtain ⟨⟨t, ht, hrender⟩, -⟩ := renderTemplate_append Delimiters.writable_standard hlines h₁ h₂
  refine ⟨t, ht, ?_⟩
  have hleaves : e.LeavesLineStart first := ⟨_, parse_of_scan hscan (by cbv), rfl⟩
  have hboth := hrender (.inl hleaves) data (freshStore [] ()) "a" _ "\n" _
    (ok_of_result (by decide +kernel)) (ok_of_result (by decide +kernel)) (.inl (by decide))
  exact (result_of_ok hboth).trans (by decide)

/-- The blanks that override a block leave a newline behind where they begin the output, and none
where they follow a line. -/
theorem moved_blanks_behind_line :
    let e := blocksEngine [("p", "\x7b\x7b$b\x7d\x7d\n\x7b\x7b/b\x7d\x7d\n")]
    let first := "a\n"
    let second := "\x7b\x7b<p\x7d\x7d\n\x7b\x7b$b\x7d\x7d\n\x7b\x7bx\x7d\x7d\x7b\x7b/b\x7d\x7d\n\x7b\x7b/p\x7d\x7d"
    let data : Value := .map [("x", .string "  ")]
    e.IsLines first ∧
      result (e.render first data) (freshStore [] ()) = .ok "a\n" ∧
      result (e.render second data) (freshStore [] ()) = .ok "\n" ∧
      result (e.render (first ++ second) data) (freshStore [] ()) = .ok "a\n" := by
  intro e first second data
  have hscan : e.tokenize first = .ok [⟨.text, "a\n", 1, 0, 2, Delimiters.standard, none⟩] := by
    decide +kernel
  refine ⟨⟨by decide, fun ts hts u hu => ?_⟩, by decide +kernel⟩
  obtain rfl := Except.ok.inj (hscan.symm.trans hts)
  obtain rfl := List.mem_singleton.mp hu
  decide

/-- The newline in the parent tag of the first source takes the beginning of the line from the
second. -/
example :
    let e := blocksEngine [("p", "x\x7b\x7b$b\x7d\x7d\x7b\x7b/b\x7d\x7d\n"), ("q", "\x7b\x7b$c\x7d\x7d\x7b\x7b/c\x7d\x7d")]
    let first := "\x7b\x7b<q\x7d\x7d\x7b\x7b$c\x7d\x7dbar\x7b\x7b/c\x7d\x7d\n\x7b\x7b/q\x7d\x7d\n"
    let second := "  \x7b\x7b<p\x7d\x7d\n\x7b\x7b$b\x7d\x7dfoo\x7b\x7b/b\x7d\x7d\n  \x7b\x7b/p\x7d\x7d\n"
    result (e.render first .null) (freshStore [] ()) = .ok "bar\n" ∧
      result (e.render second .null) (freshStore [] ()) = .ok "  x  foo\n" ∧
      result (e.render (first ++ second) .null) (freshStore [] ()) = .ok "bar\n  xfoo\n" := by
  decide +kernel

end Engine

end Mustache
