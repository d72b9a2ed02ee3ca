import Mustache.Proofs.Engine.Joined
import Mustache.Proofs.Engine.Shelf
import Mustache.Proofs.Render.Indented
import Mustache.Proofs.Render.Lower

/-!
The indent of a standalone partial, in whole sources. Where each line of a partial puts an indent
out once, the partial is rendered as if the indent stood in front of each line of its source, but
one level further down. Main statement: `renderTemplate_standalonePartial`.
-/

namespace Mustache

/-! ### Templates -/

namespace Engine

open Render
open Token (IsIndent IsTagName standalonePartial)

variable {σ : Type}

/-- No tag of the source goes over the end of a line, none enables blocks, and each line puts an
indent in front of it out once. Before they are settled, the tokens of the source are `ts`. -/
structure Indentable (e : Engine σ) (source : String) (ts : List Token) : Prop where
  pieces : Token.pieces e.delimiters ⟨0, 1⟩ source.toList = .ok ts
  withinLines : ∀ t ∈ ts, t.isText = false →
    ∀ lexeme ∈ Text.sliceBytes? t.start t.stop source.toList, '\n' ∉ lexeme
  blocksOff : (e.pragmas.through ts).contains .blocks = false
  once : ∀ line ∈ Token.splitLines ts, Token.indentsOnce line = true

variable {e : Engine σ} {w p source : String}

theorem parse_eq_ofTokens {ts : List Token} (hscan : Token.scan e.delimiters source = .ok ts) :
    e.parse source = Node.ofTokens e.pragmas ts := by
  unfold parse tokenize
  rw [hscan]
  rfl

theorem compile_of_compileNodes {tree : List Node} {steps : List Step} {walk : Template.Walk}
    (h : Template.compileNodes source.toList e.config.strictVariables tree ⟨e.pragmas, true⟩ =
      .ok (steps, walk)) (name : String) :
    Template.compile (e.compileOptions (e.cacheKey source)) name source tree =
      .ok ⟨name, e.cacheKey source, source, e.escape, e.config.strictCallables, steps⟩ :=
  Template.compile_eq_ok_iff.mpr ⟨steps, walk, h, rfl⟩

theorem helpers_of_loadPartial {s s₁ : Store σ} {q : Option Template}
    (hload : e.loadPartial p s = .ok q s₁) : s₁.helpers = s.helpers := by
  have hkept := (lasting_helpers e s.helpers).loadPartial p s rfl
  rwa [left_of_ok hload] at hkept

theorem compiled_standalonePartial (hd : e.delimiters.Writable) (hw : IsIndent w.toList)
    (hp : IsTagName e.delimiters p) (name : String) :
    ∃ t, e.compiled name (standalonePartial e.delimiters w p) = .ok t ∧
      t.steps = [.partialStep (.fixed p) (some w)] := by
  obtain ⟨start, stop, hscan⟩ := Token.scan_standalonePartial hd hw hp
  have hread : Node.Reading.of e.pragmas (Node.underParent none)
      ⟨.partialTag, p, 1, start, stop, e.delimiters, some w⟩ =
        .leaf (.partialNode p false (some w) 1) := by
    simp [Node.Reading.of, Node.underParent]
  have htree : Node.ofTokens e.pragmas
      [⟨.partialTag, p, 1, start, stop, e.delimiters, some w⟩] =
        .ok [.partialNode p false (some w) 1] := by
    rw [Node.ofTokens, Node.forest_leaf hread, Node.forest_nil_none]
    rfl
  exact ⟨_, compiled_eq_ok_iff.mpr ⟨_, _, hscan, htree, rfl⟩, rfl⟩

/-- A source with an indent in front of each line has the errors of the source, and compiles to its
steps but for the indent. -/
theorem agree_compiled_indentLines (hd : e.delimiters.Writable) (hw : IsIndent w.toList)
    {ts : List Token} (h : e.Indentable source ts) (name pname : String) :
    Agree Eq (fun q t => t.escape = q.escape ∧ t.strictCallables = q.strictCallables ∧
        ∃ m, Step.Indents w .ahead q.steps t.steps m ∧ m ≠ .written)
      (e.compiled pname source)
      (e.compiled name (String.ofList (Text.indentLines w.toList source.toList))) := by
  obtain ⟨hoff, hspares⟩ := Token.sparesBlocks_of_through h.blocksOff
  obtain ⟨us, hscan', hindents⟩ := Token.exists_indents_scan hw hd h.pieces
    (Token.tagsWithinLines_of_slices h.withinLines) hspares h.once
  have hscan : Token.scan e.delimiters source = .ok (Token.settle ts) := by
    rw [Token.scan, h.pieces]
  have htrees := Node.agree_ofTokens_indents hoff hindents
  unfold compiled
  rw [parse_eq_ofTokens hscan, parse_eq_ofTokens hscan']
  cases hr : Node.ofTokens e.pragmas (Token.settle ts) <;>
    cases hr' : Node.ofTokens e.pragmas us <;> rw [hr, hr'] at htrees
  · exact htrees
  · exact htrees.elim
  · exact htrees.elim
  · rename_i tree tree'
    obtain ⟨m, htrees, hm⟩ := htrees
    have hends : Template.endsInNewline w = false := by
      simpa [Template.endsInNewline] using Token.getLast?_ne_newline hw
    obtain ⟨steps, steps', s', hsteps, hsteps', hindents⟩ :=
      Template.exists_compileNodes_indents hends htrees source.toList
        (String.ofList (Text.indentLines w.toList source.toList)).toList e.config.strictVariables
        e.pragmas
    simp only [bind, Except.bind]
    rw [compile_of_compileNodes hsteps pname, compile_of_compileNodes hsteps' name]
    exact ⟨rfl, rfl, m, hindents, hm⟩

/-! ### Renders -/

theorem renderLevels_standalonePartial {t q : Template} {s s₁ : Store σ}
    (hsteps : t.steps = [.partialStep (.fixed p) (some w)])
    (hload : e.loadPartial p s = .ok (some q) s₁) (data : Value) :
    renderLevels e (e.config.maxDepth + 1) t "" t.steps "" (startState s data) =
      entering e.config.maxDepth p (renderLevels e (e.config.maxDepth + 1) q w q.steps "")
        (startState s₁ data) := by
  have hloaded : onStore (e.loadPartial p) (startState s data) =
      .ok (some q) (startState s₁ data) := by
    unfold onStore startState
    rw [hload, helpers_of_loadPartial hload]
  conv_lhs => rw [renderLevels_recursion, hsteps, renderSteps_singleton, renderStep]
  rw [show partialName (.fixed p) = (pure p : RenderM σ String) from rfl, pure_bind,
    bind_of_ok _ hloaded]
  dsimp only
  rw [innerIndent, String.empty_append]

/-- A standalone partial renders as a template that does behind the indent what the partial does,
or comes to the limit. -/
theorem renderTemplate_of_partialStep {t t' q : Template} {data : Value} {s s₁ : Store σ}
    (hsteps : t.steps = [.partialStep (.fixed p) (some w)])
    (hload : e.loadPartial p s = .ok (some q) s₁)
    (hcallables : ∀ v ∈ (startState s₁ data).scopes, v.CallablesIn fun _ => False)
    (hsame : renderLevels e (e.config.maxDepth + 1) q w q.steps "" (startState s₁ data) =
      renderLevels e (e.config.maxDepth + 1) t' "" t'.steps "" (startState s₁ data)) :
    (∃ err s', e.renderTemplate t data s = .error err s' ∧ err.isRecursionLimit) ∨
      e.renderTemplate t data s = e.renderTemplate t' data s₁ := by
  have hrender := renderLevels_standalonePartial hsteps hload data
  rcases Nat.lt_or_ge 0 e.config.maxDepth with hlimit | hlimit
  · rw [entering_of_lt hlimit] at hrender
    have hlower : Lower 0 (startState s₁ data).entered (startState s₁ data) :=
      ⟨rfl, rfl, rfl, rfl, rfl, hcallables⟩
    have hfollows := follows_renderLevels_lower e (e.config.maxDepth + 1) q w q.steps "" _ _ hlower
    rw [hsame] at hfollows
    cases hrun : renderLevels e (e.config.maxDepth + 1) q w q.steps ""
        (startState s₁ data).entered with
    | ok out r =>
      rw [hrun] at hfollows
      obtain ⟨r', hrun', hr, -⟩ := hfollows
      right
      rw [renderTemplate_of_ok (hrender.trans (between_of_ok hrun)), renderTemplate_of_ok hrun',
        hr.store]
    | error err r =>
      rw [hrun] at hfollows
      have hfails := renderTemplate_of_error (hrender.trans (between_of_error hrun))
      rcases hfollows with hgave | ⟨r', hrun', hr⟩
      · exact .inl ⟨err, _, hfails, hgave⟩
      · right
        rw [hfails, renderTemplate_of_error hrun', hr.store]
  · rw [entering_of_le hlimit] at hrender
    exact .inl ⟨_, _, renderTemplate_of_error hrender, rfl⟩

/-- **A standalone partial is indented as if each line of its source were.** The source with the
indent in front of each line compiles if and only if the source of the partial does, and renders to
what the tag renders to, from where loading the partial leaves the engine; unless the tag comes to
the limit on depth, which is one level nearer in a partial. Nothing can be called, for a callable
would see the indents in the bodies of sections. -/
theorem renderTemplate_standalonePartial (hd : e.delimiters.Writable) (hw : IsIndent w.toList)
    (hp : IsTagName e.delimiters p) {ts : List Token} (h : e.Indentable source ts)
    (name pname : String) :
    let source' := String.ofList (Text.indentLines w.toList source.toList)
    ∃ t, e.compiled name (standalonePartial e.delimiters w p) = .ok t ∧
      match e.compiled pname source with
      | .error err => e.compiled name source' = .error err
      | .ok q => ∃ t', e.compiled name source' = .ok t' ∧ ∀ data s s₁,
        data.CallablesIn (fun _ => False) →
        (∀ entry ∈ s.helpers, entry.2.CallablesIn fun _ => False) →
        e.loadPartial p s = .ok (some q) s₁ →
          (∃ err s', e.renderTemplate t data s = .error err s' ∧ err.isRecursionLimit) ∨
            e.renderTemplate t data s = e.renderTemplate t' data s₁ := by
  intro source'
  obtain ⟨t, ht, hsteps⟩ := compiled_standalonePartial hd hw hp name
  refine ⟨t, ht, ?_⟩
  have hagree := agree_compiled_indentLines hd hw h name pname
  cases hq : e.compiled pname source <;> cases ht' : e.compiled name source' <;>
    rw [hq, ht'] at hagree
  · exact congrArg Except.error hagree.symm
  · exact hagree.elim
  · exact hagree.elim
  · rename_i q t'
    obtain ⟨hescape, hstrict, m, hindents, hm⟩ := hagree
    refine ⟨t', rfl, fun data s s₁ hdata hhelpers hload => ?_⟩
    have hcallables : ∀ v ∈ (startState s₁ data).scopes, v.CallablesIn fun _ => False :=
      forall_startScopes hdata (.map (helpers_of_loadPartial hload ▸ hhelpers))
    refine renderTemplate_of_partialStep hsteps hload hcallables ?_
    have hputs : PutsAlike e e.config.maxDepth q t' w "" .ahead m q.steps t'.steps :=
      putsAlike_of_indents hescape hstrict hindents
    have hrun := @hputs "" (startState s₁ data) hcallables
    rw [String.empty_append] at hrun
    exact eq_of_endAs (endAs_mono (fun h => (h.trans (Margin.put_of_ne hm _ _)).symm) hrun)

/-- A partial with a section within a line and a standalone partial of its own. -/
theorem renderTemplate_standalonePartial_nested :
    let source := "a \x7b\x7b#l\x7d\x7d\x7b\x7b.\x7d\x7d,\x7b\x7b/l\x7d\x7d\n" ++
      "  \x7b\x7b> q\x7d\x7d\n"
    let e := { plainEngine [("p", source), ("q", "y\n")] with
      digest := fun bytes => String.ofList (bytes.map Char.ofUInt8) }
    let data := Value.map [("l", .list [.string "1", .string "2"])]
    let s := freshStore [] ()
    ∃ t t' s₁, e.compiled "t" "  \x7b\x7b> p\x7d\x7d" = .ok t ∧
      e.compiled "t" ("  a \x7b\x7b#l\x7d\x7d\x7b\x7b.\x7d\x7d,\x7b\x7b/l\x7d\x7d\n" ++
        "    \x7b\x7b> q\x7d\x7d\n") = .ok t' ∧
      e.renderTemplate t data s = e.renderTemplate t' data s₁ ∧
      result (e.renderTemplate t data) s = .ok "  a 1,2,\n    y\n" := by
  intro source e data s
  have hts : Token.pieces e.delimiters ⟨0, 1⟩ source.toList = .ok
      [⟨.text, "a ", 1, 0, 2, .standard, none⟩, ⟨.sectionTag, "l", 1, 2, 8, .standard, none⟩,
        ⟨.escaped, ".", 1, 8, 13, .standard, none⟩, ⟨.text, ",", 1, 13, 14, .standard, none⟩,
        ⟨.close, "l", 1, 14, 20, .standard, none⟩, ⟨.text, "\n", 1, 20, 21, .standard, none⟩,
        ⟨.text, "  ", 2, 21, 23, .standard, none⟩,
        ⟨.partialTag, "q", 2, 23, 30, .standard, none⟩,
        ⟨.text, "\n", 2, 30, 31, .standard, none⟩] := by
    decide +kernel
  have hindentable : e.Indentable source _ := ⟨hts, by decide +kernel, by decide, by decide⟩
  have hw : IsIndent "  ".toList := ⟨by decide, by simp⟩
  have hp : IsTagName .standard "p" :=
    ⟨⟨by decide, by simp [Text.isSpace], by simp [Text.isSpace]⟩, by simp [Delimiters.standard]⟩
  have hscan : Token.scan e.delimiters source = .ok
      [⟨.text, "a ", 1, 0, 2, .standard, none⟩, ⟨.sectionTag, "l", 1, 2, 8, .standard, none⟩,
        ⟨.escaped, ".", 1, 8, 13, .standard, none⟩, ⟨.text, ",", 1, 13, 14, .standard, none⟩,
        ⟨.close, "l", 1, 14, 20, .standard, none⟩, ⟨.text, "\n", 1, 20, 21, .standard, none⟩,
        ⟨.partialTag, "q", 2, 23, 30, .standard, some "  "⟩] := by
    decide +kernel
  have hparse : e.parse source = .ok
      [.text "a ", .sectionNode "l" false [.interpolation "." true 1, .text ","] 8 14 .standard 1,
        .text "\n", .partialNode "q" false (some "  ") 2] :=
    parse_of_scan hscan (by cbv)
  have hstocked : e.Stocked (fun _ _ _ => False) [source] () s :=
    stocked_freshStore [] fun _ _ => id
  obtain ⟨q, s₁, hload, hq, hcompiled, -⟩ :=
    hstocked.loadPartial (Cache.lawful_none _) (cacheAside_none e)
      (fun x hx y hy _ => by rw [List.mem_singleton.mp hx, List.mem_singleton.mp hy])
      List.mem_cons_self (rfl : e.partials () "p" = _) hparse
  obtain ⟨t, ht, hrender⟩ := renderTemplate_standalonePartial Delimiters.writable_standard hw hp
    hindentable "t" q.name
  have hq' : e.compiled q.name source = .ok q := by
    have hcompile := hcompiled.compile
    rw [hq] at hcompile
    unfold compiled
    rw [hparse]
    exact hcompile
  rw [hq'] at hrender
  obtain ⟨t', ht', hrender⟩ := hrender
  have hdata : data.CallablesIn fun _ => False :=
    .map (List.forall_mem_singleton.mpr (.list (List.forall_mem_cons.mpr
      ⟨.string "1", List.forall_mem_singleton.mpr (.string "2")⟩)))
  have hsource' : String.ofList (Text.indentLines "  ".toList source.toList) =
      "  a \x7b\x7b#l\x7d\x7d\x7b\x7b.\x7d\x7d,\x7b\x7b/l\x7d\x7d\n" ++
        "    \x7b\x7b> q\x7d\x7d\n" := by
    decide +kernel
  rw [hsource'] at ht'
  have hout : result (e.renderTemplate t data) s = .ok "  a 1,2,\n    y\n" := by
    have hscan : Token.scan e.delimiters "  \x7b\x7b> p\x7d\x7d" =
        .ok [⟨.partialTag, "p", 1, 2, 9, .standard, some "  "⟩] := by
      decide +kernel
    have htag : e.compiled "t" _ = .ok _ :=
      compiled_eq_ok_iff.mpr ⟨_, [.partialNode "p" false (some "  ") 1], hscan, by cbv, rfl⟩
    obtain rfl := Except.ok.inj (htag.symm.trans ht)
    decide +kernel
  refine ⟨t, t', s₁, ht, ht', ?_, hout⟩
  refine (hrender data s s₁ hdata (List.forall_mem_nil _) hload).resolve_left ?_
  rintro ⟨err, s', hfails, -⟩
  cases (result_of_error hfails).symm.trans hout

/-- A section that begins a line has the indent in front of each of its items. The same line with
the indent written in its source has it once. -/
theorem standalone_section_indented_twice :
    result ((plainEngine [("p", "\x7b\x7b#l\x7d\x7dx\x7b\x7b/l\x7d\x7d")]).render
        "  \x7b\x7b>p\x7d\x7d" (.map [("l", .list [.string "1", .string "2"])]))
      (freshStore [] ()) = .ok "  x  x" ∧
    result ((plainEngine []).render "  \x7b\x7b#l\x7d\x7dx\x7b\x7b/l\x7d\x7d"
        (.map [("l", .list [.string "1", .string "2"])])) (freshStore [] ()) = .ok "  xx" := by
  decide +kernel

end Engine

end Mustache
