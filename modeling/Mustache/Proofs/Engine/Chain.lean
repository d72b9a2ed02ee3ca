import Mustache.Proofs.Engine.Strict
import Mustache.Proofs.Engine.Keys
import Mustache.Proofs.Engine.Shelf
import Mustache.Proofs.Render.Frames
import Mustache.Proofs.Template.Chain

/-!
Chains of templates that inherit from each other. A render of the first expands one after the other,
and puts into each block of the last the text of the outermost override, whatever the data are. Main
statement: `render_chain`.
-/

namespace Mustache

/-! ### Chains -/

/-- The source of the template at the head of a chain: of its first link, or of the parts at its
end. -/
def chainSource (d : Delimiters) : List Link → List Part → String
  | [], parts => Token.printAll d (parts.flatMap Part.items)
  | l :: _, _ => Token.printAll d l.items

/-- The sources of all templates of a chain. -/
def chainSources (d : Delimiters) : List Link → List Part → List String
  | [], parts => [chainSource d [] parts]
  | l :: links, parts => chainSource d (l :: links) parts :: chainSources d links parts

/-- The override of a name in the first link that has one; in one link the first counts. -/
def chosen? (links : List Link) (name : String) : Option Inset :=
  links.findSome? fun l => l.overrides.find? fun b => b.name == name

/-- The line at the end of a chain, each block with the text of its override, or with its own if it
has none. -/
def filled (links : List Link) : List Part → String
  | [] => ""
  | .text s :: parts => s ++ filled links parts
  | .block b :: parts => ((chosen? links b.name).getD b).text ++ filled links parts

theorem chainSource_mem (d : Delimiters) (before links : List Link) (parts : List Part) :
    chainSource d links parts ∈ chainSources d (before ++ links) parts := by
  induction before with
  | nil => cases links <;> exact List.mem_cons_self
  | cons l before ih => exact List.mem_cons_of_mem _ ih

namespace Render

variable {σ : Type} {e : Engine σ} {links : List Link} {parts : List Part}
  {frames : List (List (Override Step))} {s : State σ}

/-- Overrides in force, innermost first, that are those of the links, outermost first. -/
def FramesOf (links : List Link) (frames : List (List (Override Step))) : Prop :=
  List.Forall₂ (fun l os => List.Forall₂ Inset.Overrides l.overrides os) links frames.reverse

theorem find?_of_overrides {bs : List Inset} {os : List (Override Step)}
    (h : List.Forall₂ Inset.Overrides bs os) (name : String) :
    Option.Rel Inset.Overrides (bs.find? fun b => b.name == name)
      (os.find? fun o => o.name == name) := by
  induction h with
  | nil => exact .none
  | @cons b o bs os hbo _ ih =>
    rw [List.find?_cons, List.find?_cons, hbo.1]
    cases b.name == name with
    | true => exact .some hbo
    | false => exact ih

/-- The override of a block that counts is that of the outermost link. -/
theorem findOverride?_of_framesOf (h : FramesOf links frames) (name : String) :
    Option.Rel Inset.Overrides (chosen? links name) (findOverride? frames name) := by
  unfold chosen? findOverride?
  unfold FramesOf at h
  generalize frames.reverse = outermostFirst at h
  induction h with
  | nil => exact .none
  | @cons l os links _ hos _ ih =>
    rw [List.findSome?_cons, List.findSome?_cons]
    have hfirst := find?_of_overrides hos name
    cases hb : l.overrides.find? fun b => b.name == name with
    | none =>
      rw [hb] at hfirst
      cases ho : os.find? fun o => o.name == name with
      | none => exact ih
      | some o =>
        rw [ho] at hfirst
        cases hfirst
    | some b =>
      rw [hb] at hfirst
      cases ho : os.find? fun o => o.name == name with
      | none =>
        rw [ho] at hfirst
        cases hfirst
      | some o =>
        rw [ho] at hfirst
        exact hfirst

/-! ### Rendering the line -/

theorem renderSteps_text (deeper : Renderer σ) (t : Template) (text : String) (lineStart : Bool)
    (out : String) : renderSteps e deeper t "" [.text text lineStart] out s = .ok (out ++ text) s := by
  rw [renderSteps_singleton, renderStep, ite_self, String.append_empty]
  rfl

theorem renderStep_part (hframes : FramesOf links s.overrides) (hdepth : s.depth < e.config.maxDepth)
    (k : Nat) (t : Template) {p : Part} {step : Step} (h : p.Steps step) (out : String) :
    renderStep e (renderLevels e (k + 1)) t "" step out s = .ok (out ++ filled links [p]) s := by
  cases p with
  | text text =>
    obtain ⟨lineStart, rfl⟩ := h
    rw [filled, filled, String.append_empty, ← renderSteps_singleton, renderSteps_text]
  | block b =>
    obtain ⟨lineStart, rfl⟩ := h
    rw [filled, filled, String.append_empty, renderStep, bind_of_ok _ (get_eq s)]
    have hfound := findOverride?_of_framesOf hframes b.name
    cases hchosen : chosen? links b.name with
    | none =>
      rw [hchosen] at hfound
      cases hoverride : findOverride? s.overrides b.name with
      | none => exact renderSteps_text _ t b.text lineStart out
      | some o =>
        rw [hoverride] at hfound
        cases hfound
    | some c =>
      rw [hchosen] at hfound
      cases hoverride : findOverride? s.overrides b.name with
      | none =>
        rw [hoverride] at hfound
        cases hfound
      | some o =>
        rw [hoverride] at hfound
        obtain ⟨-, hdedent, mark, hsteps⟩ : c.Overrides o := by
          cases hfound with
          | some h => exact h
        dsimp only
        unfold renderOverride
        rw [if_pos ⟨rfl, by rw [hdedent]; rfl⟩, entering_of_lt hdepth, hsteps]
        unfold between
        rw [renderLevels, renderSteps_text]
        rfl

theorem renderSteps_parts (hframes : FramesOf links s.overrides)
    (hdepth : s.depth < e.config.maxDepth) (k : Nat) (t : Template) {steps : List Step}
    (h : List.Forall₂ Part.Steps parts steps) (out : String) :
    renderSteps e (renderLevels e (k + 1)) t "" steps out s =
      .ok (out ++ filled links parts) s := by
  induction h generalizing out with
  | nil =>
    rw [renderSteps, filled, String.append_empty]
    rfl
  | @cons p step parts steps hstep _ ih =>
    rw [renderSteps, bind_of_ok _ (renderStep_part hframes hdepth k t hstep out), ih]
    cases p <;> simp only [filled, String.append_empty, String.append_assoc]

end Render

namespace Engine

open Render

variable {σ : Type} {e : Engine σ} {holds : σ → String → Artifact → Prop} {links : List Link}
  {parts : List Part} {w : σ}

/-- The parent of each link is a partial whose source is that of the rest of the chain. -/
def ServesChain (e : Engine σ) (w : σ) : List Link → List Part → Prop
  | [], _ => True
  | l :: links, parts => e.partials w l.parent = .ok (chainSource e.delimiters links parts) ∧
    e.ServesChain w links parts

/-- All templates of a chain can be written with the delimiters of the engine and read back under
its pragmas. -/
structure FitsChain (e : Engine σ) (links : List Link) (parts : List Part) : Prop where
  delimiters : e.delimiters.Writable
  blocks : e.pragmas.contains .blocks = true
  links : ∀ l ∈ links, l.Fits e.delimiters e.pragmas
  parts : PartsFit e.delimiters e.pragmas parts

theorem exists_parse_chain (h : e.FitsChain links parts) :
    ∃ tree, e.parse (chainSource e.delimiters links parts) = .ok tree ∧
      ∀ {options name source t}, Template.compile options name source tree = .ok t →
        match links with
        | [] => List.Forall₂ Part.Steps parts t.steps
        | l :: _ => ∃ own os, t.steps = [.parent l.parent own os] ∧
          (own = none ∨ own = some "") ∧ List.Forall₂ Inset.Overrides l.overrides os := by
  cases links with
  | nil =>
    obtain ⟨ts, tree, hscan, htree, hmakes⟩ := tree_of_parts h.delimiters h.blocks h.parts
    exact ⟨tree, parse_of_scan hscan htree, steps_of_line hmakes⟩
  | cons l links =>
    obtain ⟨ts, _, own, line, ns, hscan, htree, rfl, hown, hmakes⟩ :=
      tree_of_link h.delimiters h.blocks (h.links l List.mem_cons_self)
    refine ⟨_, parse_of_scan hscan htree, fun hcompile => ?_⟩
    obtain ⟨os, hsteps, hos⟩ := steps_of_link hmakes hcompile
    exact ⟨own, os, hsteps, hown, hos⟩

theorem FitsChain.tail {l : Link} (h : e.FitsChain (l :: links) parts) :
    e.FitsChain links parts :=
  ⟨h.delimiters, h.blocks, fun l' hl => h.links l' (List.mem_cons_of_mem l hl), h.parts⟩

section

variable (hcache : e.cache.Lawful holds) (haside : e.CacheAside e.cache)

include hcache haside

/-- From within a chain, below the links `before`, a render goes on to the line at its end. -/
theorem renderLevels_chain (before : List Link) (hfits : e.FitsChain links parts)
    (hserves : e.ServesChain w links parts)
    (hkeys : e.TellsApart (chainSources e.delimiters (before ++ links) parts)) {t : Template}
    {tree : List Node} (hparse : e.parse (chainSource e.delimiters links parts) = .ok tree)
    (ht : e.Compiled t tree) {s : Render.State σ}
    (hs : e.Stocked holds (chainSources e.delimiters (before ++ links) parts) w s.store)
    (hframes : FramesOf before s.overrides) {k : Nat} (hlevels : k + s.depth = e.config.maxDepth)
    (hdepth : s.depth + links.length < e.config.maxDepth) (out : String) :
    ∃ s', renderLevels e (k + 1) t "" t.steps out s =
      .ok (out ++ filled (before ++ links) parts) s' := by
  induction links generalizing before t tree s k out with
  | nil =>
    obtain ⟨tree', hparse', hsteps⟩ := exists_parse_chain hfits
    obtain rfl := Except.ok.inj (hparse.symm.trans hparse')
    have hhere : s.depth < e.config.maxDepth := hdepth
    obtain ⟨k, rfl⟩ : ∃ k', k = k' + 1 := ⟨k - 1, by omega⟩
    rw [List.append_nil]
    exact ⟨s, renderSteps_parts hframes hhere k t (hsteps ht.compile) out⟩
  | cons l links ih =>
    obtain ⟨tree', hparse', hsteps⟩ := exists_parse_chain hfits
    obtain rfl := Except.ok.inj (hparse.symm.trans hparse')
    obtain ⟨own, os, hstep, hown, hos⟩ := hsteps ht.compile
    obtain ⟨hpartial, hserves⟩ := hserves
    have happend : before ++ l :: links = (before ++ [l]) ++ links := by
      rw [List.append_assoc]
      rfl
    rw [List.length_cons] at hdepth
    have hhere : s.depth < e.config.maxDepth := by omega
    obtain ⟨k, rfl⟩ : ∃ k', k = k' + 1 := ⟨k - 1, by omega⟩
    obtain ⟨treeBelow, hparseBelow, -⟩ := exists_parse_chain hfits.tail
    have hmem : chainSource e.delimiters links parts ∈
        chainSources e.delimiters (before ++ l :: links) parts := by
      rw [happend]
      exact chainSource_mem _ _ links parts
    obtain ⟨p, store, hload, -, hp, hstocked⟩ :=
      hs.loadPartial hcache haside hkeys hmem hpartial hparseBelow
    rw [happend] at hkeys hstocked ⊢
    have hframes' : FramesOf (before ++ [l]) (os :: s.overrides) := by
      unfold FramesOf
      rw [List.reverse_cons]
      exact List.rel_append hframes (.cons hos .nil)
    let inside : Render.State σ :=
      { store, scopes := s.scopes, overrides := os :: s.overrides, depth := s.depth + 1 }
    obtain ⟨s', hbelow⟩ := ih (before ++ [l]) hfits.tail hserves hkeys hparseBelow hp (s := inside)
      hstocked hframes' (by show k + (s.depth + 1) = _; omega)
      (by show s.depth + 1 + _ < _; omega) out
    have hloaded : onStore (e.loadPartial l.parent) s = .ok (some p) { s with store } := by
      unfold onStore
      rw [hload]
    have hindent : innerIndent own "" = "" := by
      rcases hown with rfl | rfl <;> rfl
    refine ⟨{ s' with overrides := s'.overrides.tail, depth := s'.depth - 1 }, ?_⟩
    rw [renderLevels, hstep, renderSteps_singleton, renderStep, bind_of_ok _ hloaded]
    dsimp only
    rw [hindent, entering_of_lt (show State.depth { s with store } < _ from hhere)]
    unfold withOverrides between
    rw [show renderLevels e (k + 1) p "" p.steps out
      { s with store, overrides := os :: s.overrides, depth := s.depth + 1 } = _ from hbelow]

end

/-- **The outermost override wins** through inheritance chains of any length, whatever the data are.
And in all renders the overrides in force are at each place those of the parent tags that are being
expanded there, innermost first. -/
theorem render_chain (hcache : e.cache.Lawful holds) (haside : e.CacheAside e.cache)
    (hfits : e.FitsChain links parts) {name : String}
    (hload : e.loader w name = .ok (chainSource e.delimiters links parts))
    (hserves : e.ServesChain w links parts)
    (hkeys : e.TellsApart (chainSources e.delimiters links parts)) {s : Store σ}
    (hs : e.Stocked holds (chainSources e.delimiters links parts) w s)
    (hdepth : links.length < e.config.maxDepth) (data : Value) :
    result (e.render name data) s = .ok (filled links parts) ∧
      ∀ (t : Template) (data : Value) (s : Store σ) (q : Place σ),
        (Relation.ReflTransGen (Visits e) (e.startPlace t data s) q →
          ∃ frames, Expanding e (e.startPlace t data s) q frames) ∧
        ∀ frames, Expanding e (e.startPlace t data s) q frames → q.state.overrides = frames := by
  constructor
  · obtain ⟨tree, hparse, -⟩ := exists_parse_chain hfits
    obtain ⟨t, s', hloaded, -, ht, hs'⟩ :=
      hs.loadTemplate hcache haside hkeys (chainSource_mem _ [] links parts) hload hparse
    obtain ⟨r, hrun⟩ := renderLevels_chain hcache haside [] hfits hserves hkeys hparse ht
      (s := startState s' data) hs' .nil (k := e.config.maxDepth) rfl
      (by show 0 + _ < _; omega) ""
    rw [result_render_of_ok hloaded, result_of_ok (renderTemplate_of_ok hrun)]
    rw [String.empty_append]
    rfl
  · intro t data s q
    refine ⟨exists_expanding, fun frames h => ?_⟩
    rw [h.overrides_eq]
    exact List.append_nil frames

/-- Two links that override one block, the second of which overrides another block twice, and a third
block without an override. -/
theorem render_chain_two :
    let links : List Link := [⟨"p", [⟨"a", "1"⟩]⟩, ⟨"q", [⟨"a", "2"⟩, ⟨"b", "3"⟩, ⟨"b", "4"⟩]⟩]
    let parts : List Part :=
      [.text "x ", .block ⟨"a", "d"⟩, .block ⟨"b", "e"⟩, .block ⟨"c", "f"⟩, .text "\n"]
    let d := Delimiters.standard
    let e := blocksEngine [("p", chainSource d links.tail parts), ("q", chainSource d [] parts)]
    result (e.render (chainSource d links parts) (.map [("a", .string "z")])) (freshStore [] ()) =
      .ok "x 13f\n" := by
  intro links parts d e
  have hfits : e.FitsChain links parts :=
    ⟨Delimiters.writable_standard, by decide, by decide, by decide⟩
  have hkeys : e.TellsApart (chainSources d links parts) := by
    have hdigest : Function.Injective e.digest := by
      intro a b h
      exact (List.map_inj_right fun _ _ hchar => ofUInt8_injective hchar).mp (String.ofList_inj.mp h)
    exact fun x _ y _ h => cacheKey_injective hdigest h
  exact (render_chain (Cache.lawful_none fun _ _ _ => False) (cacheAside_none e) hfits rfl
    ⟨rfl, rfl, trivial⟩ hkeys (stocked_freshStore [] fun _ _ => id) (by decide) _).1

end Engine

end Mustache
