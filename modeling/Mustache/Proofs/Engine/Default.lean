import Mustache.Proofs.Engine.Joined
import Mustache.Proofs.Engine.Shelf
import Mustache.Proofs.Render.Confined
import Mustache.Proofs.Render.Repeated

/-!
Inheriting from a template with one of its blocks overridden by the block's own default. A child
that repeats the default renders as one without overrides, as long as the text that a standalone
block moves is the same where it is moved to. Main statement: `renderTemplate_own_default`.
-/

namespace Mustache

variable {σ : Type}

/-! ### Sources of one parent tag -/

namespace Token

/-- A parent tag at the margin that does not close itself, and its closing tag. -/
structure IsParentPair (s : PragmaSet) (name : String) (opening closing : Token) : Prop where
  kind : opening.kind = .parent
  value : opening.value = name
  margin : opening.indent = none ∨ opening.indent = some ""
  slash : s.contains .selfClosing = true → name.toList.getLast? ≠ some '/'
  closeKind : closing.kind = .close
  closeValue : closing.value = name

theorem IsParentPair.innerIndent {s : PragmaSet} {name : String} {opening closing : Token}
    (h : IsParentPair s name opening closing) : Render.innerIndent opening.indent "" = "" := by
  rcases h.margin with hnone | hmargin
  · rw [hnone]
    rfl
  · rw [hmargin]
    rfl

end Token

namespace Node

open Token

variable {d : Delimiters} {s : PragmaSet} {source name head body : String}
  {opening closing tag : Token} {us : List Token} {nodes : List Node}

/-- The tree of a parent tag without overrides. -/
theorem ofTokens_bare (hblocks : s.contains .blocks = true)
    (hpair : IsParentPair s name opening closing) :
    ofTokens s [opening, closing] = .ok [.parent name opening.indent [] opening.line] := by
  have hread : Machine.read ⟨s, [⟨opening, []⟩], []⟩ [] = .ok ⟨s, [⟨opening, []⟩], []⟩ := rfl
  have htree := ofTokens_parent hblocks hpair.kind
    (Machine.closesItself?_eq_none (by rw [hpair.value]; exact hpair.slash)) hread hpair.closeKind
    (hpair.closeValue.trans hpair.value.symm)
  rwa [hpair.value] at htree

/-- The tree of a parent tag with one override. -/
theorem ofTokens_overriding (hblocks : s.contains .blocks = true)
    (hpair : IsParentPair s name opening closing) (hkind : tag.kind = .block)
    (hslash : s.contains .selfClosing = true → tag.value.toList.getLast? ≠ some '/')
    {close : Token} (hclose : close.kind = .close) (hvalue : close.value = tag.value)
    {ts : List Token} (h : ofTokens s ts = .ok nodes) :
    ofTokens s (opening :: tag :: (ts ++ [close, closing])) = .ok [.parent name opening.indent
      [.block tag.value nodes tag.indent tag.line] opening.line] := by
  have hopen : Machine.canOpen ⟨s, [⟨opening, []⟩], []⟩ tag = true := by
    simp [Machine.canOpen, hkind, hblocks]
  have hread := Machine.read_block (m := ⟨s, [⟨opening, []⟩], []⟩) hkind hopen
    (Machine.closesItself?_eq_none hslash) h hclose hvalue
  have htree := ofTokens_parent hblocks hpair.kind
    (Machine.closesItself?_eq_none (by rw [hpair.value]; exact hpair.slash)) hread hpair.closeKind
    (hpair.closeValue.trans hpair.value.symm)
  rwa [hpair.value, List.cons_append, List.append_assoc] at htree

end Node

namespace Engine

open Render Relation

/-- The block at the head of this place is the one that `tag` opens in the source, around `nodes`,
and it puts out its default. As an override the default would come out the same: there is no indent
around the block, its first piece of output begins a line as that of an override does or can do
without the mark, and what a standalone block moves stays as it is. -/
structure OwnBlock (e : Engine σ) (source : String) (tag : Token) (nodes : List Node)
    (q : Place σ) (site : Option String) (inner : List Step) : Prop where
  own : findOverride? q.state.overrides tag.value = none
  compiled : ∃ lineStart w,
    Template.compileNode source.toList e.config.strictVariables
        (.block tag.value nodes tag.indent tag.line) ⟨e.pragmas, lineStart⟩ =
      .ok ([.block tag.value site inner], w) ∧
    (q.indent = "" ∧ (lineStart = true ∨ Node.anyFirstInParent? nodes ≠ some true) ∨
      site = none ∧ lineStart = true)
  calm : site.isSome → Place.Calm e { q with steps := inner }
  steady : ∀ own ∈ site, ∀ text s', renderSteps e (renderLevels e q.levels) q.template "" inner ""
    q.state = .ok text s' → (text = "" ∨ Template.endsInNewline text = true) ∧
      Reindent.Steady own.toList text.toList

/-- The block at the head of this place puts out the override that `tag` opens in the source, around
`nodes`. Another override with the same text would come out the same: both begin a line, or begin
their text outside parent tags where only their lines are moved or nothing is. -/
structure OwnOverride (e : Engine σ) (source : String) (tag : Token) (nodes : List Node)
    (q : Place σ) (site : Option String) (u : Override Step) : Prop where
  found : findOverride? q.state.overrides tag.value = some u
  compiled : ∃ parent line lineStart w,
    Template.compileOverrides source.toList e.config.strictVariables parent line
        [.block tag.value nodes tag.indent tag.line] ⟨e.pragmas, lineStart⟩ = .ok ([u], w) ∧
    (lineStart = true ∨ Node.anyFirstInParent? nodes ≠ some true ∧
      (q.indent = "" ∨ ¬(site.isNone ∧ !u.dedent)))

section

variable {e : Engine σ} {source head body : String} {before us after : List Token} {tag : Token}
  {nodes : List Node} {o : Override Step} {w : Template.Walk} {q : Place σ} {site : Option String}
  (hholds : Token.HoldsBlock e.delimiters source before tag head body us after)
  (hnodes : Node.ofTokens e.pragmas us = .ok nodes)
  (hsteps : Template.compileNodes body.toList e.config.strictVariables nodes ⟨e.pragmas, true⟩ =
    .ok (o.steps, w))

include hholds hnodes hsteps

/-- The body compiles in its source as it does alone, but for marks if it does not begin a line. -/
theorem steps_of_body {lineStart : Bool} {inner : List Step} {w' : Template.Walk}
    (h : Template.compileNodes source.toList e.config.strictVariables
      (Node.movedAll (Text.byteLength head.toList) (Text.newlines head.toList) nodes)
      ⟨e.pragmas, lineStart⟩ = .ok (inner, w')) :
    (lineStart = true → o.steps = inner) ∧ (Node.anyFirstInParent? nodes ≠ some true →
      Step.allUnmarked o.steps = Step.allUnmarked inner) := by
  obtain ⟨tail, rfl⟩ := hholds.text
  rw [String.toList_append, String.toList_append, Template.compileNodes_within
    (fun n => Node.stopsBy_of_within hholds.within hnodes)] at h
  refine ⟨?_, fun hfirst => Template.allUnmarked_of_compileNodes hfirst hsteps h⟩
  rintro rfl
  rw [hsteps] at h
  exact (Prod.mk.inj (Except.ok.inj h)).1

variable (hname : o.name = tag.value) (hdedent : o.dedent = tag.indent.isSome)

include hname hdedent

/-- What the same body compiles to as an override repeats the block. -/
theorem OwnBlock.repeated {inner : List Step}
    (h : OwnBlock e source tag (Node.movedAll (Text.byteLength head.toList)
      (Text.newlines head.toList) nodes) q site inner) : q.Repeated e o site inner := by
  obtain ⟨lineStart, _, hcompile, hmarks⟩ := h.compiled
  rw [Template.compileNode] at hcompile
  obtain ⟨steps, _, hinner, heq⟩ := Template.bind_eq_ok.mp hcompile
  cases heq
  obtain ⟨hsame, hunmarked⟩ := steps_of_body hholds hnodes hsteps hinner
  rw [Node.anyFirstInParent?_movedAll] at hmarks
  refine ⟨hname ▸ h.own, ?_, ?_, hmarks.imp And.left fun h => ⟨h.1, hsame h.2⟩, h.calm, h.steady⟩
  · rw [hdedent]
    cases tag.indent <;> rfl
  · rcases hmarks with ⟨-, hstart | hfirst⟩ | ⟨-, hstart⟩
    · rw [hsame hstart]
    · exact hunmarked hfirst
    · rw [hsame hstart]

/-- And it repeats the override that stands in the source. -/
theorem OwnOverride.overridden {u : Override Step}
    (h : OwnOverride e source tag (Node.movedAll (Text.byteLength head.toList)
      (Text.newlines head.toList) nodes) q site u) : q.Overridden o site u := by
  obtain ⟨_, _, lineStart, _, hcompile, hmarks⟩ := h.compiled
  rw [Template.compileOverrides] at hcompile
  obtain ⟨steps, _, hinner, heq⟩ := Template.bind_eq_ok.mp hcompile
  cases heq
  obtain ⟨hsame, hunmarked⟩ := steps_of_body hholds hnodes hsteps hinner
  rw [Node.anyFirstInParent?_movedAll] at hmarks
  refine ⟨hname ▸ h.found, hdedent, ?_, hmarks.imp hsame And.right⟩
  rcases hmarks with hstart | ⟨hfirst, -⟩
  · rw [hsame hstart]
  · exact hunmarked hfirst

end

variable {e : Engine σ} {source head body : String} {before us after : List Token} {tag : Token}
  {nodes : List Node}

section

variable {P : Callable → Prop} (hprompt : e.host.Prompt P) {name : String}
  {own own' : Option String} (hown : innerIndent own "" = "") (hown' : innerIndent own' "" = "")
  {o : Override Step}

include hprompt hown hown'

/-- Parent tags at the margin of two templates, one without overrides and one with an override that
repeats the blocks it is for. -/
theorem endUnlessLost_parent (t t' : Template) {s : Render.State σ}
    (hcallables : ∀ v ∈ s.scopes, v.CallablesIn P) (houtermost : s.overrides = [])
    (hdepth : s.depth = 0)
    (h : Place.Repeats e o ⟨e.config.maxDepth, t, "", [.parent name own []], "", s⟩) :
    EndUnlessLost (fun r r' => r'.store = r.store) Eq
      (renderStep e (renderLevels e e.config.maxDepth) t "" (.parent name own []) "" s)
      (renderStep e (renderLevels e e.config.maxDepth) t' "" (.parent name own' [o]) "" s) := by
  rw [renderStep, renderStep]
  cases hload : onStore (e.loadPartial name) s with
  | error err s₁ =>
    rw [bind_of_error _ hload, bind_of_error _ hload]
    exact .inr ⟨rfl, rfl⟩
  | ok found s₁ =>
    rw [bind_of_ok _ hload, bind_of_ok _ hload]
    have hplace := (restores_onStore _).of_ok hload
    cases found with
    | none => exact .inr ⟨rfl, rfl⟩
    | some p =>
      dsimp only
      rw [hown, hown']
      by_cases hlimit : s₁.depth < e.config.maxDepth
      · obtain ⟨k, hk⟩ := Nat.exists_eq_add_one_of_ne_zero (Nat.ne_zero_of_lt hlimit)
        have hinside := (hk ▸ h).advance (.parent hload hlimit)
        rw [hown] at hinside
        have hmore : OneMore e o P [] k k { s₁.entered with overrides := [] :: s₁.overrides }
            { s₁.entered with overrides := [o] :: s₁.overrides } := by
          have hempty : s₁.overrides = [] := hplace.overrides.trans houtermost
          refine ⟨rfl, rfl, ?_, congrArg _ hempty, congrArg _ hempty, ?_, ?_, le_rfl⟩
          · show ∀ v ∈ s₁.scopes, _
            rw [hplace.scopes]
            exact hcallables
          all_goals
            show k + (s₁.depth + 1) = _
            rw [hplace.depth, hdepth, hk]
        rw [entering_of_lt hlimit, entering_of_lt hlimit, hk]
        have hrun := repeatsAlike hprompt o k hmore hinside
        exact (hrun.between fun _ _ ht => ht.store).between fun _ _ ht => ht
      · have hle := Nat.le_of_not_lt hlimit
        rw [entering_of_le hle, entering_of_le hle]
        exact .inr ⟨rfl, rfl⟩

/-- Templates that are such a parent tag and nothing else. -/
theorem renderTemplate_of_parent {t t' : Template} (ht : t.steps = [.parent name own []])
    (ht' : t'.steps = [.parent name own' [o]]) {data : Value} {s : Store σ}
    (hcallables : ∀ v ∈ startScopes s.helpers data, v.CallablesIn P)
    (h : (e.startPlace t data s).Repeats e o) :
    e.renderTemplate t' data s = e.renderTemplate t data s ∨
      ∃ err s', e.renderTemplate t' data s = .error err s' ∧ err.isRecursionLimit := by
  unfold startPlace at h
  rw [ht] at h
  have hrun := endUnlessLost_parent hprompt hown hown' t t' hcallables rfl rfl h
  rw [← renderSteps_singleton, ← renderSteps_singleton, ← ht, ← ht', ← renderLevels,
    ← renderLevels] at hrun
  rcases hrun with ⟨err, r, hlost, hlimit⟩ | hend
  · exact .inr ⟨err, r.store, renderTemplate_of_error hlost, hlimit⟩
  · left
    cases hr : renderLevels e (e.config.maxDepth + 1) t "" t.steps "" (startState s data) <;>
      cases hr' : renderLevels e (e.config.maxDepth + 1) t' "" t'.steps "" (startState s data) <;>
      rw [hr, hr'] at hend
    · rw [renderTemplate_of_ok hr, renderTemplate_of_ok hr', hend.1, hend.2]
    · exact hend.elim
    · exact hend.elim
    · rw [renderTemplate_of_error hr, renderTemplate_of_error hr', hend.1, hend.2]

end

/-! ### Parents that stay within themselves -/

/-- From a parent tag at the margin, a render comes to parts of the parent alone if this stays
within itself. -/
theorem confined_of_reaches {B : String → Option String → List Step → Prop} {t p : Template}
    {name : String} {own : Option String} {data : Value} {s s' : Store σ}
    (ht : t.steps = [.parent name own []]) (hown : innerIndent own "" = "")
    (hload : e.loadPartial name s = .ok (some p) s') (hp : Step.AllConfined B p.steps)
    (hstrict : p.strictCallables = true)
    (hcallables : ∀ v ∈ startScopes s.helpers data, v.CallablesIn fun _ => False) {q : Place σ}
    (hreaches : ReflTransGen (Advance e) (e.startPlace t data s) q) :
    q = e.startPlace t data s ∨ q.steps = [] ∨ q.Confined B p "" := by
  rcases hreaches.cases_head with rfl | ⟨r, hadvance, hrest⟩
  · exact .inl rfl
  right
  unfold startPlace at hadvance
  rw [ht] at hadvance
  have hload' : onStore (e.loadPartial name) (startState s data) =
      .ok (some p) { startState s data with store := s' } := by
    unfold onStore
    rw [show (startState s data).store = s from rfl, hload]
  generalize hlevels : e.config.maxDepth = levels at hadvance
  cases hadvance with
  | next h =>
    left
    rcases hrest.cases_head with rfl | ⟨_, hadvance, -⟩
    · rfl
    · cases hadvance
  | parent hload _ =>
    right
    obtain ⟨hfound, rfl⟩ := EStateM.Result.ok.inj (hload'.symm.trans hload)
    obtain rfl := Option.some.inj hfound
    refine Place.Confined.reaches ⟨rfl, hown, hstrict, hp, ?_, hcallables⟩ hrest
    intro os hos
    exact List.mem_singleton.mp hos

/-- A block of the template `p` that `tag` opens in its source at the beginning of a line. Its
default moves to the indent of its own lines without a change, whatever the state. -/
structure StaysOwn (e : Engine σ) (source : String) (tag : Token) (nodes : List Node) (p : Template)
    (site : Option String) (inner : List Step) : Prop where
  compiled : ∃ w, Template.compileNode source.toList e.config.strictVariables
      (.block tag.value nodes tag.indent tag.line) ⟨e.pragmas, true⟩ =
    .ok ([.block tag.value site inner], w)
  steady : ∀ own ∈ site, ∀ n s text s', renderSteps e (renderLevels e n) p "" inner "" s =
    .ok text s' → (text = "" ∨ Template.endsInNewline text = true) ∧
      Reindent.Steady own.toList text.toList

/-- From a parent tag at the margin, a render comes to blocks of the parent, each with its default,
if this stays within itself. -/
theorem ownBlock_of_confined {t p : Template} {name : String} {own : Option String} {data : Value}
    {s s' : Store σ} (ht : t.steps = [.parent name own []]) (hown : innerIndent own "" = "")
    (hload : e.loadPartial name s = .ok (some p) s')
    (hp : Step.AllConfined (fun name site inner => name = tag.value →
      e.StaysOwn source tag nodes p site inner) p.steps)
    (hstrict : p.strictCallables = true)
    (hcallables : ∀ v ∈ startScopes s.helpers data, v.CallablesIn fun _ => False) (q : Place σ)
    (hreaches : ReflTransGen (Advance e) (e.startPlace t data s) q) (site : Option String)
    (inner rest : List Step) (hq : q.steps = .block tag.value site inner :: rest) :
    e.OwnBlock source tag nodes q site inner := by
  rcases confined_of_reaches ht hown hload hp hstrict hcallables hreaches with
    rfl | hnil | hconfined
  · cases ht.symm.trans hq
  · cases hnil.symm.trans hq
  · obtain ⟨n, t, indent, steps, out, r⟩ := q
    obtain rfl : steps = _ := hq
    obtain rfl := hconfined.template
    obtain rfl : indent = "" := hconfined.indent
    obtain ⟨⟨w, hcompiled⟩, hsteady⟩ := hconfined.steps.1.1 rfl
    have hnone := findOverride?_of_forall_nil hconfined.overrides tag.value
    have hinner : Place.Confined _ t "" ⟨n, t, "", inner, out, r⟩ :=
      hconfined.advance (e := e) (.block hnone)
    exact ⟨hnone, ⟨true, w, hcompiled, .inl ⟨rfl, .inl rfl⟩⟩, fun _ => hinner.calm,
      fun own hsite => hsteady own hsite n r⟩

/-! ### Lines in a block -/

/-- A template of one block with these lines. -/
def blockOfLines (lines : String) : String :=
  "\x7b\x7b$b\x7d\x7d" ++ ("\n" ++ lines) ++ "\x7b\x7b/b\x7d\x7d\n"

/-- A template that inherits from another one and overrides a block with these lines. -/
def overrideOfLines (lines : String) : String :=
  "\x7b\x7b<p\x7d\x7d\x7b\x7b$b\x7d\x7d" ++ ("\n" ++ lines) ++
    "\x7b\x7b/b\x7d\x7d\x7b\x7b/p\x7d\x7d"

section

variable {lines : String} {us : List Token}
  (hlines : Token.scan Delimiters.standard lines = .ok us) (hended : Token.Ended lines.toList)
  (hplain : ∀ u ∈ us, u.kind ≠ .delimiters)

include hlines hended hplain

theorem holdsBlock_blockOfLines : Token.HoldsBlock Delimiters.standard (blockOfLines lines) []
    ⟨.block, "b", 1, 0, 6, Delimiters.standard, some ""⟩ "\x7b\x7b$b\x7d\x7d" ("\n" ++ lines)
    (us.map (Token.moved 1 1)) [] := by
  have hfront : Token.scan Delimiters.standard ("\x7b\x7b$b\x7d\x7d" ++ "\n") = .ok ([] ++
      [⟨.block, "b", 1, 0, 6, Delimiters.standard, some ""⟩]) := by
    decide +kernel
  have htail : Token.scan Delimiters.standard "\x7b\x7b/b\x7d\x7d\n" = .ok
      [⟨.close, "b", 1, 0, 6, Delimiters.standard, none⟩] := by
    decide +kernel
  exact Token.HoldsBlock.of_lines Delimiters.writable_standard hfront (by decide) rfl rfl hlines
    hended hplain htail rfl rfl rfl

theorem holdsBlock_overrideOfLines : ∃ closing, closing.kind = .close ∧ closing.value = "p" ∧
    Token.HoldsBlock Delimiters.standard (overrideOfLines lines)
      [⟨.parent, "p", 1, 0, 6, Delimiters.standard, some ""⟩]
      ⟨.block, "b", 1, 6, 12, Delimiters.standard, some ""⟩ "\x7b\x7b<p\x7d\x7d\x7b\x7b$b\x7d\x7d"
      ("\n" ++ lines) (us.map (Token.moved 1 1)) [closing] := by
  have hfront : Token.scan Delimiters.standard
      ("\x7b\x7b<p\x7d\x7d\x7b\x7b$b\x7d\x7d" ++ "\n") = .ok
      ([⟨.parent, "p", 1, 0, 6, Delimiters.standard, some ""⟩] ++
        [⟨.block, "b", 1, 6, 12, Delimiters.standard, some ""⟩]) := by
    decide +kernel
  have htail : Token.scan Delimiters.standard "\x7b\x7b/b\x7d\x7d\x7b\x7b/p\x7d\x7d" = .ok
      [⟨.close, "b", 1, 0, 6, Delimiters.standard, none⟩,
        ⟨.close, "p", 1, 6, 12, Delimiters.standard, none⟩] := by
    decide +kernel
  have hholds := Token.HoldsBlock.of_lines Delimiters.writable_standard hfront (by decide) rfl rfl
    hlines hended hplain htail rfl rfl rfl
  exact ⟨_, rfl, rfl, hholds⟩

end

/-! ### Parents whose default is repeated -/

/-- **Overriding a block with its own default changes nothing.** Of two templates that inherit from
the same parent, one overrides a block with the text between the tags of this block in the parent,
and one overrides nothing. They render alike, text or error, as long as each block of this name that
a render of the second comes to puts out the text between these tags, as its default or as an
override, and what a standalone block moves stays as it is; or the first fails at the limit on
depth, since it goes one level further down. -/
theorem renderTemplate_own_default {P : Callable → Prop} (hprompt : e.host.Prompt P)
    (hblocks : e.pragmas.contains .blocks = true)
    (hholds : Token.HoldsBlock e.delimiters source before tag head body us after)
    (hnodes : Node.ofTokens e.pragmas us = .ok nodes)
    {bare child head' name : String} {opening closing opening' closing' tag' : Token}
    (hbare : Token.scan e.delimiters bare = .ok [opening, closing])
    (hpair : Token.IsParentPair e.pragmas name opening closing)
    (hchild : Token.HoldsBlock e.delimiters child [opening'] tag' head' body us [closing'])
    (hpair' : Token.IsParentPair e.pragmas name opening' closing')
    (hvalue : tag'.value = tag.value) (hstanding : tag'.indent.isSome = tag.indent.isSome)
    (hslash : e.pragmas.contains .selfClosing = true → tag.value.toList.getLast? ≠ some '/')
    (templateName : String) :
    ∃ t t', e.compiled templateName bare = .ok t ∧ e.compiled templateName child = .ok t' ∧
      ∀ (data : Value) (s : Store σ), (∀ v ∈ startScopes s.helpers data, v.CallablesIn P) →
        (∀ q, ReflTransGen (Advance e) (e.startPlace t data s) q → ∀ site inner rest,
          q.steps = .block tag.value site inner :: rest →
          let own := Node.movedAll (Text.byteLength head.toList) (Text.newlines head.toList) nodes
          e.OwnBlock source tag own q site inner ∨ ∃ u, e.OwnOverride source tag own q site u) →
        e.renderTemplate t' data s = e.renderTemplate t data s ∨
          ∃ err s', e.renderTemplate t' data s = .error err s' ∧ err.isRecursionLimit := by
  obtain ⟨close, hscan', hkind, hclose, -⟩ := hchild.tokens
  have htree := Node.ofTokens_bare hblocks hpair
  have hmoved := Node.ofTokens_moved (Text.byteLength head'.toList) (Text.newlines head'.toList)
    e.pragmas us
  rw [Node.run_of_ofTokens hnodes] at hmoved
  have htree' := Node.ofTokens_overriding hblocks hpair' hchild.kind (hvalue ▸ hslash) hkind hclose
    hmoved
  obtain ⟨t, ht⟩ := Template.exists_compile_of_ofTokens hbare htree
    (e.compileOptions (e.cacheKey bare)) templateName
  obtain ⟨t', ht'⟩ := Template.exists_compile_of_ofTokens hscan' htree'
    (e.compileOptions (e.cacheKey child)) templateName
  refine ⟨t, t', compiled_eq_ok_iff.mpr ⟨_, _, hbare, htree, ht⟩,
    compiled_eq_ok_iff.mpr ⟨_, _, hscan', htree', ht'⟩, fun data s hcallables hown => ?_⟩
  obtain ⟨none, _, hsteps, hnone⟩ := Template.exists_overrides_of_compile ht
  cases hnone
  obtain ⟨one, _, hsteps', hone⟩ := Template.exists_overrides_of_compile ht'
  rw [Template.compileOverrides] at hone
  obtain ⟨steps, _, hbody, hone⟩ := Template.bind_eq_ok.mp hone
  obtain ⟨rfl, -⟩ := Prod.mk.inj (Except.ok.inj hone)
  obtain ⟨tail, rfl⟩ := hchild.text
  rw [String.toList_append, String.toList_append, Template.compileNodes_within
    (fun n => Node.stopsBy_of_within hchild.within hnodes)] at hbody
  refine renderTemplate_of_parent hprompt hpair.innerIndent hpair'.innerIndent hsteps hsteps'
    hcallables fun q hreaches site inner rest hq => ?_
  rw [hvalue] at hq
  let o : Override Step := ⟨tag'.value, tag'.indent.isSome, steps⟩
  exact (hown q hreaches site inner rest hq).imp
    (fun h => h.repeated (o := o) hholds hnodes hbody hvalue hstanding)
    fun ⟨u, h⟩ => ⟨u, h.overridden (o := o) hholds hnodes hbody hvalue hstanding⟩

/-- Lines that are indented further and further. -/
theorem renderTemplate_own_default_lines :
    let lines := "  a\n   b\n"
    let bare := "\x7b\x7b<p\x7d\x7d\x7b\x7b/p\x7d\x7d"
    let e := blocksEngine [("p", blockOfLines lines)]
    ∃ t t', e.compiled "t" bare = .ok t ∧ e.compiled "t" (overrideOfLines lines) = .ok t' ∧
      e.renderTemplate t' .null (freshStore [] ()) =
        e.renderTemplate t .null (freshStore [] ()) := by
  intro lines bare e
  have hlines : Token.scan e.delimiters lines = .ok
      [⟨.text, "  a\n", 1, 0, 4, Delimiters.standard, none⟩,
        ⟨.text, "   b\n", 2, 4, 9, Delimiters.standard, none⟩] := by
    decide +kernel
  have hended : Token.Ended lines.toList := .inr (by decide)
  have hholds := holdsBlock_blockOfLines hlines hended (by decide)
  obtain ⟨closing, hkind, hvalue, hholds'⟩ := holdsBlock_overrideOfLines hlines hended (by decide)
  have hnodes : Node.ofTokens e.pragmas ([⟨.text, "  a\n", 1, 0, 4, Delimiters.standard, none⟩,
      ⟨.text, "   b\n", 2, 4, 9, Delimiters.standard, none⟩].map (Token.moved 1 1)) =
      .ok [.text "  a\n", .text "   b\n"] := by
    cbv
  have hbare : Token.scan e.delimiters bare = .ok
      [⟨.parent, "p", 1, 0, 6, Delimiters.standard, some ""⟩,
        ⟨.close, "p", 1, 6, 12, Delimiters.standard, none⟩] := by
    decide +kernel
  have hprompt : e.host.Prompt fun _ => False := ⟨fun h => h.elim, fun h => h.elim⟩
  obtain ⟨t, t', ht, ht', hsame⟩ := renderTemplate_own_default hprompt (by decide) hholds hnodes
    hbare ⟨rfl, rfl, .inr rfl, fun _ => by decide, rfl, rfl⟩ hholds'
    ⟨rfl, rfl, .inr rfl, fun _ => by decide, hkind, hvalue⟩ rfl rfl (fun _ => by decide) "t"
  refine ⟨t, t', ht, ht', ?_⟩
  obtain rfl := Except.ok.inj (ht.symm.trans (compiled_eq_ok_iff.mpr
    ⟨_, [.parent "p" (some "") [] 1], hbare, by cbv, rfl⟩))
  -- what the parent is compiled to
  have hscan : Token.scan e.delimiters (blockOfLines lines) = .ok
      [⟨.block, "b", 1, 0, 6, Delimiters.standard, some ""⟩,
        ⟨.text, "  a\n", 2, 7, 11, Delimiters.standard, none⟩,
        ⟨.text, "   b\n", 3, 11, 16, Delimiters.standard, none⟩,
        ⟨.close, "b", 4, 16, 22, Delimiters.standard, none⟩] := by
    decide +kernel
  have hparse : e.parse (blockOfLines lines) =
      .ok [.block "b" [.text "  a\n", .text "   b\n"] (some "") 1] :=
    parse_of_scan hscan (by cbv)
  have hstocked : e.Stocked (fun _ _ _ => False) [blockOfLines lines] () (freshStore [] ()) :=
    stocked_freshStore [] fun _ _ => id
  obtain ⟨p, s', hload, -, hp, -⟩ := hstocked.loadPartial (Cache.lawful_none _) (cacheAside_none e)
    (fun x hx y hy _ => by rw [List.mem_singleton.mp hx, List.mem_singleton.mp hy])
    List.mem_cons_self (rfl : e.partials () "p" = _) hparse
  obtain ⟨_, _, hsteps, hp⟩ := Template.compile_eq_ok_iff.mp hp.compile
  cases hsteps
  have hsteady : (lines = "" ∨ Template.endsInNewline lines = true) ∧
      Reindent.Steady "  ".toList lines.toList := by
    decide
  have hempty : ∀ v ∈ startScopes [] .null, v.CallablesIn fun _ => False := List.forall_mem_nil _
  refine (hsame .null (freshStore [] ()) hempty fun q hreaches site inner rest hq => .inl
    (ownBlock_of_confined rfl rfl hload ?_ (congrArg Template.strictCallables hp) hempty q hreaches
      site inner rest hq)).resolve_right ?_
  · rw [congrArg Template.steps hp]
    refine ⟨⟨fun _ => ⟨⟨_, rfl⟩, ?_⟩, trivial, trivial, trivial⟩, trivial⟩
    rintro _ ⟨⟩ n r _ _ ⟨⟩
    exact hsteady
  · rintro ⟨err, r, hlost, -⟩
    have hscan' : Token.scan e.delimiters (overrideOfLines lines) = .ok
        [⟨.parent, "p", 1, 0, 6, Delimiters.standard, some ""⟩,
          ⟨.block, "b", 1, 6, 12, Delimiters.standard, some ""⟩,
          ⟨.text, "  a\n", 2, 13, 17, Delimiters.standard, none⟩,
          ⟨.text, "   b\n", 3, 17, 22, Delimiters.standard, none⟩,
          ⟨.close, "b", 4, 22, 28, Delimiters.standard, none⟩,
          ⟨.close, "p", 4, 28, 34, Delimiters.standard, none⟩] := by
      decide +kernel
    obtain rfl := Except.ok.inj (ht'.symm.trans (compiled_eq_ok_iff.mpr ⟨_, [.parent "p" (some "")
      [.block "b" [.text "  a\n", .text "   b\n"] (some "") 1] 1], hscan', by cbv, rfl⟩))
    cases (result_of_error hlost).symm.trans (show _ = Except.ok lines by decide +kernel)

/-- A line that is indented less than the first one loses its indent as an override, and gets the
whole indent of the block. -/
theorem own_default_outdented :
    let lines := "  a\n b\n"
    let bare := "\x7b\x7b<p\x7d\x7d\x7b\x7b/p\x7d\x7d"
    let e := blocksEngine [("p", blockOfLines lines)]
    (∃ tag tag' us closing,
      Token.HoldsBlock e.delimiters (blockOfLines lines) [] tag "\x7b\x7b$b\x7d\x7d" ("\n" ++ lines)
        us [] ∧
      Token.HoldsBlock e.delimiters (overrideOfLines lines)
        [⟨.parent, "p", 1, 0, 6, Delimiters.standard, some ""⟩] tag'
        "\x7b\x7b<p\x7d\x7d\x7b\x7b$b\x7d\x7d" ("\n" ++ lines) us [closing] ∧
      tag'.value = tag.value ∧ tag'.indent.isSome = tag.indent.isSome) ∧
    result (e.render bare .null) (freshStore [] ()) = .ok "  a\n b\n" ∧
    result (e.render (overrideOfLines lines) .null) (freshStore [] ()) = .ok "  a\n   b\n" := by
  intro lines bare e
  have hlines : Token.scan e.delimiters lines = .ok
      [⟨.text, "  a\n", 1, 0, 4, Delimiters.standard, none⟩,
        ⟨.text, " b\n", 2, 4, 7, Delimiters.standard, none⟩] := by
    decide +kernel
  have hended : Token.Ended lines.toList := .inr (by decide)
  have hholds := holdsBlock_blockOfLines hlines hended (by decide)
  obtain ⟨closing, -, -, hholds'⟩ := holdsBlock_overrideOfLines hlines hended (by decide)
  exact ⟨⟨_, _, _, closing, hholds, hholds', rfl, rfl⟩, by decide +kernel⟩

end Engine

end Mustache
