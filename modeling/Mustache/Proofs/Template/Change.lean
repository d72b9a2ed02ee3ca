import Mustache.Proofs.Node.Fused
import Mustache.Proofs.Template.Joined

/-!
Templates that differ in one place. Two sources are the same but for one spot. Compiled, they differ
in the steps of the spot, in the text that sections around it have as their body, and in nothing
else. Main statement: `exists_run_differ`.
-/

namespace Mustache

namespace Step

/-! ### What differs -/

/-- The override that the step of a block makes in a parent. -/
def asOverride? : Step → Option (Override Step)
  | .block name site steps => some ⟨name, site.isSome, steps⟩
  | _ => none

/-- How two templates may differ in one place. -/
structure Change where
  /-- The steps in that place. -/
  here : List Step → List Step → Prop
  /-- The body, as a text, of a section around it. -/
  around : String → Prop
  /-- The steps of a block that an override would be moved with in another way. -/
  opens : List Step → Prop
  /-- The limit on depth is not reached. -/
  shallow : Prop
  here_between : ∀ {steps steps'}, here steps steps' → ∀ before behind,
    here (before ++ steps ++ behind) (before ++ steps' ++ behind)
  not_overrides : ∀ {steps steps'}, here steps steps' →
    ¬ ∀ step ∈ steps, step.asOverride?.isSome = true
  opens_append : ∀ {steps}, opens steps → ∀ more, opens (steps ++ more)

/-- The lists of steps differ in one place. -/
inductive Differ (ch : Change) : List Step → List Step → Prop
  | here {steps steps' : List Step} (h : ch.here steps steps') : Differ ch steps steps'
  /-- The place has the same steps in both, and stands in a section. -/
  | body {text : String} (front back : List Step) (name : Name) (strict : Bool) (text' : String)
    (d : Delimiters) (inner : List Step) (htext : ch.around text) :
    Differ ch (front ++ .sectionStep name strict text d inner :: back)
      (front ++ .sectionStep name strict text' d inner :: back)
  | sectionStep {text : String} {inner inner' : List Step} (front back : List Step) (name : Name)
    (strict : Bool) (text' : String) (d : Delimiters) (htext : ch.around text)
    (h : Differ ch inner inner') :
    Differ ch (front ++ .sectionStep name strict text d inner :: back)
      (front ++ .sectionStep name strict text' d inner' :: back)
  | inverted {inner inner' : List Step} (front back : List Step) (name : Name)
    (h : Differ ch inner inner') :
    Differ ch (front ++ .inverted name inner :: back) (front ++ .inverted name inner' :: back)
  | parent {inner inner' : List Step} (front back : List Step) (name : String) (own : Option String)
    (before after : List (Override Step)) (block : String) (dedent : Bool)
    (h : Differ ch inner inner') :
    Differ ch (front ++ .parent name own (before ++ ⟨block, dedent, inner⟩ :: after) :: back)
      (front ++ .parent name own (before ++ ⟨block, dedent, inner'⟩ :: after) :: back)
  | block {inner inner' : List Step} (front back : List Step) (name : String)
    (site site' : Option String)
    (hsite : site' = site ∨ site.isSome = true ∧ site'.isSome = true ∧ ch.opens inner)
    (h : Differ ch inner inner') :
    Differ ch (front ++ .block name site inner :: back) (front ++ .block name site' inner' :: back)

/-- The second list is the first one, or they differ in one place. -/
def Matches (ch : Change) (steps steps' : List Step) : Prop :=
  steps' = steps ∨ Differ ch steps steps'

variable {ch : Change} {steps steps' : List Step}

theorem Differ.between (h : Differ ch steps steps') (before behind : List Step) :
    Differ ch (before ++ steps ++ behind) (before ++ steps' ++ behind) := by
  have hassoc (front back : List Step) (step : Step) :
      before ++ (front ++ step :: back) ++ behind =
        before ++ front ++ step :: (back ++ behind) := by
    simp
  cases h with
  | here h => exact .here (ch.here_between h before behind)
  | body front back name strict text' d inner htext =>
    rw [hassoc, hassoc]
    exact .body _ _ _ _ _ _ _ htext
  | sectionStep front back name strict text' d htext h =>
    rw [hassoc, hassoc]
    exact .sectionStep _ _ _ _ _ _ htext h
  | inverted front back name h =>
    rw [hassoc, hassoc]
    exact .inverted _ _ _ h
  | parent front back name own os os' block dedent h =>
    rw [hassoc, hassoc]
    exact .parent _ _ _ _ _ _ _ _ h
  | block front back name site site' hsite h =>
    rw [hassoc, hassoc]
    exact .block _ _ _ _ _ hsite h

/-- Blocks that differ in one place differ in one of them. -/
theorem Differ.overrides (h : Differ ch steps steps')
    (hblocks : ∀ step ∈ steps, step.asOverride?.isSome = true) :
    ∃ before after name dedent inner inner',
      steps.filterMap asOverride? = before ++ ⟨name, dedent, inner⟩ :: after ∧
      steps'.filterMap asOverride? = before ++ ⟨name, dedent, inner'⟩ :: after ∧
      Differ ch inner inner' := by
  cases h with
  | here h => exact absurd hblocks (ch.not_overrides h)
  | @block inner inner' front back name site site' hsite h =>
    refine ⟨front.filterMap asOverride?, back.filterMap asOverride?, name, site.isSome, inner,
      inner', by simp [asOverride?], ?_, h⟩
    have hsome : site'.isSome = site.isSome := by
      rcases hsite with rfl | ⟨hsome, hsome', -⟩
      · rfl
      · rw [hsome, hsome']
    simp [asOverride?, hsome]
  | body | sectionStep | inverted | parent =>
    cases hblocks _ (List.mem_append_right _ List.mem_cons_self)

end Step

/-- The overrides are for one block and stand alike, and the steps of the second match those of the
first. -/
structure Override.Matches (ch : Step.Change) (o o' : Override Step) : Prop where
  name : o'.name = o.name
  dedent : o'.dedent = o.dedent
  steps : Step.Matches ch o.steps o'.steps

theorem Override.Matches.refl (ch : Step.Change) (o : Override Step) : o.Matches ch o :=
  ⟨rfl, rfl, .inl rfl⟩

/-- The text is cut out of a source around the spot between `before` and `after`. -/
def Encloses (before spot after : List Char) (text : String) : Prop :=
  ∃ x y : List Char, x <:+ before ∧ y <+: after ∧ text.toList = x ++ spot ++ y

/-- What the node of a tag is does not hang on what is below it. -/
theorem Node.ofTag_cases (t : Token) :
    (∀ name ns stop, ofTag t name ns stop = .block name ns t.indent t.line) ∨
    (∀ name ns stop, ofTag t name ns stop = .parent name t.indent ns t.line) ∨
    ∃ inverted, ∀ name ns stop,
      ofTag t name ns stop = .sectionNode name inverted ns t.stop stop t.delimiters t.line := by
  unfold ofTag
  cases t.kind with
  | block => exact .inl fun _ _ _ => rfl
  | parent => exact .inr (.inl fun _ _ _ => rfl)
  | inverted => exact .inr (.inr ⟨true, fun _ _ _ => rfl⟩)
  | _ => exact .inr (.inr ⟨false, fun _ _ _ => rfl⟩)

namespace Template

open Node (Machine movedAll)

/-! ### Nodes and what they become -/

section

variable (source source' : List Char) (strictVariables : Bool)

/-- Where the first nodes compile, the others do so in the other source, to the same steps. -/
def Follows (ns ns' : List Node) : Prop :=
  ∀ w r, compileNodes source strictVariables ns w = .ok r →
    compileNodes source' strictVariables ns' w = .ok r

variable (ch : Step.Change) (c : PragmaSet)

/-- Where the first nodes compile under the pragmas `c`, the others do so in the other source, to
the same steps or to such as differ in one place. -/
structure Differ (ns ns' : List Node) : Prop where
  ne_nil : ns ≠ []
  ne_nil' : ns' ≠ []
  blocks : (∀ n ∈ ns, n.isBlock = true) → ∀ n ∈ ns', n.isBlock = true
  compiles : ∀ w steps w', w.pragmas = c →
    compileNodes source strictVariables ns w = .ok (steps, w') → ∃ steps',
      compileNodes source' strictVariables ns' w = .ok (steps', w') ∧
      (steps' = steps ∧ (∀ own, blockIndent ns' own = blockIndent ns own) ∨
        Step.Differ ch steps steps' ∧
          ∀ own, blockIndent ns' own = blockIndent ns own ∨ ch.opens steps)

end

section

variable {source source' : List Char} {strictVariables : Bool} {ch : Step.Change}
  {c c' : PragmaSet} {ns ns' ms ms' : List Node}

theorem compileNodes_append_eq_ok {w : Walk} {steps : List Step} {w' : Walk} :
    compileNodes source strictVariables (ns ++ ms) w = .ok (steps, w') ↔ ∃ front mid back,
      compileNodes source strictVariables ns w = .ok (front, mid) ∧
      compileNodes source strictVariables ms mid = .ok (back, w') ∧ steps = front ++ back := by
  rw [compileNodes_append, bind_eq_ok]
  constructor
  · rintro ⟨front, mid, hfront, hrest⟩
    obtain ⟨back, w₁, hback, hpure⟩ := bind_eq_ok.mp hrest
    obtain ⟨rfl, rfl⟩ := Prod.mk.inj (Except.ok.inj hpure)
    exact ⟨front, mid, back, hfront, hback, rfl⟩
  · rintro ⟨front, mid, back, hfront, hback, rfl⟩
    exact ⟨front, mid, hfront, bind_eq_ok.mpr ⟨back, w', hback, rfl⟩⟩

theorem blockIndent_append (hne : ns ≠ []) (more : List Node) (own : String) :
    blockIndent (ns ++ more) own = blockIndent ns own := by
  obtain ⟨n, ns, rfl⟩ := List.exists_cons_of_ne_nil hne
  cases n <;> rfl

/-- More nodes behind. -/
theorem Differ.append (h : Differ source source' strictVariables ch c ns ns')
    (hms : Follows source source' strictVariables ms ms')
    (hblocks : (∀ n ∈ ms, n.isBlock = true) → ∀ n ∈ ms', n.isBlock = true) :
    Differ source source' strictVariables ch c (ns ++ ms) (ns' ++ ms') where
  ne_nil := List.append_ne_nil_of_left_ne_nil h.ne_nil _
  ne_nil' := List.append_ne_nil_of_left_ne_nil h.ne_nil' _
  blocks hall := by
    rw [List.forall_mem_append] at hall ⊢
    exact ⟨h.blocks hall.1, hblocks hall.2⟩
  compiles w steps w' hw hrun := by
    obtain ⟨front, mid, back, hfront, hback, rfl⟩ := compileNodes_append_eq_ok.mp hrun
    obtain ⟨front', hfront', hdiffer⟩ := h.compiles w front mid hw hfront
    refine ⟨front' ++ back,
      compileNodes_append_eq_ok.mpr ⟨front', mid, back, hfront', hms _ _ hback, rfl⟩, ?_⟩
    simp only [blockIndent_append h.ne_nil, blockIndent_append h.ne_nil']
    rcases hdiffer with ⟨rfl, hindent⟩ | ⟨hdiffer, hindent⟩
    · exact .inl ⟨rfl, hindent⟩
    · exact .inr ⟨hdiffer.between [] back,
        fun own => (hindent own).imp_right fun hopens => ch.opens_append hopens back⟩

/-- More nodes in front. -/
theorem Differ.behind (hms : Follows source source' strictVariables ms ms)
    (hc : (Node.outlineAll ms).foldl Node.enables c = c')
    (h : Differ source source' strictVariables ch c' ns ns') :
    Differ source source' strictVariables ch c (ms ++ ns) (ms ++ ns') where
  ne_nil := List.append_ne_nil_of_right_ne_nil _ h.ne_nil
  ne_nil' := List.append_ne_nil_of_right_ne_nil _ h.ne_nil'
  blocks hall := by
    rw [List.forall_mem_append] at hall ⊢
    exact ⟨hall.1, h.blocks hall.2⟩
  compiles w steps w' hw hrun := by
    obtain ⟨front, mid, back, hfront, hback, rfl⟩ := compileNodes_append_eq_ok.mp hrun
    have hmid : mid.pragmas = c' :=
      hc ▸ (tracks_compileNodes source strictVariables ms c w front mid hw hfront).1
    obtain ⟨back', hback', hdiffer⟩ := h.compiles mid back w' hmid hback
    refine ⟨front ++ back',
      compileNodes_append_eq_ok.mpr ⟨front, mid, back', hms _ _ hfront, hback', rfl⟩, ?_⟩
    rcases hdiffer with ⟨rfl, hindent⟩ | ⟨hdiffer, hindent⟩
    · refine .inl ⟨rfl, fun own => ?_⟩
      cases ms with
      | nil => exact hindent own
      | cons m ms =>
        rw [blockIndent_append (List.cons_ne_nil m ms), blockIndent_append (List.cons_ne_nil m ms)]
    · refine .inr ⟨by simpa using hdiffer.between front [], fun own => ?_⟩
      cases ms with
      | nil =>
        rw [compileNodes] at hfront
        obtain ⟨rfl, rfl⟩ := Prod.mk.inj (Except.ok.inj hfront)
        exact hindent own
      | cons m ms =>
        rw [blockIndent_append (List.cons_ne_nil m ms), blockIndent_append (List.cons_ne_nil m ms)]
        exact .inl rfl

/-! ### The node of a tag -/

/-- What is made of the steps of some nodes. -/
theorem map_eq_ok {α β : Type} {act : Compile α} {f : α → β} {w w' : Walk} {b : β} :
    (do return f (← act)) w = .ok (b, w') ↔ ∃ a, act w = .ok (a, w') ∧ b = f a := by
  rw [bind_eq_ok]
  constructor
  · rintro ⟨a, mid, ha, hpure⟩
    obtain ⟨rfl, rfl⟩ := Prod.mk.inj (Except.ok.inj hpure)
    exact ⟨a, ha, rfl⟩
  · rintro ⟨a, ha, rfl⟩
    exact ⟨a, w', ha, rfl⟩

theorem compileOverrides_eq_ok {parent : String} {line : Nat} {w w' : Walk}
    {os : List (Override Step)} :
    compileOverrides source strictVariables parent line ns w = .ok (os, w') ↔
      (∀ n ∈ ns, n.isBlock = true) ∧ ∃ steps,
        compileNodes source strictVariables ns w = .ok (steps, w') ∧
        os = steps.filterMap Step.asOverride? := by
  induction ns generalizing w os with
  | nil =>
    rw [compileOverrides, compileNodes]
    constructor
    · intro h
      obtain ⟨rfl, rfl⟩ := Prod.mk.inj (Except.ok.inj h)
      exact ⟨List.forall_mem_nil _, [], rfl, rfl⟩
    · rintro ⟨-, steps, h, rfl⟩
      obtain ⟨rfl, rfl⟩ := Prod.mk.inj (Except.ok.inj h)
      rfl
  | cons n ns ih =>
    rw [List.forall_mem_cons]
    cases n with
    | block name children indent l =>
      rw [compileOverrides, compileNodes, compileNode]
      constructor
      · intro h
        obtain ⟨inner, mid, hinner, hrest⟩ := bind_eq_ok.mp h
        obtain ⟨others, w₁, hothers, hpure⟩ := bind_eq_ok.mp hrest
        obtain ⟨rfl, rfl⟩ := Prod.mk.inj (Except.ok.inj hpure)
        obtain ⟨hblocks, steps, hsteps, rfl⟩ := ih.mp hothers
        refine ⟨⟨rfl, hblocks⟩, _ :: steps, bind_eq_ok.mpr ⟨_, mid, bind_eq_ok.mpr
          ⟨inner, mid, hinner, rfl⟩, bind_eq_ok.mpr ⟨steps, w₁, hsteps, rfl⟩⟩, ?_⟩
        simp [Step.asOverride?]
      · rintro ⟨⟨-, hblocks⟩, steps, h, rfl⟩
        obtain ⟨first, mid, hfirst, hrest⟩ := bind_eq_ok.mp h
        obtain ⟨inner, mid', hinner, hpure⟩ := bind_eq_ok.mp hfirst
        obtain ⟨rfl, rfl⟩ := Prod.mk.inj (Except.ok.inj hpure)
        obtain ⟨others, w₁, hothers, hpure⟩ := bind_eq_ok.mp hrest
        obtain ⟨rfl, rfl⟩ := Prod.mk.inj (Except.ok.inj hpure)
        refine bind_eq_ok.mpr ⟨inner, mid', hinner, bind_eq_ok.mpr
          ⟨_, w₁, ih.mpr ⟨hblocks, others, hothers, rfl⟩, ?_⟩⟩
        simp [Step.asOverride?]
        rfl
    | text | interpolation | sectionNode | partialNode | parent | pragma =>
      exact ⟨(nomatch ·), fun h => nomatch h.1.1⟩

/-- Blocks are compiled to blocks. -/
theorem isSome_asOverride? (hblocks : ∀ n ∈ ns, n.isBlock = true) {w w' : Walk} {steps : List Step}
    (h : compileNodes source strictVariables ns w = .ok (steps, w')) :
    ∀ step ∈ steps, step.asOverride?.isSome = true := by
  induction ns generalizing w steps with
  | nil =>
    rw [compileNodes] at h
    obtain ⟨rfl, rfl⟩ := Prod.mk.inj (Except.ok.inj h)
    exact List.forall_mem_nil _
  | cons n ns ih =>
    obtain ⟨hn, hns⟩ := List.forall_mem_cons.mp hblocks
    rw [compileNodes] at h
    obtain ⟨first, mid, hfirst, hrest⟩ := bind_eq_ok.mp h
    obtain ⟨others, hothers, rfl⟩ := map_eq_ok.mp hrest
    refine List.forall_mem_append.mpr ⟨?_, ih hns hothers⟩
    cases n with
    | block name children indent line =>
      rw [compileNode] at hfirst
      obtain ⟨inner, -, rfl⟩ := map_eq_ok.mp hfirst
      exact List.forall_mem_singleton.mpr rfl
    | text | interpolation | sectionNode | partialNode | parent | pragma => cases hn

/-- The nodes below a tag. -/
theorem Differ.ofTag (h : Differ source source' strictVariables ch c ns ns') (t : Token)
    (name : String) (stop stop' : Nat) (hbody : ch.around (bodyText source t.stop stop)) :
    Differ source source' strictVariables ch c [Node.ofTag t name ns stop]
      [Node.ofTag t name ns' stop'] where
  ne_nil := List.cons_ne_nil _ _
  ne_nil' := List.cons_ne_nil _ _
  blocks hall := by
    rw [List.forall_mem_singleton] at hall ⊢
    rcases Node.ofTag_cases t with hblock | hparent | ⟨inverted, hsection⟩
    · rw [hblock]
      rfl
    · rw [hparent] at hall
      cases hall
    · rw [hsection] at hall
      cases hall
  compiles w steps w' hw hrun := by
    rw [compileNodes_singleton] at hrun ⊢
    rcases Node.ofTag_cases t with hblock | hparent | ⟨inverted, hsection⟩
    · rw [hblock, compileNode, map_eq_ok] at hrun
      obtain ⟨inner, hinner, rfl⟩ := hrun
      obtain ⟨inner', hinner', hdiffer⟩ := h.compiles w inner w' hw hinner
      rw [hblock, hblock, compileNode]
      refine ⟨_, map_eq_ok.mpr ⟨inner', hinner', rfl⟩, ?_⟩
      rcases hdiffer with ⟨rfl, hindent⟩ | ⟨hdiffer, hindent⟩
      · refine .inl ⟨?_, fun own => rfl⟩
        rw [funext hindent]
      · refine .inr ⟨.block [] [] name _ _ ?_ hdiffer, fun own => .inl rfl⟩
        cases t.indent with
        | none => exact .inl rfl
        | some own => exact (hindent own).imp (congrArg some) fun hopens => ⟨rfl, rfl, hopens⟩
    · rw [hparent, compileNode, map_eq_ok] at hrun
      obtain ⟨os, hos, rfl⟩ := hrun
      obtain ⟨hblocks, inner, hinner, rfl⟩ := compileOverrides_eq_ok.mp hos
      obtain ⟨inner', hinner', hdiffer⟩ := h.compiles w inner w' hw hinner
      rw [hparent, hparent, compileNode]
      refine ⟨_, map_eq_ok.mpr ⟨_, compileOverrides_eq_ok.mpr
        ⟨h.blocks hblocks, inner', hinner', rfl⟩, rfl⟩, ?_⟩
      rcases hdiffer with ⟨rfl, -⟩ | ⟨hdiffer, -⟩
      · exact .inl ⟨rfl, fun own => rfl⟩
      · obtain ⟨before, after, block, dedent, part, part', hpart, hpart', hin⟩ :=
          hdiffer.overrides (isSome_asOverride? hblocks hinner)
        rw [hpart, hpart']
        exact .inr ⟨.parent [] [] name t.indent before after block dedent hin, fun own => .inl rfl⟩
    · rw [hsection] at hrun ⊢
      rw [hsection]
      cases inverted with
      | true =>
        rw [compileNode] at hrun ⊢
        obtain ⟨_, _, hget, hrest⟩ := bind_eq_ok.mp hrun
        obtain ⟨rfl, rfl⟩ := Prod.mk.inj (Except.ok.inj hget)
        obtain ⟨inner, hinner, rfl⟩ := map_eq_ok.mp hrest
        obtain ⟨inner', hinner', hdiffer⟩ := h.compiles w inner w' hw hinner
        refine ⟨_, bind_eq_ok.mpr ⟨w, w, rfl, map_eq_ok.mpr ⟨inner', hinner', rfl⟩⟩, ?_⟩
        rcases hdiffer with ⟨rfl, -⟩ | ⟨hdiffer, -⟩
        · exact .inl ⟨rfl, fun own => rfl⟩
        · exact .inr ⟨.inverted [] [] _ hdiffer, fun own => .inl rfl⟩
      | false =>
        rw [compileNode] at hrun ⊢
        obtain ⟨_, _, hget, hrest⟩ := bind_eq_ok.mp hrun
        obtain ⟨rfl, rfl⟩ := Prod.mk.inj (Except.ok.inj hget)
        obtain ⟨inner, hinner, rfl⟩ := map_eq_ok.mp hrest
        obtain ⟨inner', hinner', hdiffer⟩ := h.compiles w inner w' hw hinner
        refine ⟨_, bind_eq_ok.mpr ⟨w, w, rfl, map_eq_ok.mpr ⟨inner', hinner', rfl⟩⟩, .inr ⟨?_,
          fun own => .inl rfl⟩⟩
        rcases hdiffer with ⟨rfl, -⟩ | ⟨hdiffer, -⟩
        · exact .body [] [] _ _ _ _ _ hbody
        · exact .sectionStep [] [] _ _ _ _ hbody hdiffer

/-! ### The tree -/

theorem follows_movedAll {before before' tail : List Char} (k k' : Nat) (ns : List Node) :
    Follows (before ++ tail) (before' ++ tail) strictVariables
      (movedAll (Text.byteLength before) k ns) (movedAll (Text.byteLength before') k' ns) := by
  intro w r hrun
  rw [moves_compileNodes before tail] at hrun
  rw [moves_compileNodes before' tail]
  cases hns : compileNodes tail strictVariables ns w with
  | error f =>
    rw [hns] at hrun
    cases hrun
  | ok r' =>
    rw [hns] at hrun
    exact hrun

/-- A tag that opens leaves the pragmas as they are. -/
theorem foldl_enables_push (m : Machine) (t : Token) :
    (m.push t).soFar.foldl Node.enables c = m.soFar.foldl Node.enables c := by
  rw [Machine.soFar_push, List.foldl_append, List.foldl_cons, List.foldl_nil]
  rcases Node.ofTag_cases t with h | h | ⟨inverted, h⟩
  all_goals
    rw [h]
    rfl

/-- What lies between a tag in front of the spot and a tag behind it. -/
theorem encloses_bodyText {before spot after pre x y z : List Char} (hbefore : before = pre ++ x)
    (hafter : after = y ++ z) : Encloses before spot after (bodyText (before ++ spot ++ after)
      (Text.byteLength pre) (Text.byteLength y + Text.byteLength (before ++ spot))) := by
  subst hbefore hafter
  refine ⟨x, y, List.suffix_append pre x, List.prefix_append y z, ?_⟩
  have hsource : pre ++ x ++ spot ++ (y ++ z) = pre ++ (x ++ spot ++ y) ++ z := by simp
  have hstop : Text.byteLength y + Text.byteLength (pre ++ x ++ spot) =
      Text.byteLength pre + Text.byteLength (x ++ spot ++ y) := by
    simp only [Text.byteLength_append]
    omega
  rw [bodyText, hsource, hstop, Text.sliceBytes?_append]
  exact String.toList_ofList

/-- **Two trees differ in one place** if they do below the tag that is open there. What is read in
front of the spot lies in `before`, and what is read behind it in `after`. -/
theorem exists_run_differ {before spot spot' after : List Char}
    (haround : ∀ text, Encloses before spot after text → ch.around text)
    {m : Machine} (hm : m.StopsBy (Text.byteLength before))
    (htags : ∀ f ∈ m.stack, ∃ pre x, before = pre ++ x ∧ f.tag.stop = Text.byteLength pre)
    {s : PragmaSet} {ts : List Token}
    (hts : ∀ t ∈ ts, ∃ y z, after = y ++ z ∧ t.start = Text.byteLength y) {k : Nat}
    {tree : List Node} (hrun : (m.bare.addAll s ns).run
      (ts.map (Token.moved (Text.byteLength (before ++ spot)) k)) = .ok tree)
    (h : Differ (before ++ spot ++ after) (before ++ spot' ++ after) strictVariables ch
      (m.bare.soFar.foldl Node.enables c) ns ns') (k' : Nat) :
    ∃ tree', (m.bare.addAll s ns').run
        (ts.map (Token.moved (Text.byteLength (before ++ spot')) k')) = .ok tree' ∧
      Differ (before ++ spot ++ after) (before ++ spot' ++ after) strictVariables ch c tree
        tree' := by
  have hblocks (n k n' k' : Nat) (more : List Node)
      (hall : ∀ b ∈ movedAll n k more, b.isBlock = true) :
      ∀ b ∈ movedAll n' k' more, b.isBlock = true := by
    rw [Node.movedAll_eq_map, List.forall_mem_map] at hall ⊢
    intro b hb
    have hb' := hall b hb
    cases b <;> first | rfl | cases hb'
  have hfront : ∀ ms : List Node, (∀ n : Node, n.In ms → n.StopsBy (Text.byteLength before)) →
      Follows (before ++ spot ++ after) (before ++ spot' ++ after) strictVariables ms ms := by
    intro ms hms w r hrun
    rw [List.append_assoc, compileNodes_append_right _ _ _ ms hms] at hrun
    rwa [List.append_assoc, compileNodes_append_right _ _ _ ms hms]
  induction hstack : m.stack generalizing m s ts ns ns' with
  | nil =>
    obtain ⟨more, ⟨-, hread⟩ | ⟨f, fs, s', close, rest, hopen, -⟩⟩ := Machine.run_below hrun
    · have hempty : m.bare.nodes = [] ∧ m.bare.soFar = [] := by
        obtain ⟨s₀, stack, nodes⟩ := m
        obtain rfl : stack = [] := hstack
        exact ⟨rfl, rfl⟩
      rw [hempty.2] at h
      rw [hread, hempty.1] at hrun
      obtain rfl := Except.ok.inj hrun
      refine ⟨_, hread ns' _ k', ?_⟩
      rw [hempty.1]
      exact h.append (follows_movedAll k k' more) (hblocks _ _ _ _ more)
    · obtain ⟨s₀, stack, nodes⟩ := m
      obtain rfl : stack = [] := hstack
      cases hopen
  | cons f fs ih =>
    obtain ⟨more, ⟨hopen, -⟩ | ⟨f', fs', s', close, rest, hopen, hclose, hrest, hread⟩⟩ :=
      Machine.run_below hrun
    · obtain ⟨s₀, stack, nodes⟩ := m
      obtain rfl : stack = f :: fs := hstack
      cases hopen
    · obtain ⟨s₀, stack, nodes⟩ := m
      obtain rfl : stack = f :: fs := hstack
      obtain ⟨rfl, rfl⟩ := List.cons.inj hopen
      -- the tag is closed, and its node goes below the tag that is open then
      have hclosed (us : List Node) (n l : Nat) :
          ((Machine.bare ⟨s₀, f :: fs, nodes⟩).addAll s us).run (ts.map (Token.moved n l)) =
          ((Machine.bare ⟨s', fs, nodes⟩).addAll s' (Machine.below ⟨s', fs, nodes⟩ ++
            [Node.ofTag f.tag f.tag.value (us ++ movedAll n l more) (close.start + n)])).run
            (rest.map (Token.moved n l)) := by
        rw [hread, Machine.add_eq_addAll, ← Machine.addAll_bare]
        rfl
      rw [hclosed] at hrun ⊢
      have hm' : Machine.StopsBy (Text.byteLength before) ⟨s', fs, nodes⟩ :=
        ⟨hm.nodes, fun g hg => hm.within g (List.mem_cons_of_mem f hg)⟩
      have hbody : ch.around (bodyText (before ++ spot ++ after) f.tag.stop
          (close.start + Text.byteLength (before ++ spot))) := by
        obtain ⟨pre, x, hbefore, hstop⟩ := htags f List.mem_cons_self
        obtain ⟨y, z, hafter, hstart⟩ := hts close hclose
        rw [hstop, hstart]
        exact haround _ (encloses_bodyText hbefore hafter)
      refine ih hm' (fun g hg => htags g (List.mem_cons_of_mem f hg))
        (fun t ht => hts t (hrest.subset ht)) hrun (.behind (hfront _ ?_) ?_
        ((h.append (follows_movedAll k k' more) (hblocks _ _ _ _ more)).ofTag f.tag f.tag.value _ _
          hbody)) rfl
      · cases fs with
        | nil => exact hm.nodes
        | cons g fs => exact hm.within g (List.mem_cons_of_mem f List.mem_cons_self)
      · rw [← List.foldl_append, ← Machine.soFar_bare]
        exact (foldl_enables_push ⟨s', fs, nodes⟩ f.tag).symm

end

end Template

end Mustache
