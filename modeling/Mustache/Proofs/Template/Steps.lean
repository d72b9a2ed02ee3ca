import Mustache.Proofs.Node.Parsed
import Mustache.Proofs.Render.Printing

/-!
From trees to steps. A tree whose parents hold blocks alone always compiles, and its steps put out
what its texts and indents do. Main statement: `exists_compile`.
-/

namespace Mustache

/-- What the node puts out of its own has `ok`, and it holds nothing that does not compile. -/
structure Node.Fine (ok : Char → Prop) (n : Node) : Prop where
  text : ∀ text, n = .text text → MadeOf ok text
  escaped : ∀ name line, n = .interpolation name false line → ∀ c, ok c
  indent : ∀ own ∈ n.indent?, MadeOf ok own
  blocks : ∀ name indent blocks line, n = .parent name indent blocks line →
    ∀ b ∈ blocks, b.isBlock = true

namespace Template

variable {α β : Type}

/-- `act` succeeds, whatever the walk has come to, and what it gives has `post`. -/
def Makes (act : Compile α) (post : α → Prop) : Prop :=
  ∀ w, ∃ a w', act w = .ok (a, w') ∧ post a

theorem makes_pure {a : α} {post : α → Prop} (h : post a) : Makes (pure a) post :=
  fun w => ⟨a, w, rfl, h⟩

theorem makes_get : Makes get fun _ => True := fun w => ⟨w, w, rfl, trivial⟩

theorem makes_modify (f : Walk → Walk) : Makes (modify f) fun _ => True :=
  fun w => ⟨(), f w, rfl, trivial⟩

theorem makes_takeLineStart : Makes takeLineStart fun _ => True :=
  fun w => ⟨w.lineStart, { w with lineStart := false }, rfl, trivial⟩

theorem Makes.bind {act : Compile α} {next : α → Compile β} {mid : α → Prop} {post : β → Prop}
    (hact : Makes act mid) (hnext : ∀ a, mid a → Makes (next a) post) :
    Makes (act >>= next) post := by
  intro w
  obtain ⟨a, w', hrun, ha⟩ := hact w
  obtain ⟨b, w'', hrun', hb⟩ := hnext a ha w'
  refine ⟨b, w'', ?_, hb⟩
  change (act w >>= fun p => next p.1 p.2) = _
  rw [hrun]
  exact hrun'

section

variable {ok : Char → Prop}

theorem madeOf_blockIndent {children : List Node} {tag : String}
    (hchildren : ∀ m : Node, m.In children → m.Fine ok) (htag : MadeOf ok tag) :
    MadeOf ok (blockIndent children tag) := by
  unfold blockIndent
  split
  · rename_i text rest
    have htext := (hchildren (.text text) (.here List.mem_cons_self)).text text rfl
    rw [madeOf_ofList]
    exact fun c hc => htext c ((List.takeWhile_prefix _).subset hc)
  · exact htag

variable (source : List Char) (strictVariables : Bool)

mutual

theorem makes_compileNode : ∀ n : Node, n.Fine ok → (∀ m : Node, m.In n.children → m.Fine ok) →
    Makes (compileNode source strictVariables n) fun steps => ∀ step ∈ steps, step.Prints ok
  | .text text, hn, _ => by
    rw [compileNode]
    refine makes_takeLineStart.bind fun lineStart _ => ?_
    refine (makes_modify _).bind fun _ _ => makes_pure ?_
    exact List.forall_mem_singleton.mpr (.text (hn.text text rfl))
  | .interpolation name escape line, hn, _ => by
    rw [compileNode]
    refine makes_get.bind fun w _ => makes_takeLineStart.bind fun lineStart _ => makes_pure ?_
    refine List.forall_mem_singleton.mpr (.interpolation fun hraw => ?_)
    exact hn.escaped name line (by rw [hraw])
  | .sectionNode name false children start stop delimiters line, _, hchildren => by
    rw [compileNode]
    refine makes_get.bind fun w _ => ?_
    refine (makes_compileNodes children hchildren).bind fun steps hsteps => makes_pure ?_
    exact List.forall_mem_singleton.mpr (.sectionStep hsteps)
  | .sectionNode name true children start stop delimiters line, _, hchildren => by
    rw [compileNode]
    refine makes_get.bind fun w _ => ?_
    refine (makes_compileNodes children hchildren).bind fun steps hsteps => makes_pure ?_
    exact List.forall_mem_singleton.mpr (.inverted hsteps)
  | .partialNode name dynamic indent line, hn, _ => by
    rw [compileNode]
    refine makes_pure ?_
    exact List.forall_mem_singleton.mpr (.partialStep hn.indent)
  | .parent name indent blocks line, hn, hchildren => by
    rw [compileNode]
    refine (makes_compileOverrides name line blocks (hn.blocks _ _ _ _ rfl) hchildren).bind
      fun overrides hoverrides => makes_pure ?_
    exact List.forall_mem_singleton.mpr (.parent hn.indent hoverrides)
  | .block name children indent line, hn, hchildren => by
    rw [compileNode]
    refine (makes_compileNodes children hchildren).bind fun steps hsteps => makes_pure ?_
    refine List.forall_mem_singleton.mpr (.block (fun own hown => ?_) hsteps)
    obtain ⟨tag, htag, rfl⟩ := Option.map_eq_some_iff.mp hown
    exact madeOf_blockIndent hchildren (hn.indent tag htag)
  | .pragma name line, _, _ => by
    rw [compileNode]
    exact (makes_modify _).bind fun _ _ => makes_pure fun _ hstep => nomatch hstep

theorem makes_compileNodes : ∀ ns : List Node, (∀ m : Node, m.In ns → m.Fine ok) →
    Makes (compileNodes source strictVariables ns) fun steps => ∀ step ∈ steps, step.Prints ok
  | [], _ => by
    rw [compileNodes]
    exact makes_pure fun _ hstep => nomatch hstep
  | n :: ns, hns => by
    rw [compileNodes]
    have hn := hns n (.here List.mem_cons_self)
    have hchildren : ∀ m : Node, m.In n.children → m.Fine ok :=
      fun m hm => hns m (.inside List.mem_cons_self hm)
    refine (makes_compileNode n hn hchildren).bind fun steps hsteps => ?_
    have hrest : ∀ m : Node, m.In ns → m.Fine ok :=
      fun m hm => hns m (Node.In.cons_iff.mpr (Or.inr (Or.inr hm)))
    refine (makes_compileNodes ns hrest).bind fun steps' hsteps' => makes_pure ?_
    exact List.forall_mem_append.mpr ⟨hsteps, hsteps'⟩

theorem makes_compileOverrides (parent : String) (line : Nat) : ∀ ns : List Node,
    (∀ n ∈ ns, n.isBlock = true) → (∀ m : Node, m.In ns → m.Fine ok) →
    Makes (compileOverrides source strictVariables parent line ns) fun overrides =>
      ∀ o ∈ overrides, ∀ step ∈ o.steps, step.Prints ok
  | [], _, _ => by
    rw [compileOverrides]
    exact makes_pure fun _ ho => nomatch ho
  | .block name children indent _ :: ns, hblocks, hns => by
    rw [compileOverrides]
    have hchildren : ∀ m : Node, m.In children → m.Fine ok :=
      fun m hm => hns m (.inside List.mem_cons_self hm)
    refine (makes_compileNodes children hchildren).bind fun steps hsteps => ?_
    have hrest : ∀ m : Node, m.In ns → m.Fine ok :=
      fun m hm => hns m (Node.In.cons_iff.mpr (Or.inr (Or.inr hm)))
    refine (makes_compileOverrides parent line ns (List.forall_mem_cons.mp hblocks).2 hrest).bind
      fun overrides hoverrides => makes_pure ?_
    exact List.forall_mem_cons.mpr ⟨hsteps, hoverrides⟩
  | .text _ :: _, hblocks, _ => absurd (hblocks _ List.mem_cons_self) Bool.false_ne_true
  | .interpolation .. :: _, hblocks, _ => absurd (hblocks _ List.mem_cons_self) Bool.false_ne_true
  | .sectionNode .. :: _, hblocks, _ => absurd (hblocks _ List.mem_cons_self) Bool.false_ne_true
  | .partialNode .. :: _, hblocks, _ => absurd (hblocks _ List.mem_cons_self) Bool.false_ne_true
  | .parent .. :: _, hblocks, _ => absurd (hblocks _ List.mem_cons_self) Bool.false_ne_true
  | .pragma .. :: _, hblocks, _ => absurd (hblocks _ List.mem_cons_self) Bool.false_ne_true

end

end

/-- **A tree of fine nodes compiles**, and the steps of the template put out what is `ok`. -/
theorem exists_compile {ok : Char → Prop} {tree : List Node}
    (htree : ∀ n : Node, n.In tree → n.Fine ok) (options : CompileOptions) (name source : String) :
    ∃ steps, compile options name source tree =
        .ok { name, key := options.key, source, escape := options.escape,
              strictCallables := options.strictCallables, steps } ∧
      ∀ step ∈ steps, step.Prints ok := by
  obtain ⟨steps, w, hrun, hsteps⟩ :=
    makes_compileNodes source.toList options.strictVariables tree htree ⟨options.pragmas, true⟩
  refine ⟨steps, ?_, hsteps⟩
  unfold compile StateT.run
  rw [hrun]

section

variable {d : Delimiters} {s : PragmaSet} {source : String} {ts : List Token} {tree : List Node}

theorem fine_of_ofTokens (hscan : Token.scan d source = .ok ts)
    (h : Node.ofTokens s ts = .ok tree) : ∀ n : Node, n.In tree → n.Fine fun _ => True := by
  intro n hn
  have hregular := Node.regular_of_ofTokens hscan h hn
  exact ⟨fun _ _ _ _ => trivial, fun _ _ _ _ => trivial, fun _ _ _ _ => trivial, hregular.blocks⟩

/-- The tree of a source compiles, whatever the options. -/
theorem exists_compile_of_ofTokens (hscan : Token.scan d source = .ok ts)
    (h : Node.ofTokens s ts = .ok tree) (options : CompileOptions) (name : String) :
    ∃ t, compile options name source tree = .ok t := by
  obtain ⟨steps, hsteps, -⟩ := exists_compile (fine_of_ofTokens hscan h) options name source
  exact ⟨_, hsteps⟩

end

end Template

end Mustache
