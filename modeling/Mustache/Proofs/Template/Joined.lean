import Mustache.Proofs.Node.Joined
import Mustache.Proofs.Render.Indent
import Mustache.Proofs.Template.Heads
import Mustache.Proofs.Template.Moved
import Mustache.Proofs.Template.Steps

/-!
Compiling trees put together. A section finds its body in a longer source as well, and what comes
behind a tree is compiled as on its own, but for the marks on what begins a line: if the tree does
not leave the start of a line behind, the first text or variable that follows it loses its mark.
Main statement: `compile_append`.
-/

namespace Mustache

/-! ### Longer sources -/

namespace Text

theorem splitAtByte?_append_right {i : Nat} {cs : List Char} (h : i ≤ byteLength cs)
    (more : List Char) :
    splitAtByte? i (cs ++ more) = (splitAtByte? i cs).map fun p => (p.1, p.2 ++ more) := by
  induction cs generalizing i with
  | nil =>
    obtain rfl : i = 0 := Nat.le_zero.mp h
    cases more <;> rfl
  | cons c cs ih =>
    cases i with
    | zero => rfl
    | succ i =>
      rw [List.cons_append, splitAtByte?, splitAtByte?]
      split
      · rename_i hsize
        rw [byteLength_cons] at h
        rw [ih (by omega), Option.map_map, Option.map_map]
        rfl
      · rfl

theorem of_splitAtByte? {i : Nat} {cs before after : List Char}
    (h : splitAtByte? i cs = some (before, after)) : cs = before ++ after ∧ byteLength before = i := by
  induction cs generalizing i before with
  | nil =>
    cases i with
    | zero =>
      cases h
      exact ⟨rfl, rfl⟩
    | succ i => cases h
  | cons c cs ih =>
    cases i with
    | zero =>
      cases h
      exact ⟨rfl, rfl⟩
    | succ i =>
      rw [splitAtByte?] at h
      split at h
      · obtain ⟨⟨b, a⟩, hsplit, heq⟩ := Option.map_eq_some_iff.mp h
        obtain ⟨rfl, rfl⟩ := Prod.mk.inj heq
        obtain ⟨rfl, hlength⟩ := ih hsplit
        refine ⟨rfl, ?_⟩
        simp only [byteLength_cons]
        omega
      · cases h

/-- A slice of a text is one of every text that goes on behind it. -/
theorem sliceBytes?_append_right {start stop : Nat} {cs : List Char} (h : stop ≤ byteLength cs)
    (more : List Char) : sliceBytes? start stop (cs ++ more) = sliceBytes? start stop cs := by
  unfold sliceBytes?
  by_cases hle : start ≤ stop
  · rw [splitAtByte?_append_right (by omega)]
    cases hsplit : splitAtByte? start cs with
    | none => rfl
    | some p =>
      obtain ⟨before, rest⟩ := p
      have hlength : stop - start ≤ byteLength rest := by
        obtain ⟨rfl, hbefore⟩ := of_splitAtByte? hsplit
        rw [byteLength_append] at h
        omega
      have hrest := splitAtByte?_append_right hlength more
      rw [Option.map_some, show (guard (start ≤ stop) : Option Unit) = some () from if_pos hle]
      change (splitAtByte? (stop - start) (rest ++ more) >>= fun p => some p.1) =
        (splitAtByte? (stop - start) rest >>= fun p => some p.1)
      rw [hrest]
      cases splitAtByte? (stop - start) rest <;> rfl
  · rw [show (guard (start ≤ stop) : Option Unit) = none from if_neg hle]
    rfl

end Text

namespace Template

section

variable (source more : List Char) (strictVariables : Bool)

mutual

theorem compileNode_append_right : ∀ n : Node, n.StopsBy (Text.byteLength source) →
    (∀ m : Node, m.In n.children → m.StopsBy (Text.byteLength source)) →
    compileNode (source ++ more) strictVariables n = compileNode source strictVariables n
  | .text text, _, _ => by rw [compileNode, compileNode]
  | .interpolation .., _, _ => by rw [compileNode, compileNode]
  | .sectionNode name false children start stop delimiters line, hn, hchildren => by
    rw [compileNode, compileNode, compileNodes_append_right children hchildren, bodyText, bodyText,
      Text.sliceBytes?_append_right (hn _ _ _ _ _ _ _ rfl)]
  | .sectionNode name true children start stop delimiters line, _, hchildren => by
    rw [compileNode, compileNode, compileNodes_append_right children hchildren]
  | .partialNode .., _, _ => by rw [compileNode, compileNode]
  | .parent name indent blocks line, _, hchildren => by
    rw [compileNode, compileNode, compileOverrides_append_right name line blocks hchildren]
  | .block name children indent line, _, hchildren => by
    rw [compileNode, compileNode, compileNodes_append_right children hchildren]
  | .pragma .., _, _ => by rw [compileNode, compileNode]

theorem compileNodes_append_right : ∀ ns : List Node,
    (∀ m : Node, m.In ns → m.StopsBy (Text.byteLength source)) →
    compileNodes (source ++ more) strictVariables ns = compileNodes source strictVariables ns
  | [], _ => by rw [compileNodes, compileNodes]
  | n :: ns, hns => by
    rw [compileNodes, compileNodes,
      compileNode_append_right n (hns n (.here List.mem_cons_self))
        fun m hm => hns m (.inside List.mem_cons_self hm),
      compileNodes_append_right ns fun m hm => hns m (Node.In.cons_iff.mpr (Or.inr (Or.inr hm)))]

theorem compileOverrides_append_right (parent : String) (line : Nat) : ∀ ns : List Node,
    (∀ m : Node, m.In ns → m.StopsBy (Text.byteLength source)) →
    compileOverrides (source ++ more) strictVariables parent line ns =
      compileOverrides source strictVariables parent line ns
  | [], _ => by rw [compileOverrides, compileOverrides]
  | .block name children indent _ :: ns, hns => by
    rw [compileOverrides, compileOverrides,
      compileNodes_append_right children fun m hm => hns m (.inside List.mem_cons_self hm),
      compileOverrides_append_right parent line ns
        fun m hm => hns m (Node.In.cons_iff.mpr (Or.inr (Or.inr hm)))]
  | .text _ :: _, _ => by rw [compileOverrides, compileOverrides] <;> simp
  | .interpolation .. :: _, _ => by rw [compileOverrides, compileOverrides] <;> simp
  | .sectionNode .. :: _, _ => by rw [compileOverrides, compileOverrides] <;> simp
  | .partialNode .. :: _, _ => by rw [compileOverrides, compileOverrides] <;> simp
  | .parent .. :: _, _ => by rw [compileOverrides, compileOverrides] <;> simp
  | .pragma .. :: _, _ => by rw [compileOverrides, compileOverrides] <;> simp

end

end

/-! ### The first mark -/

end Template

namespace Node

mutual

/-- Whether the first text or variable of a node stands in a parent tag; nothing if there is
none. -/
def firstInParent? : Node → Option Bool
  | text _ | interpolation .. => some false
  | sectionNode _ _ children _ _ _ _ => anyFirstInParent? children
  | parent _ _ blocks _ => (anyFirstInParent? blocks).map fun _ => true
  | block _ children _ _ => anyFirstInParent? children
  | partialNode .. | pragma .. => none

def anyFirstInParent? : List Node → Option Bool
  | [] => none
  | n :: ns => (firstInParent? n).or (anyFirstInParent? ns)

end

mutual

theorem firstInParent?_moved (k m : Nat) : ∀ n : Node,
    firstInParent? (n.moved k m) = firstInParent? n
  | text _ => by rw [moved]
  | interpolation .. => by rw [moved, firstInParent?, firstInParent?]
  | partialNode .. => by rw [moved, firstInParent?, firstInParent?]
  | pragma .. => by rw [moved, firstInParent?, firstInParent?]
  | sectionNode _ _ children _ _ _ _ => by
    rw [moved, firstInParent?, firstInParent?, anyFirstInParent?_movedAll k m children]
  | parent _ _ blocks _ => by
    rw [moved, firstInParent?, firstInParent?, anyFirstInParent?_movedAll k m blocks]
  | block _ children _ _ => by
    rw [moved, firstInParent?, firstInParent?, anyFirstInParent?_movedAll k m children]

theorem anyFirstInParent?_movedAll (k m : Nat) : ∀ ns : List Node,
    anyFirstInParent? (movedAll k m ns) = anyFirstInParent? ns
  | [] => by rw [movedAll]
  | n :: ns => by
    rw [movedAll, anyFirstInParent?, anyFirstInParent?, firstInParent?_moved k m n,
      anyFirstInParent?_movedAll k m ns]

end

end Node

namespace Step

mutual

/-- The step with no piece of its own output marked. Overrides keep their marks. -/
def unmarked : Step → Step
  | text t _ => text t false
  | interpolation name escape strict _ => interpolation name escape strict false
  | sectionStep name strict body delimiters steps =>
    sectionStep name strict body delimiters (allUnmarked steps)
  | inverted name steps => inverted name (allUnmarked steps)
  | partialStep name indent => partialStep name indent
  | parent name indent overrides => parent name indent overrides
  | block name indent steps => block name indent (allUnmarked steps)

def allUnmarked : List Step → List Step
  | [] => []
  | step :: steps => unmarked step :: allUnmarked steps

end

theorem allUnmarked_append (steps others : List Step) :
    allUnmarked (steps ++ others) = allUnmarked steps ++ allUnmarked others := by
  induction steps with
  | nil => rfl
  | cons step steps ih => rw [List.cons_append, allUnmarked, ih]; rfl

end Step

namespace Template

/-- Where it succeeds, `act` succeeds under the other mark too, and gives the same but for the
marks that `view` passes over. The marks left behind are those it started with if nothing took
them, and otherwise the same. -/
def Marks (view : α → β) (first : Option Bool) (act : Compile α) : Prop :=
  ∀ c b b' a w, act ⟨c, b⟩ = .ok (a, w) → ∃ a' w', act ⟨c, b'⟩ = .ok (a', w') ∧
    w'.pragmas = w.pragmas ∧ match first with
      | none => a' = a ∧ w.lineStart = b ∧ w'.lineStart = b'
      | some _ => view a' = view a ∧ w'.lineStart = w.lineStart

section

variable {α β γ δ : Type} {view : α → β} {u : γ → δ} {first : Option Bool} {act : Compile α}

/-- What is made of the outcome alone. -/
theorem Marks.map (h : Marks view first act) (f : α → γ)
    (hf : ∀ a a', view a = view a' → u (f a) = u (f a')) :
    Marks u first (do return f (← act)) := by
  intro c b b' x w hrun
  obtain ⟨a, mid, hact, hpure⟩ := bind_eq_ok.mp hrun
  obtain ⟨rfl, rfl⟩ := Prod.mk.inj (Except.ok.inj hpure)
  obtain ⟨a', w', hact', hpragmas, hmarks⟩ := h c b b' a mid hact
  refine ⟨f a', w', bind_eq_ok.mpr ⟨a', w', hact', rfl⟩, hpragmas, ?_⟩
  cases first with
  | none => exact ⟨congrArg f hmarks.1, hmarks.2⟩
  | some _ => exact ⟨hf _ _ hmarks.1, hmarks.2⟩

end

section

variable (source : List Char) (strictVariables : Bool)

mutual

theorem marks_compileNode : ∀ n : Node, n.firstInParent? ≠ some true →
    Marks Step.allUnmarked n.firstInParent? (compileNode source strictVariables n)
  | .text text, _ => by
    intro c b b' steps w hrun
    rw [compileNode] at hrun ⊢
    obtain ⟨rfl, rfl⟩ := Prod.mk.inj (Except.ok.inj hrun)
    exact ⟨_, _, rfl, rfl, rfl, rfl⟩
  | .interpolation name escape line, _ => by
    intro c b b' steps w hrun
    rw [compileNode] at hrun ⊢
    obtain ⟨rfl, rfl⟩ := Prod.mk.inj (Except.ok.inj hrun)
    exact ⟨_, _, rfl, rfl, rfl, rfl⟩
  | .sectionNode name false children start stop delimiters line, h => by
    intro c b b' steps w hrun
    rw [compileNode] at hrun ⊢
    have hchildren := (marks_compileNodes children h).map (u := Step.allUnmarked)
      (fun steps => [Step.sectionStep (Name.parse c.filters name)
        (strictVariables || c.strictVariables) (bodyText source start stop) delimiters steps])
      (fun _ _ heq => by simp only [Step.allUnmarked, Step.unmarked, heq])
    exact hchildren c b b' steps w hrun
  | .sectionNode name true children start stop delimiters line, h => by
    intro c b b' steps w hrun
    rw [compileNode] at hrun ⊢
    have hchildren := (marks_compileNodes children h).map (u := Step.allUnmarked)
      (fun steps => [Step.inverted (Name.parse c.filters name) steps])
      (fun _ _ heq => by simp only [Step.allUnmarked, Step.unmarked, heq])
    exact hchildren c b b' steps w hrun
  | .partialNode name dynamic indent line, _ => by
    intro c b b' steps w hrun
    rw [compileNode] at hrun ⊢
    obtain ⟨rfl, rfl⟩ := Prod.mk.inj (Except.ok.inj hrun)
    exact ⟨_, _, rfl, rfl, rfl, rfl, rfl⟩
  | .parent name indent blocks line, h => by
    have hnone : Node.anyFirstInParent? blocks = none := by
      cases hfirst : Node.anyFirstInParent? blocks with
      | none => rfl
      | some _ => exact absurd (by rw [Node.firstInParent?, hfirst]; rfl) h
    have hoverrides := (marks_compileOverrides name line blocks hnone).map
      (u := Step.allUnmarked) (fun os => [Step.parent name indent os]) (fun _ _ heq => by
        obtain rfl : _ = _ := heq
        rfl)
    rw [Node.firstInParent?, hnone, compileNode]
    exact hoverrides
  | .block name children indent line, h => by
    rw [compileNode]
    exact (marks_compileNodes children h).map
      (fun steps => [Step.block name (indent.map (blockIndent children)) steps])
      (fun _ _ heq => by simp only [Step.allUnmarked, Step.unmarked, heq])
  | .pragma name line, _ => by
    intro c b b' steps w hrun
    rw [compileNode] at hrun ⊢
    obtain ⟨rfl, rfl⟩ := Prod.mk.inj (Except.ok.inj hrun)
    exact ⟨_, _, rfl, rfl, rfl, rfl, rfl⟩

theorem marks_compileNodes : ∀ ns : List Node, Node.anyFirstInParent? ns ≠ some true →
    Marks Step.allUnmarked (Node.anyFirstInParent? ns) (compileNodes source strictVariables ns)
  | [], _ => by
    intro c b b' steps w hrun
    rw [compileNodes] at hrun ⊢
    obtain ⟨rfl, rfl⟩ := Prod.mk.inj (Except.ok.inj hrun)
    exact ⟨_, _, rfl, rfl, rfl, rfl, rfl⟩
  | n :: ns, h => by
    have hn : n.firstInParent? ≠ some true := fun hn => h (by rw [Node.anyFirstInParent?, hn]; rfl)
    have hnode := marks_compileNode n hn
    intro c b b' all w hrun
    rw [compileNodes] at hrun ⊢
    obtain ⟨steps, mid, hsteps, hrest⟩ := bind_eq_ok.mp hrun
    obtain ⟨others, w₁, hothers, hpure⟩ := bind_eq_ok.mp hrest
    obtain ⟨rfl, rfl⟩ := Prod.mk.inj (Except.ok.inj hpure)
    obtain ⟨steps', mid', hsteps', hpragmas, hmarks⟩ := hnode c b b' steps mid hsteps
    rw [Node.anyFirstInParent?] at h ⊢
    cases hfirst : n.firstInParent? with
    | none =>
      rw [hfirst] at hmarks h
      obtain ⟨rfl, hb, hb'⟩ := hmarks
      obtain ⟨others', w', hothers', hpragmas', hmarks'⟩ := marks_compileNodes ns h mid.pragmas
        mid.lineStart b' others w₁ hothers
      have hmid : mid' = ⟨mid.pragmas, b'⟩ := by
        obtain ⟨c', l⟩ := mid'
        rw [← hpragmas, ← hb']
      refine ⟨steps' ++ others', w', bind_eq_ok.mpr ⟨steps', mid', hsteps', bind_eq_ok.mpr
        ⟨others', w', by rw [hmid]; exact hothers', rfl⟩⟩, hpragmas', ?_⟩
      rw [Option.none_or]
      cases hothers : Node.anyFirstInParent? ns with
      | none =>
        rw [hothers] at hmarks'
        obtain ⟨rfl, hl, hl'⟩ := hmarks'
        exact ⟨rfl, hl.trans hb, hl'⟩
      | some _ =>
        rw [hothers] at hmarks'
        exact ⟨by rw [Step.allUnmarked_append, Step.allUnmarked_append, hmarks'.1], hmarks'.2⟩
    | some inParent =>
      rw [hfirst] at hmarks
      -- the walks agree from here on
      have hmid : mid' = mid := by
        obtain ⟨c', l⟩ := mid'
        rw [show c' = mid.pragmas from hpragmas, show l = mid.lineStart from hmarks.2]
      refine ⟨steps' ++ others, w₁, bind_eq_ok.mpr ⟨steps', mid', hsteps', bind_eq_ok.mpr
        ⟨others, w₁, by rw [hmid]; exact hothers, rfl⟩⟩, rfl, ?_, rfl⟩
      rw [Step.allUnmarked_append, Step.allUnmarked_append, hmarks.1]

theorem marks_compileOverrides (parent : String) (line : Nat) : ∀ ns : List Node,
    Node.anyFirstInParent? ns = none →
    Marks id none (compileOverrides source strictVariables parent line ns)
  | [], _ => by
    intro c b b' os w hrun
    rw [compileOverrides] at hrun ⊢
    obtain ⟨rfl, rfl⟩ := Prod.mk.inj (Except.ok.inj hrun)
    exact ⟨_, _, rfl, rfl, rfl, rfl, rfl⟩
  | .block name children indent _ :: ns, h => by
    rw [Node.anyFirstInParent?, Option.or_eq_none_iff] at h
    have hfirst : Node.anyFirstInParent? children = none := h.1
    have hchildren := marks_compileNodes children (by rw [hfirst]; exact fun h => nomatch h)
    rw [hfirst] at hchildren
    intro c b b' os w hrun
    rw [compileOverrides] at hrun ⊢
    obtain ⟨steps, mid, hsteps, hrest⟩ := bind_eq_ok.mp hrun
    obtain ⟨others, w₁, hothers, hpure⟩ := bind_eq_ok.mp hrest
    obtain ⟨rfl, rfl⟩ := Prod.mk.inj (Except.ok.inj hpure)
    obtain ⟨_, mid', hsteps', hpragmas, rfl, hb, hb'⟩ := hchildren c b b' steps mid hsteps
    obtain ⟨_, w', hothers', hpragmas', rfl, hl, hl'⟩ := marks_compileOverrides parent line ns h.2
      mid.pragmas mid.lineStart b' others w₁ hothers
    have hmid : mid' = ⟨mid.pragmas, b'⟩ := by
      obtain ⟨c', l⟩ := mid'
      rw [← hpragmas, ← hb']
    exact ⟨_, w', bind_eq_ok.mpr ⟨_, mid', hsteps', bind_eq_ok.mpr
      ⟨_, w', by rw [hmid]; exact hothers', rfl⟩⟩, hpragmas', rfl, hl.trans hb, hl'⟩
  | .text _ :: _, h => nomatch h
  | .interpolation .. :: _, h => nomatch h
  | .sectionNode .. :: _, _ => by
    intro c b b' os w hrun
    cases hrun
  | .partialNode .. :: _, _ => by
    intro c b b' os w hrun
    cases hrun
  | .parent .. :: _, _ => by
    intro c b b' os w hrun
    cases hrun
  | .pragma .. :: _, _ => by
    intro c b b' os w hrun
    cases hrun

end

end

/-- Nodes compile to the same steps but for marks, whether their output begins a line or not. -/
theorem allUnmarked_of_compileNodes {source : List Char} {strictVariables : Bool}
    {nodes : List Node} (hfirst : Node.anyFirstInParent? nodes ≠ some true) {pragmas : PragmaSet}
    {b b' : Bool} {steps steps' : List Step} {w w' : Walk}
    (h : compileNodes source strictVariables nodes ⟨pragmas, b⟩ = .ok (steps, w))
    (h' : compileNodes source strictVariables nodes ⟨pragmas, b'⟩ = .ok (steps', w')) :
    Step.allUnmarked steps = Step.allUnmarked steps' := by
  obtain ⟨others, w'', hrun, -, hview⟩ :=
    marks_compileNodes source strictVariables nodes hfirst pragmas b b' steps w h
  obtain ⟨rfl, -⟩ := Prod.mk.inj (Except.ok.inj (h'.symm.trans hrun))
  cases hfirst' : Node.anyFirstInParent? nodes with
  | none =>
    rw [hfirst'] at hview
    rw [hview.1]
  | some _ =>
    rw [hfirst'] at hview
    exact hview.1.symm

/-! ### Text around -/

/-- Nodes of a text compile in the same way wherever the text stands. -/
theorem compileNodes_within {body : List Char} {nodes : List Node}
    (hstops : ∀ n : Node, n.In nodes → n.StopsBy (Text.byteLength body)) (head tail : List Char)
    (m : Nat) (strictVariables : Bool) (w : Walk) {r : List Step × Walk} :
    compileNodes (head ++ body ++ tail) strictVariables
        (Node.movedAll (Text.byteLength head) m nodes) w = .ok r ↔
      compileNodes body strictVariables nodes w = .ok r := by
  have hmoves := moves_compileNodes head (body ++ tail) strictVariables m nodes w
  rw [compileNodes_append_right _ _ _ nodes hstops] at hmoves
  rw [List.append_assoc, hmoves]
  cases compileNodes body strictVariables nodes w with
  | ok r' => exact ⟨fun h => h, fun h => h⟩
  | error f => exact ⟨(nomatch ·), (nomatch ·)⟩

/-! ### One tree behind the other -/

/-- Whether what follows a source, of which this is the tree, begins a line of output. -/
def leavesLineStart (options : CompileOptions) (source : String) (tree : List Node) : Bool :=
  match compileNodes source.toList options.strictVariables tree ⟨options.pragmas, true⟩ with
  | .ok (_, w) => w.lineStart
  | .error _ => true

theorem compile_eq_ok_iff {options : CompileOptions} {name source : String} {tree : List Node}
    {t : Template} : compile options name source tree = .ok t ↔ ∃ steps w,
      compileNodes source.toList options.strictVariables tree ⟨options.pragmas, true⟩ =
        .ok (steps, w) ∧
      t = ⟨name, options.key, source, options.escape, options.strictCallables, steps⟩ := by
  unfold compile StateT.run
  cases compileNodes source.toList options.strictVariables tree ⟨options.pragmas, true⟩ with
  | error f => exact ⟨(nomatch ·), fun ⟨_, _, h, _⟩ => nomatch h⟩
  | ok p =>
    obtain ⟨steps, w⟩ := p
    constructor
    · intro h
      exact ⟨steps, w, rfl, (Except.ok.inj h).symm⟩
    · rintro ⟨_, _, h, rfl⟩
      obtain ⟨rfl, rfl⟩ := Prod.mk.inj (Except.ok.inj h)
      rfl

/-- A source of one parent tag compiles to one step, with what its blocks compile to. -/
theorem exists_overrides_of_compile {options : CompileOptions} {name source parent : String}
    {own : Option String} {line : Nat} {blocks : List Node} {t : Template}
    (h : compile options name source [.parent parent own blocks line] = .ok t) :
    ∃ overrides w, t.steps = [.parent parent own overrides] ∧
      compileOverrides source.toList options.strictVariables parent line blocks
        ⟨options.pragmas, true⟩ = .ok (overrides, w) := by
  obtain ⟨steps, walk, hrun, rfl⟩ := compile_eq_ok_iff.mp h
  rw [compileNodes_singleton, compileNode] at hrun
  obtain ⟨overrides, _, hoverrides, hrun⟩ := bind_eq_ok.mp hrun
  cases hrun
  exact ⟨overrides, _, rfl, hoverrides⟩

section

variable {options : CompileOptions} {name source more : String} {tree tree' : List Node}
  {t t' : Template}

/-- **Compiling one tree behind the other** gives the steps of the first and then those of the
second. If the first does not leave the start of a line behind, these may lack a mark. -/
theorem compile_append (key key' : String)
    (hstops : ∀ n : Node, n.In tree → n.StopsBy (Text.byteLength source.toList))
    (hplain : (Node.outlineAll tree).foldl Node.enables options.pragmas = options.pragmas)
    (hfine : ∀ n : Node, n.In tree' → n.Fine fun _ => True)
    (h : compile options name source tree = .ok t)
    (h' : compile { options with key := key } name more tree' = .ok t') :
    ∃ steps, compile { options with key := key' } name (source ++ more)
        (tree ++ Node.movedAll (Text.byteLength source.toList) (Text.newlines source.toList) tree') =
        .ok ⟨name, key', source ++ more, options.escape, options.strictCallables,
          t.steps ++ steps⟩ ∧
      (leavesLineStart options source tree = true → steps = t'.steps) ∧
      (Node.anyFirstInParent? tree' ≠ some true →
        Step.allUnmarked steps = Step.allUnmarked t'.steps) := by
  obtain ⟨steps₁, w₁, hrun, rfl⟩ := compile_eq_ok_iff.mp h
  obtain ⟨steps₂, w₂, hrun', rfl⟩ := compile_eq_ok_iff.mp h'
  have hpragmas : w₁.pragmas = options.pragmas :=
    (tracks_compileNodes _ _ tree options.pragmas _ _ _ rfl hrun).1.trans hplain
  have hwalk : w₁ = ⟨options.pragmas, w₁.lineStart⟩ := by rw [← hpragmas]
  obtain ⟨steps, w, hmade, -⟩ :=
    makes_compileNodes more.toList options.strictVariables tree' hfine w₁
  refine ⟨steps, compile_eq_ok_iff.mpr ⟨steps₁ ++ steps, w, ?_, rfl⟩, fun hleaves => ?_,
    fun hfirst => ?_⟩
  · rw [String.toList_append, compileNodes_append]
    refine bind_eq_ok.mpr ⟨steps₁, w₁, ?_, bind_eq_ok.mpr ⟨steps, w, ?_, rfl⟩⟩
    · rw [compileNodes_append_right _ _ _ tree hstops]
      exact hrun
    · rw [moves_compileNodes, hmade]
      rfl
  · unfold leavesLineStart at hleaves
    rw [hrun] at hleaves
    rw [hwalk, show w₁.lineStart = true from hleaves] at hmade
    exact (Prod.mk.inj (Except.ok.inj (hmade.symm.trans hrun'))).1
  · rw [hwalk] at hmade
    exact allUnmarked_of_compileNodes hfirst hmade hrun'

end

end Template

end Mustache
