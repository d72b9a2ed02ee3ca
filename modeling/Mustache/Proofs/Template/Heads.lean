import Mustache.Proofs.Node.Visits
import Mustache.Proofs.Template.Steps

/-!
The pragmas under which each tag is compiled: the ones of the engine, and those that pragma tags in
front of it enable unless these stand directly in a parent tag, where they leave no node. Main
statement: `compile_heads`.
-/

namespace Mustache

/-- What a step of a tag that looks up a name does with the name. -/
inductive Head
  | interpolation (name : Name) (escape strict : Bool)
  | sectionTag (name : Name) (strict : Bool)
  | inverted (name : Name)
deriving DecidableEq, Repr

namespace Step

mutual

/-- The heads of a step and of those below it, in the order of the source. -/
def heads : Step → List Head
  | .interpolation name escape strict _ => [.interpolation name escape strict]
  | .sectionStep name strict _ _ steps => .sectionTag name strict :: allHeads steps
  | .inverted name steps => .inverted name :: allHeads steps
  | .parent _ _ overrides => overrideHeads overrides
  | .block _ _ steps => allHeads steps
  | .text .. | .partialStep .. => []

def allHeads : List Step → List Head
  | [] => []
  | step :: steps => heads step ++ allHeads steps

def overrideHeads : List (Override Step) → List Head
  | [] => []
  | ⟨_, _, steps⟩ :: os => allHeads steps ++ overrideHeads os

end

theorem allHeads_append (steps others : List Step) :
    allHeads (steps ++ others) = allHeads steps ++ allHeads others := by
  induction steps with
  | nil => rfl
  | cons step steps ih => rw [List.cons_append, allHeads, allHeads, ih, List.append_assoc]

theorem allHeads_singleton (step : Step) : allHeads [step] = heads step := by
  rw [allHeads, allHeads, List.append_nil]

end Step

namespace Node

/-- The head that a node is compiled to where `c` are the pragmas in force. -/
def head? (strictVariables : Bool) (c : PragmaSet) : Node → Option Head
  | interpolation name escape _ =>
    some (.interpolation (Name.parse (c.contains .filters) name) escape
      (strictVariables || c.contains .strictVariables))
  | sectionNode name false _ _ _ _ _ =>
    some (.sectionTag (Name.parse (c.contains .filters) name)
      (strictVariables || c.contains .strictVariables))
  | sectionNode name true _ _ _ _ _ => some (.inverted (Name.parse (c.contains .filters) name))
  | _ => none

/-- The pragmas in force behind a node. -/
def enables (c : PragmaSet) : Node → PragmaSet
  | pragma name _ => c.enable name
  | _ => c

/-- The heads of the nodes of an outline, where `c` are the pragmas in force at its beginning. -/
def headsUnder (strictVariables : Bool) (c : PragmaSet) : List Node → List Head
  | [] => []
  | n :: ns => (n.head? strictVariables c).toList ++ headsUnder strictVariables (n.enables c) ns

theorem headsUnder_append (strictVariables : Bool) (c : PragmaSet) (ns ms : List Node) :
    headsUnder strictVariables c (ns ++ ms) =
      headsUnder strictVariables c ns ++
        headsUnder strictVariables (ns.foldl enables c) ms := by
  induction ns generalizing c with
  | nil => rfl
  | cons n ns ih => rw [List.cons_append, headsUnder, headsUnder, ih, List.foldl_cons,
      List.append_assoc]

end Node

namespace Template

variable {α β : Type} {c c' c'' : PragmaSet}

/-- Where `act` succeeds, it leads from the pragmas `c` to `c'`, and what it gives has `post`. -/
def Tracks (c c' : PragmaSet) (act : Compile α) (post : α → Prop) : Prop :=
  ∀ w a w', w.pragmas = c → act w = .ok (a, w') → w'.pragmas = c' ∧ post a

theorem tracks_pure {a : α} {post : α → Prop} (h : post a) : Tracks c c (pure a) post := by
  intro w b w' hw hrun
  obtain ⟨rfl, rfl⟩ := Prod.mk.inj (Except.ok.inj hrun)
  exact ⟨hw, h⟩

theorem tracks_get : Tracks c c get fun w => w.pragmas = c := by
  intro w b w' hw hrun
  obtain ⟨rfl, rfl⟩ := Prod.mk.inj (Except.ok.inj hrun)
  exact ⟨hw, hw⟩

theorem tracks_takeLineStart : Tracks c c takeLineStart fun _ => True := by
  intro w b w' hw hrun
  obtain ⟨-, rfl⟩ := Prod.mk.inj (Except.ok.inj hrun)
  exact ⟨hw, trivial⟩

theorem tracks_modify {f : Walk → Walk} (hf : ∀ w : Walk, w.pragmas = c → (f w).pragmas = c') :
    Tracks c c' (modify f) fun _ => True := by
  intro w b w' hw hrun
  obtain ⟨-, rfl⟩ := Prod.mk.inj (Except.ok.inj hrun)
  exact ⟨hf w hw, trivial⟩

theorem tracks_throw (f : Node.Fault) (post : α → Prop) : Tracks c c' (throw f) post := by
  intro w b w' hw hrun
  cases hrun

theorem Tracks.bind {act : Compile α} {next : α → Compile β} {mid : α → Prop} {post : β → Prop}
    (hact : Tracks c c' act mid) (hnext : ∀ a, mid a → Tracks c' c'' (next a) post) :
    Tracks c c'' (act >>= next) post := by
  intro w b w'' hw hrun
  change (act w >>= fun p => next p.1 p.2) = _ at hrun
  cases hfirst : act w with
  | error f =>
    rw [hfirst] at hrun
    cases hrun
  | ok p =>
    rw [hfirst] at hrun
    obtain ⟨hw', ha⟩ := hact w p.1 p.2 hw hfirst
    exact hnext p.1 ha p.2 b w'' hw' hrun

section

variable (source : List Char) (strictVariables : Bool)

mutual

theorem tracks_compileNode : ∀ (n : Node) (c : PragmaSet),
    Tracks c ((Node.outline n).foldl Node.enables c) (compileNode source strictVariables n)
      fun steps => Step.allHeads steps = Node.headsUnder strictVariables c (Node.outline n)
  | .text text, c => by
    rw [compileNode]
    have hmodify : Tracks c c
        (modify fun w => { w with lineStart := endsInNewline text }) fun _ => True :=
      tracks_modify fun _ hw => hw
    exact tracks_takeLineStart.bind fun _ _ => hmodify.bind fun _ _ => tracks_pure rfl
  | .interpolation name escape line, c => by
    rw [compileNode]
    refine tracks_get.bind fun w hw => tracks_takeLineStart.bind fun _ _ => tracks_pure ?_
    rw [hw]
    rfl
  | .sectionNode name false children start stop delimiters line, c => by
    rw [compileNode]
    refine tracks_get.bind fun w hw => ?_
    refine (tracks_compileNodes children c).bind fun steps hsteps => tracks_pure ?_
    rw [hw, Step.allHeads_singleton, Step.heads, hsteps]
    rfl
  | .sectionNode name true children start stop delimiters line, c => by
    rw [compileNode]
    refine tracks_get.bind fun w hw => ?_
    refine (tracks_compileNodes children c).bind fun steps hsteps => tracks_pure ?_
    rw [hw, Step.allHeads_singleton, Step.heads, hsteps]
    rfl
  | .partialNode name dynamic indent line, c => by
    rw [compileNode]
    exact tracks_pure rfl
  | .parent name indent blocks line, c => by
    rw [compileNode]
    refine (tracks_compileOverrides name line blocks c).bind fun os hos => tracks_pure ?_
    rw [Step.allHeads_singleton, Step.heads, hos]
    rfl
  | .block name children indent line, c => by
    rw [compileNode]
    refine (tracks_compileNodes children c).bind fun steps hsteps => tracks_pure ?_
    rw [Step.allHeads_singleton, Step.heads, hsteps]
    rfl
  | .pragma name line, c => by
    rw [compileNode]
    exact (tracks_modify fun w hw => by rw [← hw]; rfl).bind fun _ _ => tracks_pure rfl

theorem tracks_compileNodes : ∀ (ns : List Node) (c : PragmaSet),
    Tracks c ((Node.outlineAll ns).foldl Node.enables c) (compileNodes source strictVariables ns)
      fun steps => Step.allHeads steps = Node.headsUnder strictVariables c (Node.outlineAll ns)
  | [], c => by
    rw [compileNodes]
    exact tracks_pure rfl
  | n :: ns, c => by
    rw [compileNodes, Node.outlineAll, List.foldl_append]
    refine (tracks_compileNode n c).bind fun steps hsteps => ?_
    refine (tracks_compileNodes ns _).bind fun others hothers => tracks_pure ?_
    rw [Step.allHeads_append, Node.headsUnder_append, hsteps, hothers]

theorem tracks_compileOverrides (parent : String) (line : Nat) :
    ∀ (ns : List Node) (c : PragmaSet),
    Tracks c ((Node.outlineAll ns).foldl Node.enables c)
      (compileOverrides source strictVariables parent line ns)
      fun os => Step.overrideHeads os =
        Node.headsUnder strictVariables c (Node.outlineAll ns)
  | [], c => by
    rw [compileOverrides]
    exact tracks_pure rfl
  | .block name children indent line' :: ns, c => by
    rw [compileOverrides, Node.outlineAll, List.foldl_append]
    refine (tracks_compileNodes children c).bind fun steps hsteps => ?_
    refine (tracks_compileOverrides parent line ns _).bind fun os hos => tracks_pure ?_
    rw [Step.overrideHeads, Node.headsUnder_append, hsteps, hos]
    rfl
  | .text _ :: _, _ => tracks_throw _ _
  | .interpolation .. :: _, _ => tracks_throw _ _
  | .sectionNode .. :: _, _ => tracks_throw _ _
  | .partialNode .. :: _, _ => tracks_throw _ _
  | .parent .. :: _, _ => tracks_throw _ _
  | .pragma .. :: _, _ => tracks_throw _ _

end

end

end Template

namespace Node

/-! ### Visits -/

theorem enables_leaves (s c : PragmaSet) (inParent : Bool) (t : Token) :
    (leaves s inParent t).foldl enables c =
      if t.kind = .pragma ∧ inParent = false then c.enable t.value else c := by
  unfold leaves Reading.of
  cases hkind : t.kind <;> cases inParent <;> cases s.blocks <;> cases s.dynamicNames <;>
    simp [enables]

theorem headsUnder_singleton (strictVariables : Bool) (c : PragmaSet) (n : Node) :
    headsUnder strictVariables c [n] = [n].filterMap (head? strictVariables c) := by
  rw [headsUnder, headsUnder, List.append_nil, List.filterMap_cons]
  cases head? strictVariables c n <;> rfl

/-- A token leaves at most one node, so its own pragma does not count yet. -/
theorem headsUnder_leaves (strictVariables : Bool) (s c : PragmaSet) (inParent : Bool)
    (t : Token) :
    headsUnder strictVariables c (leaves s inParent t) =
      (leaves s inParent t).filterMap (head? strictVariables c) := by
  unfold leaves
  split
  case h_3 =>
    split
    · rfl
    · exact headsUnder_singleton _ _ _
  case h_1 | h_2 => exact headsUnder_singleton _ _ _
  all_goals rfl

/-- Only a pragma tag that stands directly in a parent tag makes a difference between what is in
front and what is in front outside of parent tags. -/
theorem through_outside (s : PragmaSet) {us : List Visit}
    (h : ∀ u ∈ us, u.tag.kind = .pragma → u.inParent = false) :
    s.through ((us.filter fun u => !u.inParent).map Visit.tag) =
      s.through (us.map Visit.tag) := by
  induction us generalizing s with
  | nil => rfl
  | cons u us ih =>
    have hrest := fun s => ih s fun v hv => h v (List.mem_cons_of_mem u hv)
    rw [List.map_cons, PragmaSet.through_cons, ← hrest]
    cases hparent : u.inParent with
    | false => simp [hparent, PragmaSet.through_cons]
    | true =>
      have hkind : u.tag.kind ≠ .pragma := fun hkind => by
        simp [h u List.mem_cons_self hkind] at hparent
      simp [hparent, hkind]

namespace Machine

variable {m : Machine} {s : PragmaSet} {before outside ts : List Token}

/-- The heads of what the visited tokens leave, each under the pragmas of its own place. -/
theorem headsUnder_visits (strictVariables : Bool) :
    headsUnder strictVariables (s.through outside)
      ((m.visits before outside ts).flatMap fun v =>
        leaves (s.through v.before) v.inParent v.tag) =
      (m.visits before outside ts).flatMap fun v =>
        (leaves (s.through v.before) v.inParent v.tag).filterMap
          (head? strictVariables (s.through v.outside)) := by
  induction ts generalizing m before outside with
  | nil => rfl
  | cons t ts ih =>
    have houtside : (leaves (s.through before) m.inParent t).foldl enables (s.through outside) =
        s.through (if m.inParent then outside else outside ++ [t]) := by
      rw [enables_leaves]
      cases m.inParent <;> simp [PragmaSet.through_concat]
    rw [visits, List.flatMap_cons, List.flatMap_cons, headsUnder_append, headsUnder_leaves,
      houtside]
    cases m.step t with
    | ok m' => exact congrArg _ ih
    | error f => rfl

end Machine

end Node

namespace Template

theorem allHeads_of_compile {options : CompileOptions} {name source : String} {tree : List Node}
    {t : Template} (h : compile options name source tree = .ok t) :
    Step.allHeads t.steps =
      Node.headsUnder options.strictVariables options.pragmas (Node.outlineAll tree) := by
  unfold compile StateT.run at h
  split at h
  · rename_i steps w hrun
    obtain rfl := Except.ok.inj h
    exact (tracks_compileNodes source.toList options.strictVariables tree options.pragmas _ _ _
      rfl hrun).2
  · simp at h

/-- **Each tag is read and compiled under the pragmas in front of it.** A token is read under those
of the engine and of all pragma tags in front, and what it leaves is compiled under the same ones
but for those of pragma tags that stand directly in a parent tag. -/
theorem compile_heads {d : Delimiters} {source : String} {ts : List Token}
    (hscan : Token.scan d source = .ok ts) {options : CompileOptions} {tree : List Node}
    (htree : Node.ofTokens options.pragmas ts = .ok tree) (name : String) :
    let s := options.pragmas
    let vs := Node.visits s ts
    vs.map Node.Visit.tag = ts ∧
    (∀ us v ws, vs = us ++ v :: ws → v.before = us.map Node.Visit.tag ∧
      v.outside = (us.filter fun u => !u.inParent).map Node.Visit.tag) ∧
    Node.outlineAll tree =
      (vs.flatMap fun v => Node.leaves (s.through v.before) v.inParent v.tag) ∧
    (∃ t, compile options name source tree = .ok t ∧
      Step.allHeads t.steps = vs.flatMap fun v =>
        (Node.leaves (s.through v.before) v.inParent v.tag).filterMap
          (Node.head? options.strictVariables (s.through v.outside))) ∧
    ∀ us v ws, vs = us ++ v :: ws →
      (∀ u ∈ us, u.tag.kind = .pragma → u.inParent = false) →
      s.through v.outside = s.through v.before := by
  intro s vs
  obtain ⟨htags, houtline⟩ := Node.outlineAll_eq_visits htree
  have hsplit : ∀ us v ws, vs = us ++ v :: ws → v.before = us.map Node.Visit.tag ∧
      v.outside = (us.filter fun u => !u.inParent).map Node.Visit.tag :=
    fun us v ws h => by simpa using Node.Machine.visit_eq h
  refine ⟨htags, hsplit, houtline, ?_, fun us v ws h hnone => ?_⟩
  · have hfine := fine_of_ofTokens hscan htree
    obtain ⟨steps, hcompile, -⟩ := exists_compile hfine options name source
    refine ⟨_, hcompile, ?_⟩
    rw [allHeads_of_compile hcompile, houtline]
    show Node.headsUnder _ (s.through []) ((Node.Machine.visits [] [] (.start s) ts).flatMap _) = _
    exact Node.Machine.headsUnder_visits options.strictVariables
  · obtain ⟨hbefore, houtside⟩ := hsplit us v ws h
    rw [hbefore, houtside]
    exact Node.through_outside s hnone

/-- A pragma tag in a section holds from there to the end of the template. -/
theorem compile_heads_strict :
    let d := Delimiters.standard
    let source := "\x7b\x7b%FILTERS\x7d\x7d\x7b\x7b#a|f\x7d\x7d\x7b\x7b%STRICT-VARIABLES\x7d\x7d\x7b\x7b/a|f\x7d\x7d\x7b\x7by\x7d\x7d"
    let ts : List Token :=
      [⟨.pragma, "FILTERS", 1, 0, 12, d, none⟩, ⟨.sectionTag, "a|f", 1, 12, 20, d, none⟩,
        ⟨.pragma, "STRICT-VARIABLES", 1, 20, 41, d, none⟩,
        ⟨.close, "a|f", 1, 41, 49, d, none⟩, ⟨.escaped, "y", 1, 49, 54, d, none⟩]
    let options : CompileOptions := ⟨.html .compat, true, false, PragmaSet.empty, ""⟩
    ∃ tree, Token.scan d source = .ok ts ∧ Node.ofTokens options.pragmas ts = .ok tree ∧
      ∃ t, compile options "t" source tree = .ok t ∧ Step.allHeads t.steps =
        [.sectionTag ⟨"a", ["f"]⟩ false, .interpolation ⟨"y", []⟩ true true] := by
  intro d source ts options
  have hscan : Token.scan d source = .ok ts := by decide +kernel
  have htree : Node.ofTokens options.pragmas ts = .ok [.pragma "FILTERS" 1,
      .sectionNode "a|f" false [.pragma "STRICT-VARIABLES" 1] 20 41 d 1,
      .interpolation "y" true 1] := by
    cbv
  obtain ⟨-, -, -, ⟨t, ht, hheads⟩, -⟩ := compile_heads hscan htree "t"
  exact ⟨_, hscan, htree, t, ht, hheads.trans (by decide +kernel)⟩

/-- A pragma tag directly in a parent tag is there for the reader and not for the compiler. -/
theorem strict_in_parent_missed :
    let d := Delimiters.standard
    let source := "\x7b\x7b%BLOCKS\x7d\x7d\x7b\x7b<p\x7d\x7d\x7b\x7b%STRICT-VARIABLES\x7d\x7d\x7b\x7b/p\x7d\x7d\x7b\x7bx\x7d\x7d"
    let before : List Token :=
      [⟨.pragma, "BLOCKS", 1, 0, 11, d, none⟩, ⟨.parent, "p", 1, 11, 17, d, none⟩,
        ⟨.pragma, "STRICT-VARIABLES", 1, 17, 38, d, none⟩, ⟨.close, "p", 1, 38, 44, d, none⟩]
    let options : CompileOptions := ⟨.html .compat, true, false, PragmaSet.empty, ""⟩
    ∃ tree, Token.scan d source = .ok (before ++ [⟨.escaped, "x", 1, 44, 49, d, none⟩]) ∧
      Node.ofTokens options.pragmas (before ++ [⟨.escaped, "x", 1, 44, 49, d, none⟩]) = .ok tree ∧
      (options.pragmas.through before).contains .strictVariables = true ∧
      ∃ t, compile options "t" source tree = .ok t ∧
        Step.allHeads t.steps = [.interpolation ⟨"x", []⟩ true false] := by
  intro d source before options
  refine ⟨[.pragma "BLOCKS" 1, .parent "p" none [] 1, .interpolation "x" true 1],
    by decide +kernel, by cbv, by decide +kernel, _, rfl, rfl⟩

end Template

end Mustache
