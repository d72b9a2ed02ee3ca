import Mustache.Proofs.Engine.Sound
import Mustache.Proofs.Render.Indent
import Mustache.Proofs.Token.Plain

/-!
Templates without tags. Their tokens are texts, so are their steps, and what these print is the
source, whatever the data and the state of the render. Main statement: `render_of_not_contains`.
-/

namespace Mustache

/-! ### Trees and steps of texts -/

/-- The tree of some texts is a text for each of them. -/
theorem Node.ofTokens_of_texts (s : PragmaSet) {ts : List Token}
    (h : ∀ t ∈ ts, t.isText = true) :
    ofTokens s ts = .ok (ts.map fun t => .text t.value) := by
  have hforest : ∃ f, forest none s ts = .ok f ∧ f.nodes = ts.map fun t => .text t.value := by
    induction ts with
    | nil => exact ⟨_, forest_nil_none, rfl⟩
    | cons t ts ih =>
      obtain ⟨f, hf, hnodes⟩ := ih fun t ht => h t (List.mem_cons_of_mem _ ht)
      have hkind : t.kind = .text := of_decide_eq_true (h t List.mem_cons_self)
      have hreads : Reading.of s (underParent none) t = .leaf (.text t.value) := by
        unfold Reading.of
        rw [hkind]
        rfl
      refine ⟨f.cons (.text t.value), ?_, ?_⟩
      · rw [forest_leaf hreads, hf]
        rfl
      · rw [List.map_cons, ← hnodes]
        rfl
  obtain ⟨f, hf, hnodes⟩ := hforest
  rw [ofTokens, hf]
  exact congrArg Except.ok hnodes

/-- Steps that print a text and do nothing else. -/
inductive Literal : List Step → List Char → Prop
  | nil : Literal [] []
  | cons {text lineStart steps cs} (h : Literal steps cs) :
      Literal (.text text lineStart :: steps) (text.toList ++ cs)

namespace Template

theorem literal_of_texts {source : List Char} {strictVariables : Bool} {texts : List String}
    {w w' : Walk} {steps : List Step}
    (h : compileNodes source strictVariables (texts.map .text) w = .ok (steps, w')) :
    Literal steps (texts.flatMap String.toList) := by
  induction texts generalizing w steps with
  | nil =>
    cases h
    exact .nil
  | cons text texts ih =>
    rw [List.map_cons, compileNodes] at h
    obtain ⟨own, mid, hown, h⟩ := bind_eq_ok.mp h
    obtain ⟨others, last, hothers, h⟩ := bind_eq_ok.mp h
    cases h
    cases hown
    exact .cons (ih hothers)

end Template

namespace Engine

variable {σ : Type} {e : Engine σ} {source : String}

theorem exists_parse_of_not_contains
    (h : Text.contains e.delimiters.opening.toList source.toList = false) :
    ∃ texts : List String, e.parse source = .ok (texts.map .text) ∧
      texts.flatMap String.toList = source.toList := by
  obtain ⟨ts, hscan, htext, hall⟩ := Token.exists_scan_of_not_contains h
  refine ⟨ts.map Token.value, ?_, ?_⟩
  · rw [List.map_map]
    exact parse_of_scan hscan (Node.ofTokens_of_texts e.pragmas htext)
  · rw [List.flatMap_map, hall]

/-- What a source without tags compiles to prints it. -/
theorem literal_of_compiled {t : Template} {tree : List Node} (h : e.Compiled t tree)
    (hplain : Text.contains e.delimiters.opening.toList t.source.toList = false) :
    Literal t.steps t.source.toList := by
  obtain ⟨texts, hparse, hall⟩ := exists_parse_of_not_contains hplain
  obtain rfl := Except.ok.inj (hparse.symm.trans h.parse)
  have hcompile := h.compile
  unfold Template.compile at hcompile
  split at hcompile
  · rename_i steps w hsteps
    rw [← Except.ok.inj hcompile, ← hall]
    exact Template.literal_of_texts hsteps
  · cases hcompile

end Engine

/-! ### What is printed -/

namespace Render

variable {σ : Type} {e : Engine σ} {steps : List Step} {cs : List Char}

theorem renderSteps_literal (deeper : Renderer σ) (t : Template) (h : Literal steps cs)
    (out : String) (s : State σ) :
    renderSteps e deeper t "" steps out s = .ok (out ++ String.ofList cs) s := by
  induction h generalizing out with
  | nil =>
    rw [renderSteps, String.ofList_nil, String.append_empty]
    rfl
  | @cons text lineStart steps cs h ih =>
    have htext : renderStep e deeper t "" (.text text lineStart) out s = .ok (out ++ text) s := by
      rw [renderStep, ite_self, String.append_empty]
      rfl
    rw [renderSteps, bind_of_ok _ htext, ih, String.ofList_append, String.ofList_toList,
      String.append_assoc]

end Render

end Mustache
