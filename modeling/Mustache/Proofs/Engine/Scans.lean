import Mustache.Proofs.Engine.Sound
import Mustache.Proofs.Node.Spans
import Mustache.Proofs.Render.Indent
import Mustache.Proofs.Token.Loop

/-!
The scans of an engine. It starts them with the delimiters of its configuration, which can be
written, and so can those that come into force later. A section keeps the delimiters that its tag
stands in, and texts from its callable are scanned under these. Main statement: `scans_end`.
-/

namespace Mustache

/-! ### Delimiters that can be written -/

namespace Token

theorem writable_of_scans {d : Delimiters} {p : Place} {cs : List Char}
    {r : Except Fault (List Token)} (h : Scans d p cs r) (hd : d.Writable) {ts : List Token}
    (hr : r = .ok ts) : ∀ t ∈ ts, t.delimiters.Writable := by
  induction h generalizing ts with
  | nil d p =>
    cases hr
    exact fun t ht => nomatch ht
  | @text d p text rest r _ _ _ ih =>
    obtain ⟨us, rfl, rfl⟩ := Node.map_eq_ok_iff.mp hr
    exact List.forall_mem_cons.mpr ⟨hd, ih hd rfl⟩
  | @tag d p tag r _ hread _ ih =>
    obtain ⟨us, rfl, rfl⟩ := Node.map_eq_ok_iff.mp hr
    refine List.forall_mem_cons.mpr ⟨?_, ih (hd.through _) rfl⟩
    rw [(readTag_token hread).2.2.2.1]
    exact hd
  | fault _ _ => cases hr

/-- Where a scan starts with delimiters that can be written, no others come into force. -/
theorem writable_of_scan {d : Delimiters} (hd : d.Writable) {source : String} {ts : List Token}
    (h : scan d source = .ok ts) : ∀ t ∈ ts, t.delimiters.Writable := by
  intro t ht
  unfold scan at h
  cases hpieces : pieces d ⟨0, 1⟩ source.toList with
  | error f =>
    rw [hpieces] at h
    cases h
  | ok raw =>
    rw [hpieces] at h
    obtain rfl := Except.ok.inj h
    exact writable_of_scans (scans_pieces hd.singleLine _ _) hd hpieces t.bare
      (bare_mem_of_mem_settle (tiling_of_pieces hpieces) ht)

end Token

/-! ### Delimiters of sections -/

namespace Step

mutual

/-- The delimiters of the sections of a step, of those below it too. -/
def pairs : Step → List Delimiters
  | .sectionStep _ _ _ delimiters steps => delimiters :: allPairs steps
  | .inverted _ steps => allPairs steps
  | .parent _ _ overrides => overridePairs overrides
  | .block _ _ steps => allPairs steps
  | .text .. | .interpolation .. | .partialStep .. => []

def allPairs : List Step → List Delimiters
  | [] => []
  | step :: steps => pairs step ++ allPairs steps

def overridePairs : List (Override Step) → List Delimiters
  | [] => []
  | ⟨_, _, steps⟩ :: os => allPairs steps ++ overridePairs os

end

theorem allPairs_append (steps others : List Step) :
    allPairs (steps ++ others) = allPairs steps ++ allPairs others := by
  induction steps with
  | nil => rfl
  | cons step steps ih => rw [List.cons_append, allPairs, allPairs, ih, List.append_assoc]

theorem allPairs_singleton (step : Step) : allPairs [step] = pairs step := by
  rw [allPairs, allPairs, List.append_nil]

end Step

namespace Node

/-- The delimiters that the tag of a section stands in. -/
def pair? : Node → Option Delimiters
  | sectionNode _ _ _ _ _ delimiters _ => some delimiters
  | _ => none

theorem exists_token_of_pair {s : PragmaSet} {ts : List Token} {nodes : List Node}
    (h : ofTokens s ts = .ok nodes) {n : Node} (hn : n.In nodes) {d : Delimiters}
    (hd : n.pair? = some d) : ∃ t ∈ ts, t.delimiters = d := by
  have hspan : ∃ span, n.span? = some span := by
    unfold pair? at hd
    split at hd
    · exact ⟨_, rfl⟩
    · cases hd
  obtain ⟨span, hspan⟩ := hspan
  cases (parses_of_ofTokens h).comesFrom hn hspan with
  | @selfClosing front back t _ _ hts _ _ =>
    exact ⟨t, by simp [hts], Option.some.inj hd⟩
  | @closed front body back t _ _ _ hts _ _ _ _ _ =>
    exact ⟨t, by simp [hts], Option.some.inj hd⟩

end Node

namespace Template

variable {source : List Char} {strictVariables : Bool} {P : Delimiters → Prop}

mutual

theorem pairs_of_compileNode : ∀ (n : Node) {w w' : Walk} {steps : List Step},
    compileNode source strictVariables n w = .ok (steps, w') →
    (∀ d ∈ n.pair?, P d) → (∀ m : Node, m.In n.children → ∀ d ∈ m.pair?, P d) →
    ∀ d ∈ Step.allPairs steps, P d
  | .text .., w, w', steps, h, _, _ => by
    rw [compileNode] at h
    cases h
    exact fun d hd => nomatch hd
  | .interpolation .., w, w', steps, h, _, _ => by
    rw [compileNode] at h
    cases h
    exact fun d hd => nomatch hd
  | .sectionNode name false children start stop delimiters line, w, w', steps, h, hn, hchildren => by
    rw [compileNode] at h
    obtain ⟨_, _, hget, h⟩ := bind_eq_ok.mp h
    obtain ⟨inner, mid, hinner, h⟩ := bind_eq_ok.mp h
    cases h
    rw [Step.allPairs_singleton, Step.pairs]
    exact List.forall_mem_cons.mpr
      ⟨hn delimiters rfl, pairs_of_compileNodes children hinner hchildren⟩
  | .sectionNode name true children start stop delimiters line, w, w', steps, h, _, hchildren => by
    rw [compileNode] at h
    obtain ⟨_, _, hget, h⟩ := bind_eq_ok.mp h
    obtain ⟨inner, mid, hinner, h⟩ := bind_eq_ok.mp h
    cases h
    rw [Step.allPairs_singleton, Step.pairs]
    exact pairs_of_compileNodes children hinner hchildren
  | .partialNode .., w, w', steps, h, _, _ => by
    rw [compileNode] at h
    cases h
    exact fun d hd => nomatch hd
  | .parent name indent blocks line, w, w', steps, h, _, hchildren => by
    rw [compileNode] at h
    obtain ⟨overrides, mid, hinner, h⟩ := bind_eq_ok.mp h
    cases h
    rw [Step.allPairs_singleton, Step.pairs]
    exact pairs_of_compileOverrides name line blocks hinner hchildren
  | .block name children indent line, w, w', steps, h, _, hchildren => by
    rw [compileNode] at h
    obtain ⟨inner, mid, hinner, h⟩ := bind_eq_ok.mp h
    cases h
    rw [Step.allPairs_singleton, Step.pairs]
    exact pairs_of_compileNodes children hinner hchildren
  | .pragma .., w, w', steps, h, _, _ => by
    rw [compileNode] at h
    cases h
    exact fun d hd => nomatch hd

theorem pairs_of_compileNodes : ∀ (ns : List Node) {w w' : Walk} {steps : List Step},
    compileNodes source strictVariables ns w = .ok (steps, w') →
    (∀ m : Node, m.In ns → ∀ d ∈ m.pair?, P d) → ∀ d ∈ Step.allPairs steps, P d
  | [], w, w', steps, h, _ => by
    rw [compileNodes] at h
    cases h
    exact fun d hd => nomatch hd
  | n :: ns, w, w', steps, h, hns => by
    rw [compileNodes] at h
    obtain ⟨own, mid, hown, h⟩ := bind_eq_ok.mp h
    obtain ⟨others, last, hothers, h⟩ := bind_eq_ok.mp h
    cases h
    rw [Step.allPairs_append]
    refine List.forall_mem_append.mpr ⟨?_, ?_⟩
    · exact pairs_of_compileNode n hown (hns n (.here List.mem_cons_self))
        fun m hm => hns m (.inside List.mem_cons_self hm)
    · exact pairs_of_compileNodes ns hothers
        fun m hm => hns m (Node.In.cons_iff.mpr (Or.inr (Or.inr hm)))

theorem pairs_of_compileOverrides (parent : String) (line : Nat) : ∀ (ns : List Node) {w w' : Walk}
    {overrides : List (Override Step)},
    compileOverrides source strictVariables parent line ns w = .ok (overrides, w') →
    (∀ m : Node, m.In ns → ∀ d ∈ m.pair?, P d) → ∀ d ∈ Step.overridePairs overrides, P d
  | [], w, w', overrides, h, _ => by
    rw [compileOverrides] at h
    cases h
    exact fun d hd => nomatch hd
  | .block name children indent own :: ns, w, w', overrides, h, hns => by
    rw [compileOverrides] at h
    obtain ⟨steps, mid, hsteps, h⟩ := bind_eq_ok.mp h
    obtain ⟨others, last, hothers, h⟩ := bind_eq_ok.mp h
    cases h
    rw [Step.overridePairs]
    refine List.forall_mem_append.mpr ⟨?_, ?_⟩
    · exact pairs_of_compileNodes children hsteps
        fun m hm => hns m (.inside List.mem_cons_self hm)
    · exact pairs_of_compileOverrides parent line ns hothers
        fun m hm => hns m (Node.In.cons_iff.mpr (Or.inr (Or.inr hm)))
  | .text .. :: _, w, w', overrides, h, _ => nomatch h
  | .interpolation .. :: _, w, w', overrides, h, _ => nomatch h
  | .sectionNode .. :: _, w, w', overrides, h, _ => nomatch h
  | .partialNode .. :: _, w, w', overrides, h, _ => nomatch h
  | .parent .. :: _, w, w', overrides, h, _ => nomatch h
  | .pragma .. :: _, w, w', overrides, h, _ => nomatch h

end

theorem pairs_of_compile {options : CompileOptions} {name source : String} {tree : List Node}
    {t : Template} (h : compile options name source tree = .ok t)
    (htree : ∀ m : Node, m.In tree → ∀ d ∈ m.pair?, P d) : ∀ d ∈ Step.allPairs t.steps, P d := by
  unfold compile at h
  split at h
  · rename_i steps w hrun
    cases h
    exact pairs_of_compileNodes tree hrun htree
  · cases h

end Template

/-! ### Engines -/

namespace Engine

open Text (byteLength)
open Token.Loop (Ends Reaches ends_of_ne_nil)

variable {σ : Type}

theorem writable_of_ofConfig {config : Config} {cache : Cache σ} {host : Host σ} {e : Engine σ}
    (h : ofConfig config cache host = .ok e) : e.delimiters.Writable := by
  unfold ofConfig at h
  cases hvalid : config.validate with
  | error err =>
    rw [hvalid] at h
    cases h
  | ok _ =>
    unfold Config.initialDelimiters at h
    cases hparse : Delimiters.parse? config.delimiters.toList with
    | none =>
      rw [hvalid, hparse] at h
      cases h
    | some d =>
      rw [hvalid, hparse] at h
      cases h
      exact ⟨_, hparse⟩

theorem writable_of_parse {e : Engine σ} (he : e.delimiters.Writable) {source : String}
    {tree : List Node} (h : e.parse source = .ok tree) {n : Node} (hn : n.In tree) :
    ∀ d ∈ n.pair?, d.Writable := by
  unfold parse tokenize at h
  cases hscan : Token.scan e.delimiters source with
  | error err =>
    rw [hscan] at h
    cases h
  | ok ts =>
    rw [hscan] at h
    intro d hd
    obtain ⟨t, ht, rfl⟩ := Node.exists_token_of_pair h hn hd
    exact Token.writable_of_scan he hscan t ht

/-- Delimiters that a text from a callable is scanned under: either the engine has them, and the
text is scanned alone, or the scan is in text, right before it, when they have come into force. -/
theorem exists_reaches_text {e : Engine σ} (he : e.delimiters.Writable) {d : Delimiters}
    (hd : d.Writable) (text : String) :
    ∃ q before, (e.lambdaSource text (some d)).toList = before ++ text.toList ∧
      Reaches e.delimiters (e.lambdaSource text (some d)).toList q ∧
      q.mode = .text ∧ q.delimiters = d ∧ q.pos = byteLength before := by
  by_cases hsame : d = e.delimiters
  · subst hsame
    have hsource : (e.lambdaSource text (some e.delimiters)).toList = text.toList := by
      rw [lambdaSource, if_pos rfl]
    exact ⟨.start e.delimiters, [], hsource, .refl, rfl, rfl, rfl⟩
  · have hsource : (e.lambdaSource text (some d)).toList =
        (d.switchFrom e.delimiters).toList ++ text.toList := by
      rw [lambdaSource, if_neg hsame, String.toList_append]
    rw [hsource]
    obtain ⟨q, hreaches, hmode, hdelimiters, hpos⟩ :=
      Token.Loop.exists_reaches_behind_switch he hd text.toList
    exact ⟨q, _, rfl, hreaches, hmode, hdelimiters, hpos⟩

/-- **Scanning ends** with whatever delimiters it starts. An engine that was made of a configuration
has no others, and the texts from callables of sections it compiled are scanned under those that
these sections stand in. -/
theorem scans_end :
    (∀ d : Delimiters, d.opening ≠ "" → d.closing ≠ "" → ∀ source, Ends d source) ∧
    ∀ {σ : Type} {config : Config} {cache : Cache σ} {host : Host σ} {first e : Engine σ},
      ofConfig config cache host = .ok first → e.delimiters = first.delimiters →
      (∀ source, Ends e.delimiters source) ∧
      ∀ {source name : String} {tree : List Node} {options : CompileOptions} {t : Template},
        e.parse source = .ok tree → Template.compile options name source tree = .ok t →
        ∀ d ∈ Step.allPairs t.steps, ∀ text,
          Ends d text ∧ Ends e.delimiters (e.lambdaSource text (some d)) ∧
          ∃ q before, (e.lambdaSource text (some d)).toList = before ++ text.toList ∧
            Reaches e.delimiters (e.lambdaSource text (some d)).toList q ∧
            q.mode = .text ∧ q.delimiters = d ∧ q.pos = byteLength before := by
  have hends : ∀ {d : Delimiters}, d.Writable → ∀ source, Ends d source := fun hd source =>
    ends_of_ne_nil hd.halves.1.ne_nil hd.halves.2.ne_nil source
  refine ⟨fun d hopening hclosing source => ?_, fun hfirst hdelimiters => ?_⟩
  · exact ends_of_ne_nil (fun h => hopening (String.toList_eq_nil_iff.mp h))
      (fun h => hclosing (String.toList_eq_nil_iff.mp h)) source
  · have he := hdelimiters ▸ writable_of_ofConfig hfirst
    refine ⟨hends he, fun hparse hcompile d hd text => ?_⟩
    have hwritable := Template.pairs_of_compile hcompile
      (fun _ hm => writable_of_parse he hparse hm) d hd
    exact ⟨hends hwritable text, hends he _, exists_reaches_text he hwritable text⟩

/-- A section behind a switch keeps the pair of the switch, and the texts from its callable are
scanned under this. -/
theorem scans_end_switched :
    let e := plainEngine []
    let d : Delimiters := ⟨"<%", "%>"⟩
    let source := "\x7b\x7b=<% %>=\x7d\x7d<%#a%>x<%/a%>"
    Ends ⟨"<", "\n"⟩ source ∧ ∃ tree t, e.parse source = .ok tree ∧
      Template.compile (e.compileOptions "") "t" source tree = .ok t ∧
      Step.allPairs t.steps = [d] ∧ ∀ text, Ends e.delimiters (e.lambdaSource text (some d)) := by
  intro e d source
  have hfirst : ofConfig {} Cache.none e.host =
      .ok { e with pragmas := PragmaSet.ofList [] } := by
    have hvalid : ({} : Config).validate = .ok () := by decide +kernel
    have hdelimiters : ({} : Config).initialDelimiters = .ok e.delimiters := by decide +kernel
    unfold ofConfig
    rw [hvalid, hdelimiters]
    rfl
  have hscan : Token.scan e.delimiters source = .ok
      [⟨.delimiters, "<% %>", 1, 0, 11, e.delimiters, none⟩,
        ⟨.sectionTag, "a", 1, 11, 17, d, none⟩, ⟨.text, "x", 1, 17, 18, d, none⟩,
        ⟨.close, "a", 1, 18, 24, d, none⟩] := by
    decide +kernel
  have htree : e.parse source =
      .ok [.sectionNode "a" false [.text "x"] 17 18 d 1] :=
    parse_of_scan hscan (by cbv)
  have hcompile : ∃ t, Template.compile (e.compileOptions "") "t" source
      [.sectionNode "a" false [.text "x"] 17 18 d 1] = .ok t ∧ Step.allPairs t.steps = [d] :=
    ⟨_, rfl, rfl⟩
  obtain ⟨t, hcompile, hpairs⟩ := hcompile
  have hends := scans_end
  refine ⟨hends.1 _ (by decide) (by decide) source, _, t, htree, hcompile, hpairs,
    fun text => ?_⟩
  have hd : d ∈ Step.allPairs t.steps := hpairs ▸ List.mem_cons_self
  exact ((hends.2 hfirst rfl).2 htree hcompile d hd text).2.1

end Engine

end Mustache
