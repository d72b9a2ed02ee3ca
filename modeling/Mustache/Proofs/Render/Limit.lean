import Mustache.Proofs.Render.Depth
import Mustache.Proofs.Render.Sources

/-!
A higher limit on depth. An engine that differs from another in a higher limit alone renders what
that one renders, unless that one comes to its limit. Main statement: `Engine.render_withMaxDepth`.

A callable is told when text that it asked for came to the limit, and could make anything of it. So
those in reach are asked to fail as well then; where there are none this asks for nothing.
-/

namespace Mustache

/-- A template would have been entered from a state as deep as the limit. -/
def Error.isRecursionLimit : Error → Bool
  | .recursionLimit _ _ => true
  | _ => false

/-- An engine with another limit on depth. -/
def Engine.withMaxDepth (e : Engine σ) (limit : Nat) : Engine σ :=
  { e with config := { e.config with maxDepth := limit } }

/-! ### Callables -/

/-- A call that fails of the limit whenever text that it asks for does, and gives values with `Q`. -/
inductive Act.Candid (Q : Value → Prop) : Act σ → Prop
  | done {result : Except Error Value} {w : σ} (h : ∀ v, result = .ok v → Q v) :
      Candid Q (.done result w)
  | render {text : String} {w : σ} {next : Except Error String → σ → Act σ}
      (hok : ∀ out w, Candid Q (next (.ok out) w))
      (herror : ∀ err w, ¬ err.isRecursionLimit → Candid Q (next (.error err) w))
      (hlimit : ∀ err w, err.isRecursionLimit →
        ∃ err' w', err'.isRecursionLimit ∧ next (.error err) w = .done (.error err') w') :
      Candid Q (.render text w next)

/-- Callables among `P` do not lead to others, and fail of the limit whenever text that they ask
for does. -/
structure Host.Candid (host : Host σ) (P : Callable → Prop) : Prop where
  nullary : ∀ {id : Nat}, P ⟨id, .nullary⟩ →
    ∀ w v, (host.nullary id w).1 = .ok v → v.CallablesIn P
  unary : ∀ {id : Nat} {v : Value}, P ⟨id, .unary⟩ → v.CallablesIn P →
    ∀ delimiters w, (host.unary id v delimiters w).Candid (Value.CallablesIn P)

theorem Host.candid_nothing (host : Host σ) : host.Candid fun _ => False :=
  ⟨fun h => h.elim, fun h => h.elim⟩

namespace Render

variable {σ α : Type} {P : Callable → Prop}

/-! ### Steps -/

/-- All callables in reach of the scopes are among `P`. -/
def ScopesIn (P : Callable → Prop) (s : State σ) : Prop := ∀ v ∈ s.scopes, v.CallablesIn P

/-- `act'` does what `act` does unless that comes to the limit on depth. -/
abbrev Outlasts (P : Callable → Prop) (act' act : RenderM σ α) (post : α → Prop) : Prop :=
  Follows (Same (ScopesIn P)) (fun err => err.isRecursionLimit) act act' post

theorem tracks_scopesIn : Tracks (Value.CallablesIn P) (Same (ScopesIn (σ := σ) P)) :=
  tracks_same (fun hs => hs) (fun _ hs => hs)
    (fun hv hs => List.forall_mem_cons.mpr ⟨hv, hs⟩)
    fun hs v hv => hs v (List.mem_of_mem_tail hv)

theorem Outlasts.withOverrides {act act' : RenderM σ α} {post : α → Prop}
    (h : Outlasts P act' act post) (os : List (Override Step)) :
    Outlasts P (withOverrides os act') (withOverrides os act) post := by
  refine h.between ?_ ?_
  · rintro _ s ⟨rfl, hs⟩
    exact ⟨rfl, hs⟩
  · rintro _ s ⟨rfl, hs⟩
    exact ⟨rfl, hs⟩

theorem Outlasts.entering {limit limit' : Nat} {name : String} {act act' : RenderM σ α}
    {post : α → Prop} (h : Outlasts P act' act post) (hlimit : limit ≤ limit') :
    Outlasts P (entering limit' name act') (entering limit name act) post := by
  rintro _ s ⟨rfl, hs⟩
  rcases Nat.lt_or_ge s.depth limit with hdepth | hdepth
  · rw [entering_of_lt hdepth, entering_of_lt (Nat.lt_of_lt_of_le hdepth hlimit)]
    refine h.between ?_ ?_ s s ⟨rfl, hs⟩
    · rintro _ s ⟨rfl, hs⟩
      exact ⟨rfl, hs⟩
    · rintro _ s ⟨rfl, hs⟩
      exact ⟨rfl, hs⟩
  · rw [entering_of_le hdepth]
    exact Or.inl rfl

variable {e : Engine σ} {limit : Nat}

theorem outlasts_runAct {deeper deeper' : Renderer σ}
    (htext : ∀ text delimiters, Outlasts P
      (renderText (e.withMaxDepth limit) deeper' text delimiters)
      (renderText e deeper text delimiters) fun _ => True)
    (delimiters : Delimiters) {act : Act σ} (hact : act.Candid (Value.CallablesIn P)) :
    Outlasts P (runAct (e.withMaxDepth limit) deeper' delimiters act)
      (runAct e deeper delimiters act) (Value.CallablesIn P) := by
  induction hact with
  | done h =>
    rw [runAct_done, runAct_done]
    exact follows_callWorld tracks_scopesIn.stores fun _ v => h v
  | render _ _ hlimit ihok iherror =>
    rw [runAct_render, runAct_render]
    refine (htext _ (some delimiters)).attempt tracks_scopesIn.stores _ ihok iherror ?_
    intro err w s herr
    obtain ⟨err', w', herr', hnext⟩ := hlimit err w herr
    rw [hnext]
    exact ⟨err', setWorld w' s, herr', rfl⟩

/-- A higher limit makes no difference to steps unless it makes one a level further down. -/
theorem lockstep_withMaxDepth {deeper deeper' : Renderer σ} (hlimit : e.config.maxDepth ≤ limit)
    (hhost : e.host.Candid P)
    (hdeeper : ∀ t indent steps out,
      Outlasts P (deeper' t indent steps out) (deeper t indent steps out) fun _ => True) :
    Lockstep e (e.withMaxDepth limit) deeper deeper' (Value.CallablesIn P) (Same (ScopesIn P))
      fun err => err.isRecursionLimit where
  toTracks := tracks_scopesIn
  family := Value.family_callablesIn
  delimiters := rfl
  host := rfl
  loadPartial _ := rfl
  loadLambda _ _ := rfl
  nullary hcallable := hhost.nullary (Value.callablesIn_callable_iff.mp hcallable)
  unary htext id v delimiters hcallable hv := by
    have hcandid := hhost.unary (Value.callablesIn_callable_iff.mp hcallable) hv delimiters
    unfold callUnary
    refine follows_get_bind fun s s' hs => ?_
    rw [hs.1]
    exact outlasts_runAct htext delimiters (hcandid s.store.world)
  enters _ t indent steps out := (hdeeper t indent steps out).entering hlimit
  expands _ overrides t indent steps out :=
    ((hdeeper t indent steps out).withOverrides overrides).entering hlimit

theorem outlasts_renderLevels (hlimit : e.config.maxDepth ≤ limit) (hhost : e.host.Candid P)
    {n n' : Nat} (hn : n ≤ n') (t : Template) (indent : String) (steps : List Step)
    (out : String) :
    Outlasts P (renderLevels (e.withMaxDepth limit) n' t indent steps out)
      (renderLevels e n t indent steps out) fun _ => True := by
  induction n generalizing n' t indent steps out with
  | zero => exact fun _ _ _ => Or.inl rfl
  | succ n ih =>
    cases n' with
    | zero => omega
    | succ n' =>
      have hdeeper := ih (Nat.le_of_succ_le_succ hn)
      exact (lockstep_withMaxDepth hlimit hhost hdeeper).renderSteps t indent steps out

end Render

namespace Engine

open Render

variable {σ α : Type}

/-! ### Renders -/

/-- From the store `s`, `op'` gives and leaves what `op` does, unless that comes to the limit on
depth. -/
def Outlasts (op' op : EngineM σ α) (s : Store σ) : Prop :=
  match op s with
  | .ok a s' => op' s = .ok a s'
  | .error err s' => err.isRecursionLimit ∨ op' s = .error err s'

variable {e : Engine σ} {limit : Nat} {P : Callable → Prop} {data : Value} {s : Store σ}

theorem scopesIn_startState (hdata : data.CallablesIn P)
    (hhelpers : ∀ entry ∈ s.helpers, entry.2.CallablesIn P) : ScopesIn P (startState s data) :=
  forall_startScopes hdata (.map hhelpers)

theorem renderTemplate_withMaxDepth (hlimit : e.config.maxDepth ≤ limit)
    (hhost : e.host.Candid P) (hdata : data.CallablesIn P)
    (hhelpers : ∀ entry ∈ s.helpers, entry.2.CallablesIn P) (t : Template) :
    Outlasts ((e.withMaxDepth limit).renderTemplate t data) (e.renderTemplate t data) s := by
  have hrun := outlasts_renderLevels hlimit hhost (Nat.add_le_add_right hlimit 1) t "" t.steps ""
    (startState s data) (startState s data) ⟨rfl, scopesIn_startState hdata hhelpers⟩
  unfold Outlasts
  cases h : renderLevels e (e.config.maxDepth + 1) t "" t.steps "" (startState s data) with
  | ok out r =>
    rw [h] at hrun
    obtain ⟨_, hrun', ⟨rfl, -⟩, -⟩ := hrun
    rw [renderTemplate_of_ok h]
    exact renderTemplate_of_ok hrun'
  | error err r =>
    rw [h] at hrun
    rw [renderTemplate_of_error h]
    refine hrun.imp_right ?_
    rintro ⟨_, hrun', rfl, -⟩
    exact renderTemplate_of_error hrun'

/-- An engine that renders one level down, with a partial that includes itself. -/
def shallowEngine : Engine Unit :=
  { plainEngine [("p", "x\x7b\x7b> p\x7d\x7d")] with config := { maxDepth := 1 } }

end Engine

end Mustache
