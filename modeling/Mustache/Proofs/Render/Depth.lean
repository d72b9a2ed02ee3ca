import Mustache.Proofs.Engine.History
import Mustache.Proofs.Render.Lockstep

/-!
How deep a render goes. Steps enter other steps one level further down only, and never from a state
as deep as the limit. So the recursion of a render has come to its end once it is unfolded one time
more often than the limit says, and none of its states is deeper than the limit, however templates
call for each other and for themselves. Main statement: `Engine.render_unfolded`.
-/

namespace Mustache.Render

variable {σ α : Type}

/-! ### The recursion unfolded -/

/-- `r` in the states that are at most `limit` deep, and `beyond` in all deeper ones. -/
def within (limit : Nat) (beyond r : Renderer σ) : Renderer σ := fun t indent steps out s =>
  if s.depth ≤ limit then r t indent steps out s else beyond t indent steps out s

/-- The recursion of a render unfolded `n` times. Where it would go on after that stands `bottom`,
and where steps would be carried out in a state deeper than the limit stands `beyond`. -/
def unfolded (e : Engine σ) (bottom beyond : Renderer σ) : Nat → Renderer σ
  | 0 => bottom
  | n + 1 => within e.config.maxDepth beyond (renderSteps e (unfolded e bottom beyond n))

/-! ### Renders from one depth -/

/-- From every state of depth `d` the two do the same, and they end at that depth. -/
abbrev SameFrom (d : Nat) (act act' : RenderM σ α) : Prop :=
  Follows (Same fun s => s.depth = d) (fun _ => False) act act' fun _ => True

theorem SameFrom.eq {d : Nat} {act act' : RenderM σ α} (h : SameFrom d act act') {s : State σ}
    (hs : s.depth = d) : act' s = act s := by
  have hrun := h s s ⟨rfl, hs⟩
  cases hact : act s with
  | ok a s' =>
    rw [hact] at hrun
    obtain ⟨_, hrun, ⟨rfl, -⟩, -⟩ := hrun
    exact hrun
  | error err s' =>
    rw [hact] at hrun
    obtain ⟨_, hrun', rfl, -⟩ := hrun.resolve_left id
    exact hrun'

/-- What is entered from depth `d` has to do the same one level further down, and that only if `d`
is above the limit. -/
theorem SameFrom.entering {d limit : Nat} {name : String} {act act' : RenderM σ α}
    (h : d < limit → SameFrom (d + 1) act act') :
    SameFrom d (entering limit name act) (entering limit name act') := by
  rintro _ s ⟨rfl, hs⟩
  rcases Nat.lt_or_ge s.depth limit with hlimit | hlimit
  · rw [entering_of_lt hlimit, entering_of_lt hlimit]
    refine (h (hs ▸ hlimit)).between ?_ ?_ s s ⟨rfl, hs⟩
    · rintro _ s ⟨rfl, hs⟩
      exact ⟨rfl, congrArg (· + 1) hs⟩
    · rintro _ s ⟨rfl, hs⟩
      exact ⟨rfl, congrArg (· - 1) hs⟩
  · rw [entering_of_le hlimit, entering_of_le hlimit]
    exact Or.inr ⟨s, rfl, rfl, hs⟩

theorem tracks_sameDepth {d : Nat} :
    Tracks (fun _ => True) (Same fun s : State σ => s.depth = d) :=
  tracks_same (fun _ _ _ => trivial) (fun _ hs => hs) (fun _ hs => hs) fun hs => hs

variable {e : Engine σ} {deeper deeper' : Renderer σ} {d : Nat}

/-- A call with an argument renders what it asks for at the depth it is made at, and is told of
what fails there. -/
theorem SameFrom.runAct
    (htext : ∀ text delimiters, SameFrom d (renderText e deeper text delimiters)
      (renderText e deeper' text delimiters)) (delimiters : Delimiters) (act : Act σ) :
    SameFrom d (runAct e deeper delimiters act) (runAct e deeper' delimiters act) := by
  induction act with
  | done result w =>
    rw [runAct_done, runAct_done]
    exact follows_callWorld tracks_sameDepth.stores fun _ _ _ => trivial
  | render text w next ih =>
    rw [runAct_render, runAct_render]
    refine (htext text (some delimiters)).attempt tracks_sameDepth.stores w ?_ ?_ ?_
    · exact fun out w => ih (.ok out) w
    · exact fun err w _ => ih (.error err) w
    · exact fun _ _ _ => False.elim

/-- Two renders that do the same one level further down do the same, and no level below the limit
matters to that. -/
theorem lockstep_sameFrom
    (hdeeper : d < e.config.maxDepth → ∀ t indent steps out,
      SameFrom (d + 1) (deeper t indent steps out) (deeper' t indent steps out)) :
    Lockstep e e deeper deeper' (fun _ => True) (Same fun s => s.depth = d) fun _ => False where
  toTracks := tracks_sameDepth
  family := Value.family_all
  delimiters := rfl
  host := rfl
  loadPartial _ := rfl
  loadLambda _ _ := rfl
  nullary _ _ _ _ := trivial
  unary htext id v delimiters _ _ := by
    unfold callUnary
    refine follows_get_bind fun s s' hs => ?_
    rw [hs.1]
    exact SameFrom.runAct htext delimiters _
  enters name t indent steps out := SameFrom.entering fun hlimit => hdeeper hlimit t indent steps out
  expands name overrides t indent steps out := by
    refine SameFrom.entering fun hlimit => (hdeeper hlimit t indent steps out).between ?_ ?_
    · rintro _ s ⟨rfl, hs⟩
      exact ⟨rfl, hs⟩
    · rintro _ s ⟨rfl, hs⟩
      exact ⟨rfl, hs⟩

/-- **The recursion of a render ends within the limit.** From a state of depth `d` it makes no
difference how it would go on once it is unfolded more than `maxDepth - d` times, nor what would be
done in a state deeper than the limit. -/
theorem sameFrom_unfolded (bottom beyond : Renderer σ) {n m d : Nat}
    (hd : d ≤ e.config.maxDepth) (hn : e.config.maxDepth < n + d) (hm : e.config.maxDepth < m + d)
    (t : Template) (indent : String) (steps : List Step) (out : String) :
    SameFrom d (renderLevels e n t indent steps out)
      (unfolded e bottom beyond m t indent steps out) := by
  induction n generalizing m d t indent steps out with
  | zero => omega
  | succ n ih =>
    cases m with
    | zero => omega
    | succ m =>
      have hdeeper : d < e.config.maxDepth → ∀ t indent steps out, SameFrom (d + 1)
          (renderLevels e n t indent steps out) (unfolded e bottom beyond m t indent steps out) :=
        fun hlimit => ih hlimit (by omega) (by omega)
      have hsteps := (lockstep_sameFrom hdeeper).renderSteps t indent steps out
      rintro _ s ⟨rfl, hs⟩
      have hwithin : unfolded e bottom beyond (m + 1) t indent steps out s =
          renderSteps e (unfolded e bottom beyond m) t indent steps out s :=
        if_pos (hs ▸ hd)
      rw [hwithin]
      exact hsteps s s ⟨rfl, hs⟩

end Mustache.Render

namespace Mustache.Engine

open Render

variable {σ : Type}

/-- Renders a compiled template by a renderer of its steps. -/
def renderWith (r : Renderer σ) (t : Template) (data : Value) : EngineM σ String := fun s =>
  match r t "" t.steps "" (startState s data) with
  | .ok out r => .ok out r.store
  | .error err r => .error err r.store

theorem renderTemplate_eq (e : Engine σ) (t : Template) (data : Value) :
    e.renderTemplate t data = renderWith (renderLevels e (e.config.maxDepth + 1)) t data := rfl

theorem renderTemplate_unfolded (e : Engine σ) (bottom beyond : Renderer σ) (k : Nat) (t : Template)
    (data : Value) : e.renderTemplate t data =
      renderWith (unfolded e bottom beyond (e.config.maxDepth + 1 + k)) t data := by
  funext s
  have hsame := sameFrom_unfolded (e := e) bottom beyond (n := e.config.maxDepth + 1)
    (m := e.config.maxDepth + 1 + k) (Nat.zero_le _) (by omega) (by omega) t "" t.steps ""
  rw [renderTemplate_eq]
  unfold renderWith
  rw [hsame.eq rfl]

/-- **Every render ends, and no state of it is deeper than the limit.** However templates include,
extend and override each other, its recursion has come to its end once it is unfolded one time more
often than the limit says: it makes no difference what would come after that (`bottom`), nor what
would be done in a template entered from a state as deep as the limit (`beyond`). -/
theorem render_unfolded (e : Engine σ) (bottom beyond : Renderer σ) (k : Nat) (data : Value) :
    (∀ t, e.renderTemplate t data =
        renderWith (unfolded e bottom beyond (e.config.maxDepth + 1 + k)) t data) ∧
      ∀ name, e.render name data = e.loadTemplate name >>= fun t =>
        renderWith (unfolded e bottom beyond (e.config.maxDepth + 1 + k)) t data := by
  have htemplate := fun t => renderTemplate_unfolded e bottom beyond k t data
  refine ⟨htemplate, fun name => ?_⟩
  unfold render
  rw [funext htemplate]

/-- The levels of a render never run out: it renders as one that calls for itself whenever a
template is entered. -/
theorem renderLevels_recursion (e : Engine σ) : renderLevels e (e.config.maxDepth + 1) =
    renderSteps e (renderLevels e (e.config.maxDepth + 1)) := by
  funext t indent steps out s
  rcases Nat.lt_or_ge e.config.maxDepth s.depth with hdepth | hdepth
  · have hsteps : SameFrom s.depth
        (renderSteps e (renderLevels e e.config.maxDepth) t indent steps out)
        (renderSteps e (renderLevels e (e.config.maxDepth + 1)) t indent steps out) :=
      (lockstep_sameFrom fun hlimit => absurd hdepth (Nat.lt_asymm hlimit)).renderSteps
        t indent steps out
    exact (hsteps.eq rfl).symm
  · have hfew := sameFrom_unfolded (e := e) (renderLevels e 0) (renderLevels e 0)
      (n := e.config.maxDepth + 1) (m := e.config.maxDepth + 2) hdepth (by omega) (by omega)
      t indent steps out
    have hmore := sameFrom_unfolded (e := e) (renderLevels e 0) (renderLevels e 0)
      (n := e.config.maxDepth + 2) (m := e.config.maxDepth + 2) hdepth (by omega) (by omega)
      t indent steps out
    exact (hfew.eq rfl).symm.trans (hmore.eq rfl)

/-- A renderer that calls for itself whenever a template is entered renders what the engine
renders: the recursion has no other solution. -/
theorem renderTemplate_of_recursion {e : Engine σ} {r : Renderer σ} (hr : r = renderSteps e r)
    (t : Template) (data : Value) : e.renderTemplate t data = renderWith r t data := by
  have hunfolded : ∀ n, unfolded e r r n = r := by
    intro n
    induction n with
    | zero => rfl
    | succ n ih =>
      rw [unfolded, ih, ← hr]
      funext t indent steps out s
      exact ite_self _
  rw [renderTemplate_unfolded e r r 0, hunfolded]

end Mustache.Engine
