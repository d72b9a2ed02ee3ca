import Mustache.Proofs.Render.Limit

/-!
Renders at two depths. Without callables, a template that is entered one level further down renders
as it does one level up, unless it comes to the limit on depth. Main statement:
`follows_renderLevels_lower`.
-/

namespace Mustache.Render

variable {σ α : Type}

/-- The second state is of depth `d`, and the first is the same one level further down. Nothing in
their scopes can be called. -/
structure Lower (d : Nat) (s s' : State σ) : Prop where
  depth : s.depth = d + 1
  depth' : s'.depth = d
  store : s'.store = s.store
  overrides : s'.overrides = s.overrides
  scopes : s'.scopes = s.scopes
  callables : ∀ v ∈ s.scopes, v.CallablesIn fun _ => False

variable {d : Nat}

theorem tracks_lower : Tracks (Value.CallablesIn fun _ => False) (@Lower σ d) where
  scopes hs := ⟨hs.scopes, hs.callables⟩
  overrides hs := hs.overrides
  stores hs := ⟨hs.store, fun _ => { hs with store := rfl }⟩
  push hv hs :=
    { hs with
      scopes := congrArg (_ :: ·) hs.scopes
      callables := List.forall_mem_cons.mpr ⟨hv, hs.callables⟩ }
  pop hs :=
    { hs with
      scopes := congrArg List.tail hs.scopes
      callables := fun v hv => hs.callables v (List.mem_of_mem_tail hv) }

/-- From one level below the depth `d`, `act` comes to the limit or does what it does at `d`. -/
abbrev FollowsUp (d : Nat) (act : RenderM σ α) : Prop :=
  Follows (Lower d) (fun err => err.isRecursionLimit) act act fun _ => True

theorem FollowsUp.entering {limit : Nat} {name : String} {act : RenderM σ α}
    (h : FollowsUp (d + 1) act) : FollowsUp d (entering limit name act) := by
  intro s s' hs
  obtain ⟨hdepth, hdepth'⟩ := And.intro hs.depth hs.depth'
  rcases Nat.lt_or_ge s.depth limit with hlimit | hlimit
  · rw [entering_of_lt hlimit, entering_of_lt (by omega)]
    refine h.between (fun s s' hs => ?_) (fun s s' hs => ?_) s s' hs
    · exact { hs with depth := congrArg (· + 1) hs.depth, depth' := congrArg (· + 1) hs.depth' }
    · exact { hs with depth := congrArg (· - 1) hs.depth, depth' := congrArg (· - 1) hs.depth' }
  · rw [entering_of_le hlimit]
    exact Or.inl rfl

theorem FollowsUp.withOverrides {act : RenderM σ α} (h : FollowsUp d act)
    (os : List (Override Step)) : FollowsUp d (withOverrides os act) :=
  h.between (fun _ _ hs => { hs with overrides := congrArg (os :: ·) hs.overrides })
    fun _ _ hs => { hs with overrides := congrArg List.tail hs.overrides }

theorem lockstep_lower {e : Engine σ} {deeper : Renderer σ}
    (hdeeper : ∀ t indent steps out, FollowsUp (d + 1) (deeper t indent steps out)) :
    Lockstep e e deeper deeper (Value.CallablesIn fun _ => False) (Lower d)
      fun err => err.isRecursionLimit where
  toTracks := tracks_lower
  family := Value.family_callablesIn
  delimiters := rfl
  host := rfl
  loadPartial _ := rfl
  loadLambda _ _ := rfl
  nullary hcallable := (Value.callablesIn_callable_iff.mp hcallable).elim
  unary _ _ _ _ hcallable := (Value.callablesIn_callable_iff.mp hcallable).elim
  enters _ t indent steps out := (hdeeper t indent steps out).entering
  expands _ overrides t indent steps out :=
    ((hdeeper t indent steps out).withOverrides overrides).entering

/-- **One level further down a template renders the same**, unless it comes to the limit. -/
theorem follows_renderLevels_lower (e : Engine σ) (n : Nat) (t : Template) (indent : String)
    (steps : List Step) (out : String) : FollowsUp d (renderLevels e n t indent steps out) := by
  induction n generalizing d t indent steps out with
  | zero => exact fun _ _ _ => Or.inl rfl
  | succ n ih =>
    exact (lockstep_lower fun t indent steps out => ih t indent steps out).renderSteps
      t indent steps out

end Mustache.Render
