import Mustache.Proofs.Render.Limit
import Mustache.Proofs.Render.Sharing
import Mustache.Proofs.Render.Steady

/-!
Blocks that are overridden by their own defaults. Two renders go side by side, the second with one
more override in force, outermost of all, and they put out the same as long as that override repeats
the default of each block that it is for. The second enters a level for each of them, so it may be
lost at the limit on depth. Main statement: `repeatsAlike`.
-/

namespace Mustache

namespace Render

variable {σ α β γ : Type}

/-! ### Outcomes -/

/-- The second run is lost at the limit on depth, or both end alike. -/
def EndUnlessLost (R : State σ → State σ → Prop) (A : α → α → Prop)
    (r r' : EStateM.Result Error (State σ) α) : Prop :=
  (∃ err s', r' = .error err s' ∧ err.isRecursionLimit) ∨ EndAlike R Eq A r r'

section

variable {R R' : State σ → State σ → Prop} {A : α → α → Prop} {B : β → β → Prop}
  {act act' : RenderM σ α} {s s' : State σ}

theorem EndUnlessLost.of_alike (h : Alike R Eq A act act') (hs : R s s') :
    EndUnlessLost R A (act s) (act' s') := .inr (h s s' hs)

/-- What follows may know how the first run went. -/
theorem EndUnlessLost.bind {next next' : α → RenderM σ β}
    (hact : EndUnlessLost R A (act s) (act' s'))
    (hnext : ∀ a a' t t', act s = .ok a t → R t t' → A a a' →
      EndUnlessLost R B (next a t) (next' a' t')) :
    EndUnlessLost R B ((act >>= next) s) ((act' >>= next') s') := by
  rcases hact with ⟨err, t', hrun', hlost⟩ | hend
  · exact .inl ⟨err, t', bind_of_error next' hrun', hlost⟩
  · cases hrun : act s <;> cases hrun' : act' s' <;> rw [hrun, hrun'] at hend
    · rw [bind_of_ok next hrun, bind_of_ok next' hrun']
      exact hnext _ _ _ _ hrun hend.1 hend.2
    · exact hend.elim
    · exact hend.elim
    · rw [bind_of_error next hrun, bind_of_error next' hrun']
      exact .inr hend

theorem EndUnlessLost.between {before before' back back' : State σ → State σ}
    (h : EndUnlessLost R A (act (before s)) (act' (before' s')))
    (hback : ∀ t t', R t t' → R' (back t) (back' t')) :
    EndUnlessLost R' A (between before back act s) (between before' back' act' s') := by
  unfold Render.between
  rcases h with ⟨err, t', hrun', hlost⟩ | hend
  · rw [hrun']
    exact .inl ⟨err, _, rfl, hlost⟩
  · cases hrun : act (before s) <;> cases hrun' : act' (before' s') <;> rw [hrun, hrun'] at hend
    · exact .inr ⟨hback _ _ hend.1, hend.2⟩
    · exact hend.elim
    · exact hend.elim
    · exact .inr ⟨hback _ _ hend.1, hend.2⟩

/-- Only the second run makes a change that it takes back. -/
theorem EndUnlessLost.between_right {before back : State σ → State σ}
    (h : EndUnlessLost R A (act s) (act' (before s'))) (hback : ∀ t t', R t t' → R' t (back t')) :
    EndUnlessLost R' A (act s) (Render.between before back act' s') := by
  unfold Render.between
  rcases h with ⟨err, t', hrun', hlost⟩ | hend
  · rw [hrun']
    exact .inl ⟨err, _, rfl, hlost⟩
  · cases hrun : act s <;> cases hrun' : act' (before s') <;> rw [hrun, hrun'] at hend
    · exact .inr ⟨hback _ _ hend.1, hend.2⟩
    · exact hend.elim
    · exact hend.elim
    · exact .inr ⟨hback _ _ hend.1, hend.2⟩

theorem endUnlessLost_foldlM {f f' : β → γ → RenderM σ β} {xs : List γ} {b : β} (hs : R s s')
    (hf : ∀ before x after b' t t', xs = before ++ x :: after →
      before.foldlM f b s = .ok b' t → R t t' → EndUnlessLost R Eq (f b' x t) (f' b' x t')) :
    EndUnlessLost R Eq (xs.foldlM f b s) (xs.foldlM f' b s') := by
  induction xs generalizing b s s' with
  | nil => exact .inr ⟨hs, rfl⟩
  | cons x xs ih =>
    rw [List.foldlM_cons, List.foldlM_cons]
    refine (hf [] x xs b s s' rfl rfl hs).bind ?_
    rintro b' _ t t' hrun ht rfl
    refine ih ht fun before y after c u u' hxs hbefore hu => ?_
    refine hf (x :: before) y after c u u' (by rw [hxs, List.cons_append]) ?_ hu
    rw [List.foldlM_cons, bind_of_ok _ hrun, hbefore]

end

/-! ### One more override -/

section

variable (e : Engine σ) (o : Override Step)

/-- States of two renders, the second with the override `o` in force too, outside the overrides that
both have. The numbers are those of the levels that are left to enter. -/
structure OneMore (P : Callable → Prop) (frames : List (List (Override Step))) (n n' : Nat)
    (s s' : State σ) : Prop where
  store : s'.store = s.store
  scopes : s'.scopes = s.scopes
  callables : ∀ v ∈ s.scopes, v.CallablesIn P
  overrides : s.overrides = frames ++ [[]]
  overrides' : s'.overrides = frames ++ [[o]]
  levels : n + s.depth = e.config.maxDepth
  levels' : n' + s'.depth = e.config.maxDepth
  le : n' ≤ n

/-- The block at the head of this place puts out its default, and `o` would put out the same. -/
structure Place.Repeated (q : Place σ) (site : Option String) (inner : List Step) : Prop where
  own : findOverride? q.state.overrides o.name = none
  standing : o.dedent = site.isSome
  unmarked : Step.allUnmarked o.steps = Step.allUnmarked inner
  /-- Within a line, an override may begin a line where the default does not. -/
  indent : q.indent = "" ∨ site = none ∧ o.steps = inner
  calm : site.isSome → Place.Calm e { q with steps := inner }
  steady : ∀ own ∈ site, ∀ body s', renderSteps e (renderLevels e q.levels) q.template "" inner ""
    q.state = .ok body s' → (body = "" ∨ Template.endsInNewline body = true) ∧
      Reindent.Steady own.toList body.toList

/-- The block at the head of this place puts out the override `u`, and `o` would put out the same:
they differ in marks at most, and that where these do not count. -/
structure Place.Overridden (q : Place σ) (site : Option String) (u : Override Step) : Prop where
  found : findOverride? q.state.overrides o.name = some u
  standing : o.dedent = u.dedent
  unmarked : Step.allUnmarked o.steps = Step.allUnmarked u.steps
  indent : o.steps = u.steps ∨ q.indent = "" ∨ ¬(site.isNone ∧ !u.dedent)

/-- Wherever a render goes on to from this place, `o` repeats the blocks that it is for. -/
def Place.Repeats (p : Place σ) : Prop :=
  ∀ q, Relation.ReflTransGen (Advance e) p q → ∀ site inner rest,
    q.steps = .block o.name site inner :: rest →
    q.Repeated e o site inner ∨ ∃ u, q.Overridden o site u

end

variable {e : Engine σ} {o : Override Step} {P : Callable → Prop}
  {frames : List (List (Override Step))} {n n' : Nat} {s s' : State σ}

theorem Place.Repeats.advance {p q : Place σ} (h : p.Repeats e o) (hadvance : Advance e p q) :
    q.Repeats e o := fun r hr => h r (.head hadvance hr)

/-- Without moved blanks it makes no difference what the output is. -/
theorem Place.Repeats.onto {p : Place σ} (h : p.Repeats e o) (hcalm : p.Calm e) (out' : String) :
    Place.Repeats e o { p with out := out' } := by
  intro q' hreaches site inner rest hsteps
  obtain ⟨q, hq, heq⟩ := hcalm.reaches_onto hreaches
  rw [heq] at hsteps ⊢
  refine (h q hq site inner rest hsteps).imp ?_ ?_
  · intro hrepeated
    exact ⟨hrepeated.own, hrepeated.standing, hrepeated.unmarked, hrepeated.indent,
      fun hsite => (hrepeated.calm hsite).onto _, hrepeated.steady⟩
  · rintro ⟨u, hfound, hstanding, hunmarked, hindent⟩
    exact ⟨u, hfound, hstanding, hunmarked, hindent⟩

/-- The further override counts for the blocks of its name, before all others. -/
theorem findOverride?_oneMore (frames : List (List (Override Step))) (name : String) :
    findOverride? (frames ++ [[o]]) name =
      if o.name = name then some o else findOverride? (frames ++ [[]]) name := by
  unfold findOverride?
  rw [List.reverse_append, List.reverse_append, List.reverse_singleton, List.reverse_singleton,
    List.singleton_append, List.singleton_append, List.findSome?_cons, List.findSome?_cons,
    List.find?_cons, List.find?_nil]
  by_cases hname : o.name = name
  · rw [beq_iff_eq.mpr hname, if_pos hname]
  · rw [beq_eq_false_iff_ne.mpr hname, if_neg hname]

namespace OneMore

/-! ### States in step -/

theorem inScope {v : Value} (hs : OneMore e o P frames n n' s s') (hv : v.CallablesIn P) :
    OneMore e o P frames n n' { s with scopes := v :: s.scopes }
      { s' with scopes := v :: s'.scopes } :=
  { hs with
    scopes := congrArg (v :: ·) hs.scopes
    callables := List.forall_mem_cons.mpr ⟨hv, hs.callables⟩ }

theorem outOfScope (hs : OneMore e o P frames n n' s s') :
    OneMore e o P frames n n' { s with scopes := s.scopes.tail }
      { s' with scopes := s'.scopes.tail } :=
  { hs with
    scopes := congrArg List.tail hs.scopes
    callables := fun v hv => hs.callables v (List.mem_of_mem_tail hv) }

theorem withOverrides (hs : OneMore e o P frames n n' s s') (os : List (Override Step)) :
    OneMore e o P (os :: frames) n n' { s with overrides := os :: s.overrides }
      { s' with overrides := os :: s'.overrides } :=
  { hs with
    overrides := congrArg (os :: ·) hs.overrides
    overrides' := congrArg (os :: ·) hs.overrides' }

theorem withoutOverrides {os : List (Override Step)} (hs : OneMore e o P (os :: frames) n n' s s') :
    OneMore e o P frames n n' { s with overrides := s.overrides.tail }
      { s' with overrides := s'.overrides.tail } :=
  { hs with
    overrides := congrArg List.tail hs.overrides
    overrides' := congrArg List.tail hs.overrides' }

theorem entered (hs : OneMore e o P frames (n + 1) (n' + 1) s s') :
    OneMore e o P frames n n' s.entered s'.entered :=
  { hs with
    levels := (Nat.succ_add_eq_add_succ n s.depth).symm.trans hs.levels
    levels' := (Nat.succ_add_eq_add_succ n' s'.depth).symm.trans hs.levels'
    le := Nat.le_of_succ_le_succ hs.le }

theorem left (hs : OneMore e o P frames n n' s s') (hn : n < e.config.maxDepth) :
    OneMore e o P frames (n + 1) (n' + 1) { s with depth := s.depth - 1 }
      { s' with depth := s'.depth - 1 } := by
  obtain ⟨hlevels, hlevels', hle⟩ := And.intro hs.levels (And.intro hs.levels' hs.le)
  exact { hs with
    levels := by show n + 1 + (s.depth - 1) = _; omega
    levels' := by show n' + 1 + (s'.depth - 1) = _; omega
    le := Nat.succ_le_succ hle }

/-- Only the second render enters a level. -/
theorem entered_right (hs : OneMore e o P frames n (n' + 1) s s') :
    OneMore e o P frames n n' s s'.entered :=
  { hs with
    levels' := (Nat.succ_add_eq_add_succ n' s'.depth).symm.trans hs.levels'
    le := Nat.le_of_succ_le hs.le }

theorem left_right (hs : OneMore e o P frames n n' s s') (hn : n' < n) :
    OneMore e o P frames n (n' + 1) s { s' with depth := s'.depth - 1 } := by
  obtain ⟨hlevels, hlevels'⟩ := And.intro hs.levels hs.levels'
  exact { hs with
    levels' := by show n' + 1 + (s'.depth - 1) = _; omega
    le := hn }

theorem sharing (hprompt : e.host.Prompt P) : Sharing e e (OneMore e o P frames n n') P where
  delimiters := rfl
  host := rfl
  prompt := hprompt
  scopes hs := hs.scopes
  callables hs := hs.callables

theorem alike_onStore (op : Engine.EngineM σ α) :
    Alike (OneMore e o P frames n n') Eq Eq (onStore op) (onStore op) := by
  intro s s' hs
  unfold onStore
  rw [hs.store]
  cases op s.store with
  | ok a store => exact ⟨{ hs with store := rfl }, rfl⟩
  | error err store => exact ⟨{ hs with store := rfl }, rfl⟩

theorem entering {A : α → α → Prop} {act act' : RenderM σ α} {name name' : String}
    (hs : OneMore e o P frames n n' s s')
    (hact : ∀ k k', n = k + 1 → n' = k' + 1 → s.depth < e.config.maxDepth →
      EndUnlessLost (OneMore e o P frames k k') A (act s.entered) (act' s'.entered)) :
    EndUnlessLost (OneMore e o P frames n n') A (entering e.config.maxDepth name act s)
      (entering e.config.maxDepth name' act' s') := by
  obtain ⟨hlevels, hlevels', hle⟩ := And.intro hs.levels (And.intro hs.levels' hs.le)
  by_cases hdepth : s'.depth < e.config.maxDepth
  · have hdepth' : s.depth < e.config.maxDepth := by omega
    obtain ⟨k, rfl⟩ := Nat.exists_eq_add_one_of_ne_zero (show n ≠ 0 by omega)
    obtain ⟨k', rfl⟩ := Nat.exists_eq_add_one_of_ne_zero (show n' ≠ 0 by omega)
    rw [entering_of_lt hdepth, entering_of_lt hdepth']
    exact (hact k k' rfl rfl hdepth').between fun t t' ht => ht.left (by omega)
  · rw [entering_of_le (Nat.le_of_not_lt hdepth)]
    exact .inl ⟨_, s', rfl, rfl⟩

/-- Only the second render enters a level. -/
theorem entering_right {A : α → α → Prop} {act act' : RenderM σ α} {name : String}
    (hs : OneMore e o P frames n n' s s')
    (hact : ∀ k', n' = k' + 1 →
      EndUnlessLost (OneMore e o P frames n k') A (act s) (act' s'.entered)) :
    EndUnlessLost (OneMore e o P frames n n') A (act s)
      (Render.entering e.config.maxDepth name act' s') := by
  obtain ⟨hlevels', hle⟩ := And.intro hs.levels' hs.le
  by_cases hdepth : s'.depth < e.config.maxDepth
  · obtain ⟨k', rfl⟩ := Nat.exists_eq_add_one_of_ne_zero (show n' ≠ 0 by omega)
    rw [entering_of_lt hdepth]
    exact (hact k' rfl).between_right fun t t' ht => ht.left_right hle
  · rw [entering_of_le (Nat.le_of_not_lt hdepth)]
    exact .inl ⟨_, s', rfl, rfl⟩

end OneMore

/-! ### Two renders -/

/-- With `n'` levels left in the second render, steps are carried out alike in both wherever they
come only to blocks that the further override repeats. -/
def RepeatsAlike (e : Engine σ) (o : Override Step) (P : Callable → Prop) (n' : Nat) : Prop :=
  ∀ ⦃frames : List (List (Override Step))⦄ ⦃n : Nat⦄ ⦃t : Template⦄ ⦃indent : String⦄
    ⦃steps : List Step⦄ ⦃out : String⦄ ⦃s s' : State σ⦄, OneMore e o P frames n n' s s' →
    Place.Repeats e o ⟨n, t, indent, steps, out, s⟩ →
    EndUnlessLost (OneMore e o P frames n n') Eq
      (renderSteps e (renderLevels e n) t indent steps out s)
      (renderSteps e (renderLevels e n') t indent steps out s')

section

variable (hdeeper : ∀ k', n' = k' + 1 → RepeatsAlike e o P k')

include hdeeper

theorem repeats_renderText (text : String) (d : Option Delimiters)
    (hs : OneMore e o P frames n n' s s') (h : ∀ k t r, n = k + 1 → OpensText e text d s t r →
      Place.Repeats e o ⟨k, t, "", t.steps, "", r.entered⟩) :
    EndUnlessLost (OneMore e o P frames n n') Eq (renderText e (renderLevels e n) text d s)
      (renderText e (renderLevels e n') text d s') := by
  unfold renderText
  split
  · rename_i hopening
    refine (EndUnlessLost.of_alike (OneMore.alike_onStore (e.loadLambda text d)) hs).bind ?_
    rintro t _ r r' hload hr rfl
    refine hr.entering fun k k' hn hn' hdepth => ?_
    subst hn hn'
    exact hdeeper k' rfl hr.entered (h k t r rfl ⟨hopening, hload, hdepth⟩)
  · exact .inr ⟨hs, rfl⟩

/-- Two overrides that differ in marks at most put out the same. -/
theorem repeats_renderOverride {t : Template} {indent out : String} {name : String}
    {site : Option String} {inner rest : List Step} {u u' : Override Step}
    (hs : OneMore e o P frames n n' s s') (hfound : findOverride? s.overrides name = some u)
    (hdedent : u'.dedent = u.dedent)
    (hunmarked : Step.allUnmarked u'.steps = Step.allUnmarked u.steps)
    (hindent : u'.steps = u.steps ∨ indent = "" ∨ ¬(site.isNone ∧ !u.dedent))
    (h : Place.Repeats e o ⟨n, t, indent, .block name site inner :: rest, out, s⟩) :
    EndUnlessLost (OneMore e o P frames n n') Eq
      (renderOverride e (renderLevels e n) t indent site u out s)
      (renderOverride e (renderLevels e n') t indent site u' out s') := by
  have hmargin : ∀ k, renderLevels e (k + 1) t "" u'.steps = renderLevels e (k + 1) t "" u.steps := by
    intro k
    funext out
    rw [renderLevels, ← renderSteps_unmarked, hunmarked, renderSteps_unmarked, renderLevels]
  unfold renderOverride
  rw [hdedent]
  by_cases hplace : site.isNone ∧ !u.dedent
  · rw [if_pos hplace, if_pos hplace]
    refine hs.entering fun k k' hn hn' hdepth => ?_
    subst hn hn'
    have hsame : renderLevels e (k' + 1) t indent u'.steps =
        renderLevels e (k' + 1) t indent u.steps := by
      rcases hindent with hsteps | rfl | hmoved
      · rw [hsteps]
      · exact hmargin k'
      · exact absurd hplace hmoved
    rw [hsame]
    exact hdeeper k' rfl hs.entered (h.advance (.override hfound hplace hdepth))
  · rw [if_neg hplace, if_neg hplace]
    refine EndUnlessLost.bind (A := Eq) (hs.entering fun k k' hn hn' hdepth => ?_) ?_
    · subst hn hn'
      rw [hmargin]
      exact hdeeper k' rfl hs.entered (h.advance (.moved hfound hplace hdepth))
    · rintro body _ s₁ s₁' - hs₁ rfl
      exact .inr ⟨hs₁, rfl⟩

/-- **An override that repeats a block's default puts out what the default does.** -/
theorem repeats_default {t : Template} {indent out : String} {site : Option String}
    {inner rest : List Step} (hs : OneMore e o P frames n n' s s')
    (h : Place.Repeats e o ⟨n, t, indent, .block o.name site inner :: rest, out, s⟩)
    (hrepeated : Place.Repeated e o ⟨n, t, indent, .block o.name site inner :: rest, out, s⟩ site
      inner) :
    EndUnlessLost (OneMore e o P frames n n') Eq
      (renderSteps e (renderLevels e n) t indent inner out s)
      (renderOverride e (renderLevels e n') t indent site o out s') := by
  have hinner : Place.Repeats e o ⟨n, t, indent, inner, out, s⟩ := h.advance (.block hrepeated.own)
  have hunmarked : ∀ deeper : Renderer σ,
      renderSteps e deeper t "" o.steps = renderSteps e deeper t "" inner := by
    intro deeper
    rw [← renderSteps_unmarked, hrepeated.unmarked, renderSteps_unmarked]
  have hindent : indent = "" ∨ site = none ∧ o.steps = inner := hrepeated.indent
  unfold renderOverride
  cases site with
  | none =>
    have hdedent : o.dedent = false := hrepeated.standing
    have hsame : ∀ deeper : Renderer σ,
        renderSteps e deeper t indent o.steps = renderSteps e deeper t indent inner := by
      intro deeper
      rcases hindent with rfl | ⟨-, hsteps⟩
      · exact hunmarked deeper
      · rw [hsteps]
    rw [if_pos ⟨rfl, by rw [hdedent]; rfl⟩]
    refine hs.entering_right fun k' hn' => ?_
    subst hn'
    rw [renderLevels, hsame]
    exact hdeeper k' rfl hs.entered_right hinner
  | some own =>
    have hdedent : o.dedent = true := hrepeated.standing
    obtain rfl : indent = "" := hindent.resolve_right fun hnone => nomatch hnone.1
    have hcalm : Place.Calm e ⟨n, t, "", inner, out, s⟩ := hrepeated.calm rfl
    rw [if_neg fun hplace => nomatch hplace.1]
    -- the default put out onto nothing
    have hfresh : EndUnlessLost (OneMore e o P frames n n') Eq
        (renderSteps e (renderLevels e n) t "" inner "" s)
        (entering e.config.maxDepth o.name (renderLevels e n' t "" o.steps "") s') := by
      refine hs.entering_right fun k' hn' => ?_
      subst hn'
      rw [renderLevels, hunmarked]
      exact hdeeper k' rfl hs.entered_right (hinner.onto hcalm "")
    have honto : EndAs (Grown out "") (renderSteps e (renderLevels e n) t "" inner out s)
        (renderSteps e (renderLevels e n) t "" inner "" s) :=
      growsAlike e n (.inr hcalm)
    rcases hfresh with ⟨err, r', hrun', hlost⟩ | hend
    · exact .inl ⟨err, r', bind_of_error _ hrun', hlost⟩
    · cases hrun : renderSteps e (renderLevels e n) t "" inner "" s <;>
        cases hrun' : entering e.config.maxDepth o.name (renderLevels e n' t "" o.steps "") s' <;>
        rw [hrun, hrun'] at hend
      · obtain ⟨hr, rfl⟩ := hend
        rw [hrun] at honto
        obtain ⟨a, hout, x, rfl, hbody⟩ := exists_of_endAs honto
        obtain ⟨hended, hsteady⟩ := hrepeated.steady own rfl _ _ hrun
        rw [hout, bind_of_ok _ hrun', hdedent]
        refine .inr ⟨hr, ?_⟩
        rw [placeOverride_of_steady hended hsteady, hbody, String.empty_append]
      · exact hend.elim
      · exact hend.elim
      · obtain ⟨hr, rfl⟩ := hend
        rw [hrun] at honto
        rw [bind_of_error _ hrun']
        cases hout : renderSteps e (renderLevels e n) t "" inner out s with
        | ok a r =>
          rw [hout] at honto
          exact honto.elim
        | error err r =>
          rw [hout] at honto
          obtain ⟨rfl, rfl⟩ := honto
          exact .inr ⟨hr, rfl⟩

section

variable (hprompt : e.host.Prompt P)

include hprompt

theorem repeats_interpolation {t : Template} {indent out : String} (name : Name)
    (escape strict lineStart : Bool) {rest : List Step} (hs : OneMore e o P frames n n' s s')
    (h : Place.Repeats e o
      ⟨n, t, indent, .interpolation name escape strict lineStart :: rest, out, s⟩) :
    EndUnlessLost (OneMore e o P frames n n') Eq
      (renderStep e (renderLevels e n) t indent (.interpolation name escape strict lineStart) out s)
      (renderStep e (renderLevels e n') t indent (.interpolation name escape strict lineStart) out
        s') := by
  have hsharing : Sharing e e (OneMore e o P frames n n') P := OneMore.sharing hprompt
  have hfilters : ∀ v, v.CallablesIn P → Alike (OneMore e o P frames n n') Eq Eq
      (do return (← applyFilters e (renderLevels e n) name.filters v).display)
      (do return (← applyFilters e (renderLevels e n') name.filters v).display) := by
    intro v hv
    refine (hsharing.applyFilters name.filters hv).bind ?_
    rintro u _ ⟨rfl, -⟩
    exact alike_pure rfl
  have hinterpolate : EndUnlessLost (OneMore e o P frames n n') Eq
      (interpolate e (renderLevels e n) t name strict s)
      (interpolate e (renderLevels e n') t name strict s') := by
    unfold interpolate
    refine (EndUnlessLost.of_alike (hsharing.alike_resolve name.path strict) hs).bind ?_
    rintro v _ s₁ s₁' hresolve hs₁ ⟨rfl, hv⟩
    refine (EndUnlessLost.of_alike (hsharing.called t.strictCallables hv) hs₁).bind ?_
    rintro result _ s₂ s₂' hcalled hs₂ rfl
    cases result with
    | none => exact .of_alike (hfilters v hv) hs₂
    | some result =>
      dsimp only
      rw [map_eq_pure_bind, map_eq_pure_bind, bind_assoc, bind_assoc]
      refine (repeats_renderText hdeeper result.display none hs₂ ?_).bind ?_
      · rintro k p r rfl htext
        exact h.advance (.called hresolve hcalled htext)
      · rintro text _ s₃ s₃' - hs₃ rfl
        rw [pure_bind, pure_bind]
        exact .of_alike (hfilters (.string text) (.string text)) hs₃
  rw [renderStep, renderStep]
  refine hinterpolate.bind ?_
  rintro text _ s₁ s₁' - hs₁ rfl
  exact .inr ⟨hs₁, rfl⟩

theorem repeats_section {t : Template} {indent : String} (name : Name) (strict : Bool)
    (body : String) (delimiters : Delimiters) {inner rest : List Step} {out : String}
    (hinner : ∀ {out : String} {s s' : State σ}, OneMore e o P frames n n' s s' →
      Place.Repeats e o ⟨n, t, indent, inner, out, s⟩ →
      EndUnlessLost (OneMore e o P frames n n') Eq
        (renderSteps e (renderLevels e n) t indent inner out s)
        (renderSteps e (renderLevels e n') t indent inner out s'))
    (hs : OneMore e o P frames n n' s s')
    (h : Place.Repeats e o
      ⟨n, t, indent, .sectionStep name strict body delimiters inner :: rest, out, s⟩) :
    EndUnlessLost (OneMore e o P frames n n') Eq
      (renderStep e (renderLevels e n) t indent (.sectionStep name strict body delimiters inner)
        out s)
      (renderStep e (renderLevels e n') t indent (.sectionStep name strict body delimiters inner)
        out s') := by
  have hsharing : Sharing e e (OneMore e o P frames n n') P := OneMore.sharing hprompt
  rw [sectionStep_eq, sectionStep_eq]
  refine (EndUnlessLost.of_alike (hsharing.alike_sectionValue name strict) hs).bind ?_
  rintro v _ s₁ s₁' hvalue hs₁ ⟨rfl, hv⟩
  split
  · rename_i c
    have hc := Value.callablesIn_callable_iff.mp hv
    refine (EndUnlessLost.of_alike (hsharing.callSection body delimiters hc) hs₁).bind ?_
    rintro result _ s₂ s₂' hcall hs₂ ⟨rfl, -⟩
    refine (repeats_renderText hdeeper result.display (some delimiters) hs₂ ?_).bind ?_
    · rintro k p r rfl htext
      exact h.advance (.answered hvalue hcall htext)
    · rintro text _ s₃ s₃' - hs₃ rfl
      exact .inr ⟨hs₃, rfl⟩
  · rename_i hplain
    refine endUnlessLost_foldlM hs₁ fun before scope after out s₂ s₂' hscopes hbefore hs₂ => ?_
    have hscope : scope.CallablesIn P := by
      have hmem : scope ∈ sectionScopes t.strictCallables v := by
        rw [hscopes]
        exact List.mem_append_right before List.mem_cons_self
      exact of_mem_sectionScopes Value.family_callablesIn hv hmem
    refine EndUnlessLost.between ?_ fun _ _ => OneMore.outOfScope
    exact hinner (hs₂.inScope hscope) (h.advance (.body hvalue hplain hscopes hbefore))

theorem repeats_partialStep {t : Template} {indent out : String} (name : PartialName)
    (own : Option String) {rest : List Step} (hs : OneMore e o P frames n n' s s')
    (h : Place.Repeats e o ⟨n, t, indent, .partialStep name own :: rest, out, s⟩) :
    EndUnlessLost (OneMore e o P frames n n') Eq
      (renderStep e (renderLevels e n) t indent (.partialStep name own) out s)
      (renderStep e (renderLevels e n') t indent (.partialStep name own) out s') := by
  have hsharing : Sharing e e (OneMore e o P frames n n') P := OneMore.sharing hprompt
  rw [renderStep, renderStep]
  refine (EndUnlessLost.of_alike (hsharing.alike_partialName name) hs).bind ?_
  rintro named _ s₁ s₁' hname hs₁ rfl
  refine (EndUnlessLost.of_alike (OneMore.alike_onStore (e.loadPartial named)) hs₁).bind ?_
  rintro found _ s₂ s₂' hload hs₂ rfl
  cases found with
  | none => exact .inr ⟨hs₂, rfl⟩
  | some p =>
    refine hs₂.entering fun k k' hn hn' hdepth => ?_
    subst hn hn'
    exact hdeeper k' rfl hs₂.entered (h.advance (.partialStep hname hload hdepth))

end

theorem repeats_parent {t : Template} {indent out : String} (name : String)
    (own : Option String) (overrides : List (Override Step)) {rest : List Step}
    (hs : OneMore e o P frames n n' s s')
    (h : Place.Repeats e o ⟨n, t, indent, .parent name own overrides :: rest, out, s⟩) :
    EndUnlessLost (OneMore e o P frames n n') Eq
      (renderStep e (renderLevels e n) t indent (.parent name own overrides) out s)
      (renderStep e (renderLevels e n') t indent (.parent name own overrides) out s') := by
  rw [renderStep, renderStep]
  refine (EndUnlessLost.of_alike (OneMore.alike_onStore (e.loadPartial name)) hs).bind ?_
  rintro found _ s₁ s₁' hload hs₁ rfl
  cases found with
  | none => exact .inr ⟨hs₁, rfl⟩
  | some p =>
    refine hs₁.entering fun k k' hn hn' hdepth => ?_
    subst hn hn'
    refine EndUnlessLost.between (R := OneMore e o P (overrides :: frames) k k') ?_
      fun _ _ => OneMore.withoutOverrides
    exact hdeeper k' rfl (hs₁.entered.withOverrides overrides)
      (h.advance (.parent hload hdepth))

end

mutual

theorem repeats_renderStep (hprompt : e.host.Prompt P)
    (hdeeper : ∀ k', n' = k' + 1 → RepeatsAlike e o P k') {t : Template} {indent out : String}
    {rest : List Step} {s s' : State σ} (step : Step) (hs : OneMore e o P frames n n' s s')
    (h : Place.Repeats e o ⟨n, t, indent, step :: rest, out, s⟩) :
    EndUnlessLost (OneMore e o P frames n n') Eq
      (renderStep e (renderLevels e n) t indent step out s)
      (renderStep e (renderLevels e n') t indent step out s') := by
  cases step with
  | text text lineStart =>
    rw [renderStep, renderStep]
    exact .inr ⟨hs, rfl⟩
  | interpolation name escape strict lineStart =>
    exact repeats_interpolation hdeeper hprompt name escape strict lineStart hs h
  | sectionStep name strict body delimiters inner =>
    exact repeats_section hdeeper hprompt name strict body delimiters
      (repeats_renderSteps hprompt hdeeper inner) hs h
  | inverted name inner =>
    have hsharing : Sharing e e (OneMore e o P frames n n') P := OneMore.sharing hprompt
    rw [inverted_eq, inverted_eq]
    refine (EndUnlessLost.of_alike (hsharing.alike_sectionValue name false) hs).bind ?_
    rintro v _ s₁ s₁' hvalue hs₁ ⟨rfl, -⟩
    cases htruthy : v.truthy with
    | true => exact .inr ⟨hs₁, rfl⟩
    | false =>
      exact repeats_renderSteps hprompt hdeeper inner hs₁ (h.advance (.inverted hvalue htruthy))
  | partialStep name own => exact repeats_partialStep hdeeper hprompt name own hs h
  | parent name own overrides => exact repeats_parent hdeeper name own overrides hs h
  | block name site inner =>
    rw [renderStep, renderStep, bind_of_ok _ (get_eq s), bind_of_ok _ (get_eq s'), hs.overrides',
      findOverride?_oneMore]
    by_cases hname : o.name = name
    · subst hname
      rw [if_pos rfl]
      rcases h _ .refl site inner rest rfl with hrepeated | ⟨u, hfound, hstanding, hunmarked, hindent⟩
      · rw [show findOverride? s.overrides o.name = none from hrepeated.own]
        exact repeats_default hdeeper hs h hrepeated
      · rw [show findOverride? s.overrides o.name = some u from hfound]
        exact repeats_renderOverride hdeeper hs hfound hstanding hunmarked hindent h
    · rw [if_neg hname, ← hs.overrides]
      cases hfound : findOverride? s.overrides name with
      | none => exact repeats_renderSteps hprompt hdeeper inner hs (h.advance (.block hfound))
      | some u => exact repeats_renderOverride hdeeper hs hfound rfl rfl (.inl rfl) h

theorem repeats_renderSteps (hprompt : e.host.Prompt P)
    (hdeeper : ∀ k', n' = k' + 1 → RepeatsAlike e o P k') {t : Template} {indent : String}
    (steps : List Step) {out : String} {s s' : State σ} (hs : OneMore e o P frames n n' s s')
    (h : Place.Repeats e o ⟨n, t, indent, steps, out, s⟩) :
    EndUnlessLost (OneMore e o P frames n n') Eq
      (renderSteps e (renderLevels e n) t indent steps out s)
      (renderSteps e (renderLevels e n') t indent steps out s') := by
  cases steps with
  | nil => exact .inr ⟨hs, rfl⟩
  | cons step steps =>
    rw [renderSteps, renderSteps]
    refine (repeats_renderStep hprompt hdeeper step hs h).bind ?_
    rintro out₁ _ s₁ s₁' hstep hs₁ rfl
    exact repeats_renderSteps hprompt hdeeper steps hs₁ (h.advance (.next hstep))

end

/-- **A further override that repeats the blocks it is for changes nothing** in the render, unless
the render is lost at the limit on depth. -/
theorem repeatsAlike (hprompt : e.host.Prompt P) (o : Override Step) (n' : Nat) :
    RepeatsAlike e o P n' := by
  induction n' with
  | zero =>
    intro frames n t indent steps out s s'
    exact repeats_renderSteps hprompt (fun k hk => absurd hk.symm (Nat.succ_ne_zero k)) steps
  | succ n' ih =>
    intro frames n t indent steps out s s'
    refine repeats_renderSteps hprompt ?_ steps
    rintro k hk
    obtain rfl := Nat.succ.inj hk
    exact ih

end Render

end Mustache
