import Mustache.Proofs.Render.Confined
import Mustache.Proofs.Render.Onto
import Mustache.Proofs.Template.Indented

/-!
Rendering templates with an indent in front of each line of their source. Without callables, which
would see the bodies of sections, they put out what the templates without the indents put out behind
the indent. Main statement: `putsAlike_of_indents`.
-/

namespace Mustache

/-- The output of the second reading where the first one has `out`. -/
def Margin.put (indent out : String) : Margin → String
  | written => out ++ indent
  | ahead | behind => out

theorem Margin.put_of_ne {k : Margin} (h : k ≠ .written) (indent out : String) :
    k.put indent out = out := by
  cases k with
  | ahead => rfl
  | written => exact absurd rfl h
  | behind => rfl

@[simp] theorem Margin.put_after (text indent out : String) : (after text).put indent out = out :=
  put_of_ne (by unfold after; split <;> decide) indent out

namespace Render

variable {σ α β γ : Type}

/-- Two runs through a list are the same if they are wherever the first comes to. -/
theorem foldlM_congr_of_run {f f' : β → γ → RenderM σ β} {xs : List γ} {b : β} {s : State σ}
    (h : ∀ before x after b' t, xs = before ++ x :: after → before.foldlM f b s = .ok b' t →
      f b' x t = f' b' x t) : xs.foldlM f b s = xs.foldlM f' b s := by
  induction xs generalizing b s with
  | nil => rfl
  | cons x xs ih =>
    have hfirst := h [] x xs b s rfl rfl
    rw [List.foldlM_cons, List.foldlM_cons]
    cases hrun : f b x s with
    | error err t => rw [bind_of_error _ hrun, bind_of_error _ (hfirst ▸ hrun)]
    | ok b' t =>
      rw [bind_of_ok _ hrun, bind_of_ok _ (hfirst ▸ hrun)]
      refine ih fun before y after c u hxs hbefore => ?_
      refine h (x :: before) y after c u (by rw [hxs, List.cons_append]) ?_
      rw [List.foldlM_cons, bind_of_ok _ hrun, hbefore]

theorem eq_of_endAs {r r' : EStateM.Result Error (State σ) α} (h : EndAs Eq r r') : r = r' := by
  cases r <;> cases r'
  · rw [h.1, h.2]
  · exact h.elim
  · exact h.elim
  · rw [h.1, h.2]

variable {e : Engine σ} {n : Nat} {t t' : Template} {w indent : String}

/-- What the two readings put out, from related outputs on. -/
abbrev PutsAlike (e : Engine σ) (n : Nat) (t t' : Template) (w indent : String) (k m : Margin)
    (steps steps' : List Step) : Prop :=
  ∀ ⦃out : String⦄ ⦃s : State σ⦄, Place.Uncallable ⟨n, t, indent ++ w, steps, out, s⟩ →
    EndAs (fun a a' => a' = m.put (indent ++ w) a)
      (renderSteps e (renderLevels e n) t (indent ++ w) steps out s)
      (renderSteps e (renderLevels e n) t' indent steps' (k.put (indent ++ w) out) s)

theorem PutsAlike.cons {k k' m : Margin} {step step' : Step} {steps steps' : List Step}
    (hstep : ∀ ⦃out : String⦄ ⦃s : State σ⦄,
      Place.Uncallable ⟨n, t, indent ++ w, step :: steps, out, s⟩ →
        EndAs (fun a a' => a' = k'.put (indent ++ w) a)
          (renderStep e (renderLevels e n) t (indent ++ w) step out s)
          (renderStep e (renderLevels e n) t' indent step' (k.put (indent ++ w) out) s))
    (h : PutsAlike e n t t' w indent k' m steps steps') :
    PutsAlike e n t t' w indent k m (step :: steps) (step' :: steps') := by
  intro out s hs
  rw [renderSteps, renderSteps]
  refine endAs_bind (hstep hs) ?_
  rintro a _ s₁ hrun rfl
  exact h (hs.advance (.next hrun))

/-- **Behind an indent, steps put out what they put out with the indent in front of each line of
their source**, unless there are callables, which would see the bodies of sections. -/
theorem putsAlike_of_indents (hescape : t'.escape = t.escape)
    (hcallables : t'.strictCallables = t.strictCallables) {k m : Margin} {steps steps' : List Step}
    (h : Step.Indents w k steps steps' m) : PutsAlike e n t t' w indent k m steps steps' := by
  induction h with
  | nil =>
    intro out s hs
    rw [renderSteps, renderSteps]
    exact ⟨rfl, rfl⟩
  | margin h ih =>
    intro out s hs
    rw [renderSteps, renderStep, pure_bind, if_pos rfl, String.append_assoc]
    exact ih hs
  | @text k m steps steps' text h ih =>
    refine .cons (fun out s hs => ?_) ih
    rw [renderStep, renderStep]
    refine ⟨rfl, Eq.trans ?_ (Margin.put_after text (indent ++ w) _).symm⟩
    cases k <;> simp [Margin.put, Margin.first, Margin.second, Margin.piece, String.append_assoc]
  | @interpolation k m steps steps' hk name escape strict h ih =>
    refine .cons (fun out s hs => ?_) ih
    have hname : interpolate e (renderLevels e n) t' name strict =
        interpolate e (renderLevels e n) t name strict := by
      rw [interpolate, interpolate, hcallables]
    rw [renderStep, renderStep, hname]
    refine endAs_bind_same fun text s₁ _ => ⟨rfl, ?_⟩
    rw [hescape]
    cases k with
    | ahead => exact absurd rfl hk
    | written => simp [Margin.put, Margin.first, Margin.second]
    | behind => simp [Margin.put, Margin.first, Margin.second]
  | @sectionStep k k' m inner inner' steps steps' hk hk' name strict body body' d hinner h ihinner
      ih =>
    refine .cons (fun out s hs => ?_) ih
    simp only [Margin.put_of_ne hk, Margin.put_of_ne hk']
    rw [sectionStep_eq, sectionStep_eq]
    refine endAs_bind_same fun v s₁ hvalue => ?_
    split
    · exact (Value.callablesIn_callable_iff.mp (callablesIn_of_sectionValue hs hvalue)).elim
    · rename_i hplain
      have hruns : ∀ before scope after b s₂,
          sectionScopes t.strictCallables v = before ++ scope :: after →
          before.foldlM (fun out scope => inScope scope
            (renderSteps e (renderLevels e n) t (indent ++ w) inner out)) out s₁ = .ok b s₂ →
          inScope scope (renderSteps e (renderLevels e n) t (indent ++ w) inner b) s₂ =
            inScope scope (renderSteps e (renderLevels e n) t' indent inner' b) s₂ := by
        intro before scope after b s₂ hscopes hbefore
        have hbody := ihinner (hs.advance (.body hvalue hplain hscopes hbefore))
        rw [Margin.put_of_ne hk] at hbody
        simp only [Margin.put_of_ne hk'] at hbody
        exact eq_of_endAs (endAs_mono Eq.symm (endAs_between hbody))
      rw [hcallables, foldlM_congr_of_run hruns]
      exact endAs_mono Eq.symm (endAs_refl _)
  | @inverted k k' m inner inner' steps steps' hk hk' name hinner h ihinner ih =>
    refine .cons (fun out s hs => ?_) ih
    rw [inverted_eq, inverted_eq, Margin.put_of_ne hk]
    refine endAs_bind_same fun v s₁ hvalue => ?_
    cases htruthy : v.truthy with
    | true => exact ⟨rfl, (Margin.put_of_ne hk' (indent ++ w) out).symm⟩
    | false =>
      have hbody := ihinner (hs.advance (.inverted hvalue htruthy))
      rwa [Margin.put_of_ne hk] at hbody
  | @partialStep k m steps steps' hk name own h ih =>
    refine .cons (fun out s hs => ?_) ih
    rw [renderStep, renderStep, Margin.put_of_ne hk]
    simp only [innerIndent_append]
    refine endAs_mono ?_ (endAs_refl _)
    rintro a _ rfl
    exact (Margin.put_of_ne hk (indent ++ w) a).symm

end Render

end Mustache
