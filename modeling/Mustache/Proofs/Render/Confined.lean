import Mustache.Proofs.Render.Frames
import Mustache.Proofs.Render.Lockstep
import Mustache.Proofs.Render.Onto
import Mustache.Proofs.Render.Sharing

/-!
Steps that stay within their template: they come to no partial and no parent, and there is nothing
to call. Whatever a render comes to from them is a part of them, carried out with the same indent.
Main statement: `Place.Confined.reaches`.
-/

namespace Mustache

namespace Step

mutual

/-- The step leads into no other template, and its blocks are as `B` says. -/
def Confined (B : String → Option String → List Step → Prop) : Step → Prop
  | text .. | interpolation .. => True
  | sectionStep _ _ _ _ steps | inverted _ steps => AllConfined B steps
  | block name site steps => B name site steps ∧ AllConfined B steps
  | partialStep .. | parent .. => False

def AllConfined (B : String → Option String → List Step → Prop) : List Step → Prop
  | [] => True
  | step :: steps => Confined B step ∧ AllConfined B steps

end

end Step

namespace Render

variable {σ : Type} {e : Engine σ} {B : String → Option String → List Step → Prop} {t : Template}
  {indent : String} {p q : Place σ} {s : State σ}

/-- Steps of the template that stay within it, where no override is in force and nothing can be
called. -/
structure Place.Confined (B : String → Option String → List Step → Prop) (t : Template)
    (indent : String) (p : Place σ) : Prop where
  template : p.template = t
  indent : p.indent = indent
  strictCallables : t.strictCallables = true
  steps : Step.AllConfined B p.steps
  overrides : ∀ os ∈ p.state.overrides, os = []
  callables : ∀ v ∈ p.state.scopes, v.CallablesIn fun _ => False

theorem findOverride?_of_forall_nil {frames : List (List (Override Step))}
    (h : ∀ os ∈ frames, os = []) (name : String) : findOverride? frames name = none := by
  unfold findOverride?
  rw [List.findSome?_eq_none_iff]
  intro os hos
  rw [h os (List.mem_reverse.mp hos)]
  rfl

/-- Without callables, names stand for values without callables. -/
theorem sharing_refl (e : Engine σ) :
    Sharing e e (fun s s' => s' = s ∧ ∀ v ∈ s.scopes, v.CallablesIn fun _ => False)
      fun _ => False where
  delimiters := rfl
  host := rfl
  prompt := ⟨fun h => h.elim, fun h => h.elim⟩
  scopes h := by rw [h.1]
  callables h := h.2

theorem callablesIn_of_resolve {name : String} {strict : Bool} {s s' : State σ} {v : Value}
    (hs : ∀ v ∈ s.scopes, v.CallablesIn fun _ => False) (h : resolve name strict s = .ok v s') :
    v.CallablesIn fun _ => False := by
  unfold resolve at h
  rw [bind_of_ok _ (get_eq s)] at h
  cases hresolve : s.scopes.resolve name strict with
  | ok u =>
    rw [hresolve] at h
    cases h
    exact Value.family_callablesIn.of_resolve hs hresolve
  | error err =>
    rw [hresolve] at h
    cases h

theorem callablesIn_of_sectionValue {deeper : Renderer σ} {name : Name} {strict : Bool}
    {s s' : State σ} {v : Value} (hs : ∀ v ∈ s.scopes, v.CallablesIn fun _ => False)
    (h : sectionValue e deeper name strict s = .ok v s') : v.CallablesIn fun _ => False := by
  have halike := @Sharing.alike_sectionValue _ _ _ _ _ deeper deeper (sharing_refl e) name strict s
    s ⟨rfl, hs⟩
  rw [h] at halike
  exact halike.2.2

/-- No name stands for something with a callable in it. -/
def Place.Uncallable (p : Place σ) : Prop := ∀ v ∈ p.state.scopes, v.CallablesIn fun _ => False

theorem Place.Uncallable.samePlace (h : p.Uncallable) (hplace : SamePlace p.state s) :
    ∀ v ∈ s.scopes, v.CallablesIn fun _ => False :=
  hplace.scopes ▸ h

theorem Place.Uncallable.advance (h : p.Uncallable) (hadvance : Advance e p q) : q.Uncallable := by
  have hcompositional := compositional_restores e
  cases hadvance with
  | next hstep =>
    exact h.samePlace ((hcompositional.renderStep (restores_renderLevels e _) _ _ _ _).of_ok hstep)
  | called hresolve hcalled htext =>
    have hplace := (((hcompositional.resolve _ _).of_ok hresolve).trans
      ((hcompositional.called _ _).of_ok hcalled)).trans htext.samePlace
    exact (h.samePlace hplace :)
  | answered hvalue hcall htext =>
    exact (Value.callablesIn_callable_iff.mp (callablesIn_of_sectionValue h hvalue)).elim
  | @body n t indent _ _ _ _ inner _ out _ _ _ before _ _ _ _ hvalue _ hscopes hbefore =>
    have hrun := hcompositional.foldlM (fun out scope => hcompositional.inScope scope
      (hcompositional.renderSteps (restores_renderLevels e n) t indent inner out)) before out
    have hscope := of_mem_sectionScopes Value.family_callablesIn
      (callablesIn_of_sectionValue h hvalue)
      (hscopes ▸ List.mem_append_right before List.mem_cons_self)
    exact List.forall_mem_cons.mpr ⟨hscope, h.samePlace
      (((restores_sectionValue (restores_renderLevels e _) _ _).of_ok hvalue).trans
        (Restores.of_ok hrun hbefore))⟩
  | inverted hvalue _ =>
    exact h.samePlace ((restores_sectionValue (restores_renderLevels e _) _ _).of_ok hvalue)
  | partialStep hname hload _ =>
    have hplace := ((hcompositional.partialName _).of_ok hname).trans
      ((restores_onStore _).of_ok hload)
    exact (h.samePlace hplace :)
  | parent hload _ =>
    have hplace := (restores_onStore _).of_ok hload
    exact (h.samePlace hplace :)
  | block _ => exact h
  | override _ _ _ => exact h
  | moved _ _ _ => exact h

theorem Place.Uncallable.visits (h : p.Uncallable) (hvisits : Visits e p q) : q.Uncallable := by
  cases hvisits with
  | advance hadvance => exact h.advance hadvance
  | asked hcalls hasks htext =>
    have hplace := (hcalls.samePlace.trans hasks.samePlace).trans htext.samePlace
    exact (h.samePlace hplace :)

theorem Place.Confined.advance (h : p.Confined B t indent) (hadvance : Advance e p q) :
    q.Confined B t indent := by
  obtain ⟨htemplate, hindent, hstrict, hsteps, hoverrides, hcallables⟩ := h
  have hq : q.Uncallable := Place.Uncallable.advance hcallables hadvance
  have hframes : ∀ os ∈ q.state.overrides, os = [] := by
    rcases overrides_of_advance hadvance with hsame | ⟨overrides, hexpands, -⟩
    · rwa [hsame]
    · cases hexpands
      exact hsteps.1.elim
  cases hadvance with
  | next _ => exact ⟨htemplate, hindent, hstrict, hsteps.2, hframes, hq⟩
  | @called _ _ _ _ _ _ _ _ _ _ v _ _ _ _ _ hresolve hcalled htext =>
    subst htemplate
    have hv := callablesIn_of_resolve hcallables hresolve
    rw [show Template.strictCallables _ = true from hstrict] at hcalled
    unfold Render.called at hcalled
    split at hcalled
    · exact (Value.callablesIn_callable_iff.mp hv).elim
    · cases hcalled
    · cases hcalled
  | answered hvalue _ _ =>
    exact (Value.callablesIn_callable_iff.mp (callablesIn_of_sectionValue hcallables hvalue)).elim
  | body _ _ _ _ => exact ⟨htemplate, hindent, hstrict, hsteps.1, hframes, hq⟩
  | inverted _ _ => exact ⟨htemplate, hindent, hstrict, hsteps.1, hframes, hq⟩
  | partialStep _ _ _ => exact hsteps.1.elim
  | parent _ _ => exact hsteps.1.elim
  | block _ => exact ⟨htemplate, hindent, hstrict, hsteps.1.2, hframes, hq⟩
  | override hfound _ _ => cases (findOverride?_of_forall_nil hoverrides _).symm.trans hfound
  | moved hfound _ _ => cases (findOverride?_of_forall_nil hoverrides _).symm.trans hfound

/-- **From steps that stay within their template, a render comes to parts of them alone.** -/
theorem Place.Confined.reaches (h : p.Confined B t indent)
    (hreaches : Relation.ReflTransGen (Advance e) p q) : q.Confined B t indent := by
  induction hreaches with
  | refl => exact h
  | tail _ hadvance ih => exact ih.advance hadvance

/-- Nothing is moved where no override is in force. -/
theorem Place.Confined.calm (h : p.Confined B t indent) : p.Calm e := by
  intro q hreaches hblanks
  cases hblanks with
  | intro hfound _ _ _ =>
    cases (findOverride?_of_forall_nil (h.reaches hreaches).overrides _).symm.trans hfound

end Render

end Mustache
