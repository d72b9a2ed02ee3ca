import Mustache.Proofs.Engine.Strict
import Mustache.Proofs.Render.Change
import Mustache.Proofs.Render.Confined
import Mustache.Proofs.Render.Switched
import Mustache.Proofs.Template.SelfClosing

/-!
Templates that differ in nothing but the bodies, as texts, of the sections around a place. Only a
callable ever sees such a body, so they render to the same, as long as none of these sections is
over a callable. Main statement: `renderTemplate_rebodied`.
-/

namespace Mustache

namespace Render

variable {σ α : Type} {e : Engine σ} {p q : Place σ} {s : State σ}

/-! ### Sections that are not over a callable -/

/-- The section at this place is not over a callable if its body is `around` the spot. -/
def Place.Spares (e : Engine σ) (around : String → Prop) (q : Place σ) : Prop :=
  ∀ name strict text d inner rest, q.steps = .sectionStep name strict text d inner :: rest →
    around text →
      ∀ c s', sectionValue e (renderLevels e q.levels) name strict q.state ≠ .ok (.callable c) s'

/-- Where there is nothing to call, no section is over a callable. -/
theorem Place.Uncallable.spares (h : p.Uncallable) (around : String → Prop) :
    Place.Always e (Place.Spares e around) p := by
  intro q hreaches
  have hq : q.Uncallable := by
    induction hreaches with
    | refl => exact h
    | tail _ hvisits ih => exact ih.visits hvisits
  intro name strict text d inner rest _ _ c s' hvalue
  exact Value.callablesIn_callable_iff.mp (callablesIn_of_sectionValue hq hvalue)

/-! ### The same store -/

theorem alike_eq {τ : Type} {A : α → α → Prop} (hA : ∀ a, A a a) (act : EStateM Error τ α) :
    Alike Eq Eq A act act := by
  rintro s _ rfl
  cases act s with
  | ok a r => exact ⟨rfl, hA a⟩
  | error err r => exact ⟨rfl, rfl⟩

theorem act_alike_eq (act : Act σ) (s : Engine.Store σ) : Act.Alike Eq Eq s s act act := by
  induction act generalizing s with
  | done r w => exact .done (agree_refl (fun _ => rfl) r) rfl
  | render text w next ih =>
    refine .render rfl fun out out' t t' hout ht => ?_
    obtain rfl := agree_eq_iff.mp hout
    obtain rfl := ht
    exact ih out t.world t

/-- From the same store the engine goes on to the same. -/
theorem going_eq (e : Engine σ) (ch : Step.Change) : Going e ch Eq LooksLike where
  escape h := h.escape_eq.symm
  strictCallables h := h.strictCallables_eq.symm
  name h := .inr h.name_eq.symm
  partials := by
    rintro s _ rfl name
    rfl
  compiles _ _ := alike_eq (fun _ => ⟨⟨rfl, rfl, rfl⟩, rfl⟩) _
  compilesUncached _ _ := alike_eq (fun _ => ⟨⟨rfl, rfl, rfl⟩, rfl⟩) _
  nullary := by
    rintro s _ rfl id
    exact ⟨agree_refl (fun _ => rfl) _, rfl⟩
  unary := by
    rintro s _ rfl id v d
    exact act_alike_eq _ s

/-- **Bodies that no callable sees do not matter.** -/
theorem renderTemplate_rebodied {around : String → Prop} {t t' : Template} (hlooks : LooksLike t t')
    (hsteps : Step.Matches (Step.rebodied around) t.steps t'.steps) {data : Value}
    {s : Engine.Store σ}
    (hspares : Place.Always e (Place.Spares e around) (e.startPlace t data s)) :
    e.renderTemplate t' data s = e.renderTemplate t data s := by
  have halike : ChangeAlike e Eq (Step.rebodied around) LooksLike (Place.Spares e around)
      e.config.maxDepth :=
    changeAlike (fun q hq => ⟨False.elim, hq, fun _ _ _ _ _ hopens => False.elim hopens⟩)
      (fun _ _ _ hhere => False.elim hhere) (going_eq e _) _
  have hend := halike.renderTemplate hlooks hsteps rfl rfl hspares
  cases hrun : e.renderTemplate t data s <;> cases hrun' : e.renderTemplate t' data s <;>
    rw [hrun, hrun'] at hend
  · rw [hend.1, hend.2]
  · exact hend.elim
  · exact hend.elim
  · rw [hend.1, hend.2]

end Render

end Mustache
