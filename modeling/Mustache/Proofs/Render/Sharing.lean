import Mustache.Proofs.Render.Parallel
import Mustache.Proofs.Render.Places
import Mustache.Proofs.Value.Family

/-!
Names and calls in two renders that share their scopes. What a name stands for, and what callables
make of it that answer at once, is the same in both. Main statement: `Sharing.alike_sectionValue`.
-/

namespace Mustache

variable {σ : Type}

/-- The callables among `P` answer at once, without looking at the world or asking for texts, and
give values whose callables are among `P` again. -/
structure Host.Prompt (host : Host σ) (P : Callable → Prop) : Prop where
  nullary : ∀ {id}, P ⟨id, .nullary⟩ → ∃ r, (∀ w, host.nullary id w = (r, w)) ∧
    ∀ v, r = .ok v → v.CallablesIn P
  unary : ∀ {id}, P ⟨id, .unary⟩ → ∀ {v : Value}, v.CallablesIn P → ∀ d,
    ∃ r, (∀ w, host.unary id v d w = .done r w) ∧ ∀ u, r = .ok u → u.CallablesIn P

namespace Render

/-- The same value, all callables in it among `P`. -/
def SameAmong (P : Callable → Prop) (v v' : Value) : Prop := v = v' ∧ v.CallablesIn P

/-- What two renders need to have in common for names to stand for the same in both, from states
related by `R`, with all callables in reach among `P`. -/
structure Sharing (e e' : Engine σ) (R : State σ → State σ → Prop) (P : Callable → Prop) :
    Prop where
  delimiters : e'.delimiters = e.delimiters
  host : e'.host = e.host
  prompt : e.host.Prompt P
  scopes : ∀ {s s' : State σ}, R s s' → s'.scopes = s.scopes
  callables : ∀ {s s' : State σ}, R s s' → ∀ v ∈ s.scopes, v.CallablesIn P

namespace Sharing

variable {e e' : Engine σ} {R : State σ → State σ → Prop} {P : Callable → Prop}
  {deeper deeper' : Renderer σ}

/-- An answer that was there before the call. -/
theorem alike_answer {r : Except Error Value} (hr : ∀ v, r = .ok v → v.CallablesIn P) :
    Alike (R) Eq (SameAmong P) (callWorld fun w => (r, w))
      (callWorld fun w => (r, w)) := by
  intro s s' hs
  unfold callWorld
  cases r with
  | ok v => exact ⟨hs, rfl, hr v rfl⟩
  | error err => exact ⟨hs, rfl⟩

variable (h : Sharing e e' R P)

include h

theorem alike_resolve (name : String) (strict : Bool) :
    Alike (R) Eq (SameAmong P) (resolve name strict) (resolve name strict) := by
  unfold Render.resolve
  refine alike_get.bind fun s s' hs => ?_
  rw [h.scopes hs]
  split
  · rename_i v hv
    exact alike_pure ⟨rfl, Value.family_callablesIn.of_resolve (h.callables hs) hv⟩
  · exact alike_throw rfl

theorem alike_partialName (name : PartialName) :
    Alike (R) Eq Eq (partialName name) (partialName name) := by
  cases name with
  | fixed name => exact alike_pure rfl
  | dynamic path =>
    refine (h.alike_resolve path false).bind ?_
    rintro v _ ⟨rfl, -⟩
    exact alike_pure rfl

theorem callNullary {id : Nat} (hcallable : P ⟨id, .nullary⟩) :
    Alike (R) Eq (SameAmong P) (callNullary e id) (callNullary e' id) := by
  obtain ⟨r, hanswer, hr⟩ := h.prompt.nullary hcallable
  rw [callNullary_eq, callNullary_eq, h.host, funext hanswer]
  exact alike_answer hr

theorem callUnary {id : Nat} {v : Value} (hcallable : P ⟨id, .unary⟩) (hv : v.CallablesIn P)
    (d : Delimiters) :
    Alike (R) Eq (SameAmong P) (callUnary e deeper id v d)
      (callUnary e' deeper' id v d) := by
  obtain ⟨r, hanswer, hr⟩ := h.prompt.unary hcallable hv d
  have hcall : ∀ (e : Engine σ) (deeper : Renderer σ),
      (∀ w, e.host.unary id v d w = .done r w) →
      Render.callUnary e deeper id v d = callWorld fun w => (r, w) := by
    intro e deeper hdone
    funext s
    unfold Render.callUnary
    rw [bind_of_ok _ (get_eq s), hdone, runAct_done]
    rfl
  rw [hcall e deeper hanswer, hcall e' deeper' (h.host ▸ hanswer)]
  exact alike_answer hr

theorem applyFilters (filters : List String) {v : Value} (hv : v.CallablesIn P) :
    Alike (R) Eq (SameAmong P) (applyFilters e deeper filters v)
      (applyFilters e' deeper' filters v) := by
  unfold Render.applyFilters
  induction filters generalizing v with
  | nil => exact alike_pure ⟨rfl, hv⟩
  | cons name filters ih =>
    have hfilter : Alike (R) Eq (SameAmong P) (applyFilter e deeper v name)
        (applyFilter e' deeper' v name) := by
      unfold applyFilter
      refine (h.alike_resolve name false).bind ?_
      rintro f _ ⟨rfl, hf⟩
      rw [h.delimiters]
      split
      · exact h.callUnary (Value.callablesIn_callable_iff.mp hf) hv _
      · exact h.callNullary (Value.callablesIn_callable_iff.mp hf)
      · exact alike_throw rfl
    rw [List.foldlM_cons, List.foldlM_cons]
    refine hfilter.bind ?_
    rintro u _ ⟨rfl, hu⟩
    exact ih hu

theorem called (strictCallables : Bool) {v : Value} (hv : v.CallablesIn P) :
    Alike (R) Eq Eq (called e strictCallables v) (called e' strictCallables v) := by
  unfold Render.called
  split
  · refine (h.callNullary (Value.callablesIn_callable_iff.mp hv)).map ?_
    rintro u _ ⟨rfl, -⟩
    rfl
  · exact alike_pure rfl
  · exact alike_pure rfl

theorem callSection (body : String) (delimiters : Delimiters) {c : Callable} (hc : P c) :
    Alike (R) Eq (SameAmong P) (callSection e deeper body delimiters c)
      (callSection e' deeper' body delimiters c) := by
  obtain ⟨id, _ | _⟩ := c
  · exact h.callNullary hc
  · exact h.callUnary hc (.string body) delimiters

theorem alike_sectionValue (name : Name) (strict : Bool) :
    Alike (R) Eq (SameAmong P) (sectionValue e deeper name strict)
      (sectionValue e' deeper' name strict) := by
  refine (h.alike_resolve name.path strict).bind ?_
  rintro v _ ⟨rfl, hv⟩
  exact h.applyFilters name.filters hv

end Sharing

end Render

end Mustache
