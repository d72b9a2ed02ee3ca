import Mustache.Scopes

/-!
Families of values that a render does not lead out of: what a name, a section or a call of a host
object takes from a value of the family is in it too. The values whose callables are among given
ones are a family.
-/

namespace Mustache

/-- A property of values that names pass on, and that the empty value has. -/
structure Value.Hereditary (Q : Value → Prop) : Prop where
  null : Q .null
  get? : ∀ {v u : Value} {name : String}, Q v → v.get? name = some u → Q u

/-! ### Names -/

namespace Value.Hereditary

variable {Q : Value → Prop} (hQ : Value.Hereditary Q)

include hQ

theorem of_path {path : List String} {v u : Value} (hv : Q v)
    (h : path.foldlM (fun v s => v.get? s) v = some u) : Q u := by
  induction path generalizing v with
  | nil =>
    rw [List.foldlM_nil] at h
    rwa [← Option.some.inj h]
  | cons s path ih =>
    rw [List.foldlM_cons] at h
    obtain ⟨w, hw, hrest⟩ := Option.bind_eq_some_iff.mp h
    exact ih (hQ.get? hv hw) hrest

theorem of_find? {scopes : Scopes} {name : String} {v : Value} (hs : ∀ u ∈ scopes, Q u)
    (h : scopes.find? name = some v) : Q v := by
  obtain ⟨u, hu, hget⟩ := List.exists_of_findSome?_eq_some h
  exact hQ.get? (hs u hu) hget

theorem of_lookup? {scopes : Scopes} {name : String} {v : Value} (hs : ∀ u ∈ scopes, Q u)
    (h : scopes.lookup? name = some v) : Q v := by
  unfold Scopes.lookup? at h
  split at h
  · rw [← Option.some.inj h]
    cases scopes with
    | nil => exact hQ.null
    | cons u scopes => exact hs u List.mem_cons_self
  · split at h
    · unfold Scopes.findPath? at h
      split at h
      · cases h
      · obtain ⟨u, hu, hpath⟩ := Option.bind_eq_some_iff.mp h
        exact hQ.of_path (hQ.of_find? hs hu) hpath
    · exact hQ.of_find? hs h

/-- What a tag's name stands for in scopes with `Q` has `Q`. -/
theorem of_resolve {scopes : Scopes} {name : String} {strict : Bool} {v : Value}
    (hs : ∀ u ∈ scopes, Q u) (h : scopes.resolve name strict = .ok v) : Q v := by
  unfold Scopes.resolve at h
  split at h
  · rename_i hlookup
    rw [← Except.ok.inj h]
    exact hQ.of_lookup? hs hlookup
  · split at h
    · cases h
    · rw [← Except.ok.inj h]
      exact hQ.null

end Value.Hereditary

/-! ### Families -/

/-- A family of values: besides what names lead to it has all strings, the items of its lists and
what its host objects give when they are called. -/
structure Value.Family (Q : Value → Prop) : Prop extends Value.Hereditary Q where
  string : ∀ s, Q (.string s)
  item : ∀ {items : List Value} {v : Value}, Q (.list items) → v ∈ items → Q v
  result : ∀ {id : Nat} {method field key : String → Option Value} {v : Value} {truthy : Bool},
    Q (.object id method field key (some v) truthy) → Q v

/-- All values are a family. -/
theorem Value.family_all : Value.Family fun _ => True :=
  ⟨⟨trivial, fun _ _ => trivial⟩, fun _ => trivial, fun _ _ => trivial, fun _ => trivial⟩

/-! ### Values by their callables -/

/-- Every callable that can be reached from the value, by names or by calling host objects, is
among `P`. With no callables in `P`, the value is free of callables. -/
inductive Value.CallablesIn (P : Callable → Prop) : Value → Prop
  | null : CallablesIn P .null
  | bool (b : Bool) : CallablesIn P (.bool b)
  | int (i : Int) : CallablesIn P (.int i)
  | float (x : Float) : CallablesIn P (.float x)
  | string (s : String) : CallablesIn P (.string s)
  | list {items : List Value} (h : ∀ v ∈ items, CallablesIn P v) : CallablesIn P (.list items)
  | map {entries : List (String × Value)} (h : ∀ entry ∈ entries, CallablesIn P entry.2) :
      CallablesIn P (.map entries)
  | callable {c : Callable} (h : P c) : CallablesIn P (.callable c)
  | object {id : Nat} {method field key : String → Option Value} {result : Option Value}
      {truthy : Bool} (hmethod : ∀ name v, method name = some v → CallablesIn P v)
      (hfield : ∀ name v, field name = some v → CallablesIn P v)
      (hkey : ∀ name v, key name = some v → CallablesIn P v)
      (hresult : ∀ v, result = some v → CallablesIn P v) :
      CallablesIn P (.object id method field key result truthy)

namespace Value

variable {P : Callable → Prop}

theorem CallablesIn.get? {v u : Value} {name : String} (hv : v.CallablesIn P)
    (h : v.get? name = some u) : u.CallablesIn P := by
  cases hv with
  | list hitems =>
    obtain ⟨i, -, hi⟩ := Option.bind_eq_some_iff.mp h
    exact hitems u (List.mem_of_getElem? hi)
  | map hentries =>
    obtain ⟨before, after, rfl, -⟩ := List.lookup_eq_some_iff.mp h
    exact hentries (name, u) (List.mem_append_right before List.mem_cons_self)
  | object hmethod hfield hkey _ =>
    rcases Option.or_eq_some_iff.mp h with hfound | ⟨-, hrest⟩
    · exact hmethod name u hfound
    · rcases Option.or_eq_some_iff.mp hrest with hfound | ⟨-, hfound⟩
      · exact hfield name u hfound
      · exact hkey name u hfound
  | null => cases h
  | bool b => cases h
  | int i => cases h
  | float x => cases h
  | string s => cases h
  | callable hc => cases h

theorem family_callablesIn : Value.Family (Value.CallablesIn P) where
  null := .null
  string := .string
  get? := CallablesIn.get?
  item := by
    intro items v hitems hv
    cases hitems with
    | list h => exact h v hv
  result := by
    intro id method field key v truthy hobject
    cases hobject with
    | object _ _ _ hresult => exact hresult v rfl

theorem callablesIn_callable_iff {c : Callable} : (Value.callable c).CallablesIn P ↔ P c := by
  refine ⟨fun h => ?_, .callable⟩
  cases h with
  | callable h => exact h

end Value

end Mustache
