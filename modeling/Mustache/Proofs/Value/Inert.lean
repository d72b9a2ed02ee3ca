import Mustache.Proofs.Value.Family

/-!
Values without callables. A name leads from such a value to such a value only, so nothing that
tags can find in inert scopes is ever called.
-/

namespace Mustache

/-- A callable is in the value, or can be reached from it by names. What a host object gives when
it is called does not count. -/
inductive Value.HasCallable : Value → Prop
  | callable (c : Callable) : HasCallable (.callable c)
  | item {items : List Value} {v : Value} (hmem : v ∈ items) (h : HasCallable v) :
      HasCallable (.list items)
  | entry {entries : List (String × Value)} {name : String} {v : Value}
      (hmem : (name, v) ∈ entries) (h : HasCallable v) : HasCallable (.map entries)
  | method {id : Nat} {method field key : String → Option Value} {result : Option Value}
      {truthy : Bool} {name : String} {v : Value} (hname : method name = some v)
      (h : HasCallable v) : HasCallable (.object id method field key result truthy)
  | field {id : Nat} {method field key : String → Option Value} {result : Option Value}
      {truthy : Bool} {name : String} {v : Value} (hname : field name = some v)
      (h : HasCallable v) : HasCallable (.object id method field key result truthy)
  | key {id : Nat} {method field key : String → Option Value} {result : Option Value}
      {truthy : Bool} {name : String} {v : Value} (hname : key name = some v)
      (h : HasCallable v) : HasCallable (.object id method field key result truthy)

namespace Value

/-- A name leads to a callable only from a value that has one. -/
theorem HasCallable.of_get? {v u : Value} {name : String} (hget : v.get? name = some u)
    (hu : u.HasCallable) : v.HasCallable := by
  cases v with
  | map entries =>
    obtain ⟨before, rest, rfl, -⟩ := List.lookup_eq_some_iff.mp hget
    exact .entry (List.mem_append_right before List.mem_cons_self) hu
  | list items =>
    obtain ⟨i, -, hi⟩ := Option.bind_eq_some_iff.mp hget
    exact .item (List.mem_of_getElem? hi) hu
  | object id method field key result truthy =>
    rcases Option.or_eq_some_iff.mp hget with hmethod | ⟨-, hrest⟩
    · exact .method hmethod hu
    · rcases Option.or_eq_some_iff.mp hrest with hfield | ⟨-, hkey⟩
      · exact .field hfield hu
      · exact .key hkey hu
  | null => cases hget
  | bool b => cases hget
  | int i => cases hget
  | float x => cases hget
  | string s => cases hget
  | callable c => cases hget

theorem hereditary_inert : Value.Hereditary fun v => ¬ v.HasCallable where
  null := fun h => nomatch h
  get? := fun hv hget hu => hv (.of_get? hget hu)

end Value

namespace Scopes

/-- No scope has a callable. -/
def Inert (scopes : Scopes) : Prop := ∀ v ∈ scopes, ¬ v.HasCallable

theorem Inert.cons {scopes : Scopes} {v : Value} (hv : ¬ v.HasCallable) (h : scopes.Inert) :
    Inert (v :: scopes) := by
  intro u hu
  rcases List.mem_cons.mp hu with rfl | hu
  · exact hv
  · exact h u hu

variable {scopes : Scopes} (hinert : scopes.Inert)

include hinert

theorem Inert.tail : Inert scopes.tail := fun v hv => hinert v (List.mem_of_mem_tail hv)

/-- What a tag's name stands for has no callable if the scopes have none. -/
theorem Inert.resolve {name : String} {strict : Bool} {v : Value}
    (h : scopes.resolve name strict = .ok v) : ¬ v.HasCallable :=
  Value.hereditary_inert.of_resolve hinert h

end Scopes

end Mustache
