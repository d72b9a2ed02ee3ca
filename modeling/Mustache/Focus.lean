/-!
A part of a larger state, to be read and replaced.
-/

namespace Mustache

structure Focus (σ α : Type) where
  get : σ → α
  set : α → σ → σ

namespace Focus

def modify (f : Focus σ α) (g : α → α) (s : σ) : σ := f.set (g (f.get s)) s

/-- What was set is what is read, setting what is there changes nothing, and the last setting
counts. -/
structure Lawful (f : Focus σ α) : Prop where
  get_set : ∀ a s, f.get (f.set a s) = a
  set_get : ∀ s, f.set (f.get s) s = s
  set_set : ∀ a b s, f.set a (f.set b s) = f.set a s

/-- Runs an operation of the part on the whole. -/
def run (f : Focus σ α) (op : EStateM ε α β) : EStateM ε σ β := fun s =>
  match op (f.get s) with
  | .ok b a => .ok b (f.set a s)
  | .error e a => .error e (f.set a s)

/-- An element of a list. Out of its range there is only the default, and nothing is kept. -/
def element [Inhabited α] (f : Focus σ (List α)) (i : Nat) : Focus σ α where
  get s := (f.get s)[i]?.getD default
  set a := f.modify fun l => l.set i a

end Focus

end Mustache
