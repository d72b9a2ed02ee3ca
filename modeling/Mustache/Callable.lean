import Mustache.Delimiters
import Mustache.Error
import Mustache.Value

/-!
What callables do. A callable of no arguments gives a value or fails. One with an argument may
also ask, any number of times, for text to be rendered in the scope it was called from, and goes
on with what came of it, a failure included. Both may look at and change the world `σ` around
the engine.
-/

namespace Mustache

/-- The course of a call with an argument. -/
inductive Act (σ : Type)
  | done (result : Except Error Value) (world : σ)
  /-- Text to be rendered, and how the call goes on with the outcome. -/
  | render (text : String) (world : σ) (next : Except Error String → σ → Act σ)

/-- The callables of a world, by number. A call with an argument is also told the delimiters in
force at its tag. -/
structure Host (σ : Type) where
  nullary : Nat → σ → Except Error Value × σ
  unary : Nat → Value → Delimiters → σ → Act σ

end Mustache
