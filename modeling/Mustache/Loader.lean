import Mustache.Error
import Mustache.Table

/-!
Loaders: where the source of a template comes from. A loader that does not know a name says so
with an error of its own kind, so that others can be asked.
-/

namespace Mustache

/-- Gives the source of a name, in a world `σ`. -/
abbrev Loader (σ : Type) := σ → String → Except Error String

namespace Loader

/-- Every name is its own source. -/
def verbatim : Loader σ := fun _ name => .ok name

/-- The entry of a table. -/
def entry (sources : Table String) (name : String) : Except Error String :=
  match sources.find? name with
  | some source => .ok source
  | none => .error (.unknownTemplate name)

/-- Sources that stay as they are. -/
def table (sources : Table String) : Loader σ := fun _ name => entry sources name

/-- Sources that are part of the world. -/
def shelf (sources : σ → Table String) : Loader σ := fun w name => entry (sources w) name

/-- Asks one loader after the other until one knows the name. A failure of another kind ends the
search. -/
def cascade : List (Loader σ) → Loader σ
  | [], _, name => .error (.unknownTemplate name)
  | l :: ls, w, name =>
    match l w name with
    | .error e => if e.isUnknownTemplate then cascade ls w name else .error e
    | .ok source => .ok source

end Loader

end Mustache
