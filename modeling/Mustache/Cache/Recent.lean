import Mustache.Cache
import Mustache.Focus

/-!
The cache in memory: the artifacts used last, at most so many. Getting and setting are uses;
asking whether a key is there is not.
-/

namespace Mustache

/-- The artifacts used last, the latest first. -/
structure Recent where
  capacity : Nat
  entries : List (String × Artifact)

namespace Recent

/-- Room for at least one artifact. -/
def ofCapacity (capacity : Nat) : Recent := ⟨max capacity 1, []⟩

instance : Inhabited Recent := ⟨ofCapacity 1⟩

def find? (r : Recent) (key : String) : Option Artifact := r.entries.lookup key

def has (r : Recent) (key : String) : Bool := (r.find? key).isSome

def erase (r : Recent) (key : String) : Recent :=
  { r with entries := r.entries.filter fun e => e.1 != key }

/-- Makes an artifact the latest. When that is one too many the one used longest ago goes. -/
def insert (r : Recent) (key : String) (a : Artifact) : Recent :=
  { r with entries := ((key, a) :: (r.erase key).entries).take r.capacity }

/-- Makes an artifact that is there the latest. -/
def touch (r : Recent) (key : String) : Recent :=
  match r.find? key with
  | some a => r.insert key a
  | none => r

def clear (r : Recent) : Recent := { r with entries := [] }

def size (r : Recent) : Nat := r.entries.length

end Recent

/-- The cache that keeps the artifacts used last in a part of the world. -/
def Cache.recent (f : Focus σ Recent) : Cache σ where
  get key w := .ok ((f.get w).find? key) (f.modify (·.touch key) w)
  set key a w := .ok () (f.modify (·.insert key a) w)
  remove key w := .ok () (f.modify (·.erase key) w)
  clear w := .ok () (f.modify Recent.clear w)
  has key w := (f.get w).has key

end Mustache
