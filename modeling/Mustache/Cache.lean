import Mustache.Artifact
import Mustache.Error

/-!
Caches of parsed templates. A cache is five operations on a world `σ`; it may forget what it was
given, and it may fail.
-/

namespace Mustache

structure Cache (σ : Type) where
  get : String → EStateM Error σ (Option Artifact)
  set : String → Artifact → EStateM Error σ Unit
  remove : String → EStateM Error σ Unit
  clear : EStateM Error σ Unit
  has : String → σ → Bool

namespace Cache

/-- The cache that keeps nothing. -/
def none : Cache σ where
  get _ := pure .none
  set _ _ := pure ()
  remove _ := pure ()
  clear := pure ()
  has _ _ := false

end Cache

end Mustache
