import Reckoner.Id
import Reckoner.Instant.Basic

/-!
# Stamps

What a new record receives from outside: a fresh identifier and the time of its creation.
-/

namespace Reckoner

structure Stamp where
  uuid : Uuid
  time : Instant
deriving DecidableEq, Repr

end Reckoner
