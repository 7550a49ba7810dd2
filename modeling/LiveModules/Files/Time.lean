/-!
# Times of modification
-/

namespace LiveModules

/-- Seconds and nanoseconds since the epoch. -/
structure FileTime where
  secs : Nat
  nanos : Nat
  deriving DecidableEq, Repr

end LiveModules
