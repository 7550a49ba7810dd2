/-!
# Watchdogs

A watchdog gives every guarded call a budget. Guards nest: an inner guard never extends the deadline
that an outer one has set, and when it is dropped the outer deadline stands again. Times are counts
of steps.
-/

namespace LiveModules.Script

structure Watchdog where
  /-- The budget of a guarded call; without one no deadline is ever set. -/
  budget : Option Nat
  deadline : Option Nat

namespace Watchdog

/-- A watchdog that guards nothing yet. -/
def ofBudget (budget : Option Nat) : Watchdog := ⟨budget, none⟩

/-- What a guard keeps: the deadline that stood when it was made. -/
structure Guard where
  previous : Option Nat

/-- The deadline of a guard that is made at `now`. -/
def tighter (previous : Option Nat) (ours : Nat) : Nat :=
  match previous with
  | none => ours
  | some outer => min outer ours

/-- Makes a guard at time `now`. -/
def guard (w : Watchdog) (now : Nat) : Watchdog × Guard :=
  match w.budget with
  | none => (w, ⟨w.deadline⟩)
  | some budget => ({ w with deadline := some (tighter w.deadline (now + budget)) }, ⟨w.deadline⟩)

/-- Drops a guard. -/
def drop (w : Watchdog) (g : Guard) : Watchdog := { w with deadline := g.previous }

end Watchdog

end LiveModules.Script
