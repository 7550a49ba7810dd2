/-!
# Timers

Work to be done once, at or after a time. What is due is taken out of the queue in one go, in the
order of the times and, at equal times, of scheduling.
-/

namespace LiveModules

structure Timer (α : Type) where
  /-- The place in the order of scheduling. -/
  seq : Nat
  module : String
  /-- In seconds. -/
  due : Float
  task : α

/-- A number whose order is that of the floats, where -0.0 comes before 0.0. -/
def floatRank (x : Float) : Int :=
  let bits := x.toBits.toNat
  if bits < Nat.pow 2 63 then bits else (Nat.pow 2 63 : Nat) - 1 - (bits : Int)

structure TimerQueue (α : Type) where
  pending : List (Timer α)
  nextSeq : Nat

namespace TimerQueue

variable {α : Type}

def empty : TimerQueue α := ⟨[], 0⟩

def schedule (q : TimerQueue α) (module : String) (due : Float) (task : α) : TimerQueue α :=
  ⟨q.pending ++ [⟨q.nextSeq, module, due, task⟩], q.nextSeq + 1⟩

/-- Whether `a` runs no later than `b`. -/
def runsBefore (a b : Timer α) : Bool :=
  floatRank a.due < floatRank b.due || (floatRank a.due == floatRank b.due && a.seq ≤ b.seq)

/-- The timers that are due, in the order in which they run. -/
def due (q : TimerQueue α) (now : Float) : List (Timer α) :=
  (q.pending.filter fun t => t.due ≤ now).mergeSort runsBefore

/-- The queue without the timers that are due. -/
def afterTaking (q : TimerQueue α) (now : Float) : TimerQueue α :=
  { q with pending := q.pending.filter fun t => !decide (t.due ≤ now) }

end TimerQueue

end LiveModules
