import LiveModules.Script.Value

/-!
# Counters

The values that a numeric loop runs through. A loop over integers is counted beforehand, so that it
never wraps; one with a float among its first value and its step adds floats.
-/

namespace LiveModules.Script

inductive Counter where
  /-- `left` values come after the current one. -/
  | ints (current step : Int64) (left : Nat)
  | floats (current limit step : Float)

/-- Why a loop cannot be counted. -/
inductive CounterFault where
  /-- What is no number, and what it is. -/
  | notNumber (role : String) (v : Value)
  | zeroStep

namespace Counter

def current : Counter → Value
  | ints i _ _ => .int i
  | floats x _ _ => .float x

/-- Whether a float is still within the limit. -/
def within (x limit step : Float) : Bool := if 0 < step then x ≤ limit else limit ≤ x

/-- The counter at its next value, if there is one. -/
def next? : Counter → Option Counter
  | ints i step (left + 1) => some (.ints (i + step) step left)
  | ints _ _ 0 => none
  | floats x limit step =>
    let y := x + step
    if within y limit step then some (.floats y limit step) else none

/-- The last integer within a limit that may be a float. -/
def clip (limit : Num) (step : Int64) : Option Int :=
  match limit with
  | .int i => some i.toInt
  | .float x =>
    if x.isNaN then none
    else match Num.ofFloatExact? (if 0 < step then x.floor else x.ceil) with
      | some i => some i.toInt
      | none => some (if 0 < x then Int64.maxValue.toInt else Int64.minValue.toInt)

def startInts (first step : Int64) (limit : Num) : Option Counter :=
  match clip limit step with
  | none => none
  | some last =>
    let span := if 0 < step then last - first.toInt else first.toInt - last
    if span < 0 then none
    else some (.ints first step (span.toNat / step.toInt.natAbs))

/-- The counter at its first value, if there is one. -/
def start (first last step : Value) : Except CounterFault (Option Counter) := do
  let number (role : String) (v : Value) : Except CounterFault Num :=
    match v.toNum? with
    | some n => .ok n
    | none => .error (.notNumber role v)
  match first, step with
  | .num (.int i), .num (.int k) =>
    if k = 0 then throw .zeroStep
    return startInts i k (← number "limit" last)
  | _, _ =>
    let limit := (← number "limit" last).toFloat
    let k := (← number "step" step).toFloat
    let x := (← number "initial value" first).toFloat
    if k == 0 then throw .zeroStep
    return if within x limit k then some (.floats x limit k) else none

end Counter

end LiveModules.Script
