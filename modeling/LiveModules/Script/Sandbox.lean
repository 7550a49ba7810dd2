import LiveModules.Script.Machine.Step
import LiveModules.Script.Watchdog

/-!
# Sandboxes

A sandbox is a heap of its own with a watchdog. It runs texts and functions to their ends; a run
that passes its deadline is interrupted, and again every so often if it goes on after that.
-/

namespace LiveModules.Script

structure Sandbox where
  heap : Heap
  watchdog : Watchdog
  /-- The budget in milliseconds, which messages name. -/
  budgetMs : Option Nat

/-- How a run in a sandbox ends: with its values, or with the text of a failure. -/
structure Ending where
  result : Except String (List Value)
  requests : List (Request Value)
  heap : Heap

namespace Sandbox

/-- How many steps are taken for a millisecond. -/
def stepsPerMs : Nat := 100000

/-- How many steps lie between two looks at the deadline once it has passed. -/
def lookEvery : Nat := 1000

/-- More steps than any run takes. -/
def stepLimit : Nat := Nat.pow 2 50

/-- A sandbox in which nothing ran; its calls have a budget if one is given. -/
def ofBudget (budgetMs : Option Nat) (heap : Heap) : Sandbox :=
  ⟨heap, .ofBudget (budgetMs.map (· * stepsPerMs)), budgetMs⟩

def overrun (budgetMs : Nat) : String :=
  Capability.failed ("script exceeded its " ++ toString budgetMs ++ "ms budget")

def ending (m : Machine) (result : Except Value (List Value)) : Ending :=
  ⟨result.mapError m.heap.describe, m.requests.toList, m.heap⟩

/-- Takes steps to the end of a run, which is interrupted when `left` steps are taken; fuel bounds
their number. -/
def finish (interruption : String) : Nat → Nat → Machine → Ending
  | 0, _, m => ending m (.error (.failure interruption))
  | fuel + 1, left, m =>
    match m.outcome?, left with
    | some result, _ => ending m result
    | none, 0 => finish interruption fuel lookEvery (m.go (.raise (.failure interruption)))
    | none, left + 1 => finish interruption fuel left m.step

/-- Calls a function under a guard that stands already, if any does. -/
def callUnguarded (s : Sandbox) (f : Value) (args : List Value) : Ending :=
  finish (overrun (s.budgetMs.getD 0)) stepLimit (s.watchdog.deadline.getD stepLimit)
    (.start s.heap f args)

/-- Calls a function under a guard of its own. -/
def call (s : Sandbox) (f : Value) (args : List Value) : Ending × Sandbox :=
  let (watchdog, g) := s.watchdog.guard 0
  let e := { s with watchdog }.callUnguarded f args
  (e, { s with heap := e.heap, watchdog := watchdog.drop g })

/-- The function that a text is, `chunk` being its name in messages. -/
def compile (s : Sandbox) (chunk : String) (source : ByteArray) : Except String (Value × Heap) :=
  let shown := Machine.chunkShown ('@' :: chunk.toList |> String.ofList).toUTF8
  match Body.ofText shown false (charsOf source) with
  | .ok body => .ok (s.heap.newClosure ⟨body, []⟩)
  | .error f =>
    .error ("syntax error: " ++ Text.ofUtf8Lossy (bytesOf (Machine.syntaxMessage shown f)))

/-- The first value of an expression or of a text as JSON, under a guard that stands already, if any
does. -/
def evaluate (s : Sandbox) (chunk source : String) : Except String Json := do
  let (f, heap) ← match s.compile chunk ("return " ++ source).toUTF8 with
    | .ok r => pure r
    | .error _ => s.compile chunk source.toUTF8
  let e := { s with heap }.callUnguarded f []
  Exchange.toJson true e.heap ((← e.result).headD .nil)

/-! ## The engine -/

/-- What the host sees of a run. -/
def seen (e : Ending) (s : Sandbox) : Run Sandbox Value :=
  ⟨e.requests, match e.result with
    | .ok _ => none
    | .error failure => some failure, s⟩

/-- Runs a text in a sandbox of its own, in which the capabilities are found. -/
def load (budgetMs : Option Nat) (module source : String) : Run Sandbox Value :=
  let s := ofBudget budgetMs (Capability.install Library.fresh)
  match s.compile module source.toUTF8 with
  | .error failure => ⟨[], some failure, s⟩
  | .ok (f, heap) =>
    let (e, s) := { s with heap }.call f []
    seen e s

/-- Calls a function with JSON arguments. -/
def callWith (s : Sandbox) (f : Value) (args : List Json) : Run Sandbox Value :=
  let (args, heap) := Exchange.ofArgs s.heap args
  let (e, s) := { s with heap }.call f args
  seen e s

/-- Sandboxed scripts, whose calls have a budget if one is given. -/
def engine (budgetMs : Option Nat) : Engine := ⟨Sandbox, Value, load budgetMs, callWith⟩

/-- A global as JSON; what JSON cannot hold is `null`. -/
def global (s : Sandbox) (name : String) : Json :=
  ((Exchange.toJson false s.heap (s.heap.field Heap.globals name)).toOption).getD .null

end Sandbox

end LiveModules.Script
