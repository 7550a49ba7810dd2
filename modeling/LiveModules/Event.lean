import LiveModules.Json.Decode

/-!
# Events

An event has a name, which may be scoped to a subject, and a list of arguments. A scoped name is
never the same key as an unscoped one, also where both are shown alike.
-/

namespace LiveModules

structure EventKey where
  name : String
  subject : Option String
  deriving DecidableEq, Repr

namespace EventKey

def unscoped (name : String) : EventKey := ⟨name, none⟩

def withSubject (name subject : String) : EventKey := ⟨name, some subject⟩

/-- The built-in event on which spawn rules are checked. -/
def tick : EventKey := unscoped "tick"

def display (k : EventKey) : String :=
  match k.subject with
  | some s => k.name ++ ":" ++ s
  | none => k.name

/-- By name, then by subject, an absent subject first. -/
instance : Ord EventKey := ⟨compareLex (compareOn name) (compareOn subject)⟩

instance : Std.TransOrd EventKey :=
  inferInstanceAs (Std.TransCmp (compareLex (compareOn name) (compareOn subject)))

instance : Std.LawfulEqOrd EventKey where
  eq_of_compare {a b} h := by
    have h : compareLex (compareOn name) (compareOn subject) a b = .eq := h
    rw [compareLex_eq_eq] at h
    obtain ⟨n, s⟩ := a
    obtain ⟨n', s'⟩ := b
    have h1 : n = n' := Std.LawfulEqOrd.eq_of_compare h.1
    have h2 : s = s' := Std.LawfulEqOrd.eq_of_compare h.2
    rw [h1, h2]

end EventKey

/-- An event with its positional arguments. -/
structure GameEvent where
  key : EventKey
  args : List Json

/-! ## The written form -/

namespace EventKey

def form : Json.Form :=
  ⟨"struct EventKey", [.of "name" (Json.readText "a string") true,
    .of "subject" (Json.readOption (Json.readText "a string")) false]⟩

def read (d : Json.Draft) : Except Json.Fault EventKey := do
  let fields ← form.read d
  let name ← Json.fieldOr fields "name" (Json.readText "a string") (.error (.missingField "name"))
  let subject ←
    Json.fieldOr fields "subject" (Json.readOption (Json.readText "a string")) (.ok none)
  return ⟨name, subject⟩

/-- The members of the written form; an absent subject is left out. -/
def members (k : EventKey) : Members :=
  ("name", .string k.name) :: (k.subject.map fun s => ("subject", Json.string s)).toList

end EventKey

namespace GameEvent

def form : Json.Form :=
  ⟨"struct GameEvent", [.of "key" EventKey.read true EventKey.form.shape,
    .of "args" Json.readList false]⟩

def read (d : Json.Draft) : Except Json.Fault GameEvent := do
  let fields ← form.read d
  let key ← Json.fieldOr fields "key" EventKey.read (.error (.missingField "key"))
  let args ← Json.fieldOr fields "args" Json.readList (.ok [])
  return ⟨key, args⟩

def members (e : GameEvent) : Members :=
  [("key", .object e.key.members), ("args", .array e.args)]

end GameEvent

end LiveModules
