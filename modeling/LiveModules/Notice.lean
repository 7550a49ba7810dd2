import LiveModules.Json.Decode

/-!
# Notices

A notice goes to two places: a history of the last thousand, and a ring of the last 128 from which
readers take what they have not seen yet. A reader that was overtaken learns how many it missed.
-/

namespace LiveModules

inductive NoticeLevel where
  | broadcast
  | warn
  | error
  deriving DecidableEq, Repr

namespace NoticeLevel

def name : NoticeLevel → String
  | broadcast => "Broadcast"
  | warn => "Warn"
  | error => "Error"

def names : List String := ["Broadcast", "Warn", "Error"]

def read (d : Json.Draft) : Except Json.Fault NoticeLevel := do
  match ← Json.readVariant names d with
  | "Broadcast" => return broadcast
  | "Warn" => return warn
  | _ => return error

end NoticeLevel

structure Notice where
  level : NoticeLevel
  message : String
  deriving DecidableEq, Repr

namespace Notice

def form : Json.Form :=
  ⟨"struct Notice", [.of "level" NoticeLevel.read true .choice,
    .of "message" (Json.readText "a string") true]⟩

def read (d : Json.Draft) : Except Json.Fault Notice := do
  let fields ← form.read d
  let level ← Json.fieldOr fields "level" NoticeLevel.read (.error (.missingField "level"))
  let message ←
    Json.fieldOr fields "message" (Json.readText "a string") (.error (.missingField "message"))
  return ⟨level, message⟩

def members (n : Notice) : Members :=
  [("level", .string n.level.name), ("message", .string n.message)]

end Notice

/-- The last `n` of a list. -/
def lastOf {α : Type _} (n : Nat) (xs : List α) : List α := xs.drop (xs.length - n)

/-! ## The history -/

/-- How many notices the history keeps. -/
def historyLimit : Nat := 1000

structure History where
  notices : List Notice

namespace History

def empty : History := ⟨[]⟩

def push (h : History) (n : Notice) : History := ⟨lastOf historyLimit (h.notices ++ [n])⟩

def messages (h : History) (level : NoticeLevel) : List String :=
  (h.notices.filter (·.level = level)).map (·.message)

end History

/-! ## The ring and its readers -/

/-- How many notices the ring holds. -/
def ringLimit : Nat := 128

structure NoticeBus where
  /-- How many notices were published. -/
  published : Nat
  /-- The last of them, at most as many as the ring holds. -/
  ring : List Notice
  /-- For each reader, how many of the published notices it is past. -/
  readers : Table String Nat

/-- What a reader gets: how many notices it missed, and the others in order. -/
structure Reading where
  lagged : Nat
  notices : List Notice

namespace NoticeBus

def empty : NoticeBus := ⟨0, [], ∅⟩

def publish (b : NoticeBus) (n : Notice) : NoticeBus :=
  { b with published := b.published + 1, ring := lastOf ringLimit (b.ring ++ [n]) }

/-- A new reader, past all that was published; it replaces one of the same name. -/
def subscribe (b : NoticeBus) (reader : String) : NoticeBus :=
  { b with readers := b.readers.insert reader b.published }

def unsubscribe (b : NoticeBus) (reader : String) : NoticeBus :=
  { b with readers := b.readers.erase reader }

def subscriberCount (b : NoticeBus) : Nat := b.readers.size

/-- What was published past a position. -/
def since (b : NoticeBus) (position : Nat) : Reading :=
  let fresh := b.published - position
  ⟨fresh - ringLimit, lastOf fresh b.ring⟩

/-- Gives a reader what it has not seen. -/
def read (b : NoticeBus) (reader : String) : Option (Reading × NoticeBus) :=
  (b.readers.find? reader).map fun position => (b.since position, b.subscribe reader)

end NoticeBus

end LiveModules
