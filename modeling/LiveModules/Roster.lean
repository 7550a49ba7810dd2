import LiveModules.Event

/-!
# Rosters

Who is registered under which event key, in the order of registration. Everybody has a number of
their own; a key under which nobody is left has no list.
-/

namespace LiveModules

/-- Somebody registered. -/
structure Member (α : Type) where
  id : Nat
  content : α

structure Roster (α : Type) where
  lists : Table EventKey (List (Member α))

namespace Roster

variable {α : Type}

def empty : Roster α := ⟨∅⟩

/-- Everybody under `key`, in the order of registration. -/
def listed (r : Roster α) (key : EventKey) : List (Member α) := (r.lists.find? key).getD []

def count (r : Roster α) (key : EventKey) : Nat := (r.listed key).length

def contains (r : Roster α) (key : EventKey) (id : Nat) : Bool :=
  (r.listed key).any (·.id == id)

def add (r : Roster α) (key : EventKey) (id : Nat) (content : α) : Roster α :=
  ⟨r.lists.insert key (r.listed key ++ [⟨id, content⟩])⟩

/-- The lists with some members left out, and no empty list. -/
def keep (r : Roster α) (p : EventKey → Member α → Bool) : Roster α :=
  ⟨(r.lists.mapValues fun key members => members.filter (p key)).filter fun _ members =>
    !members.isEmpty⟩

/-- Takes number `id` off the list of `key`. -/
def remove (r : Roster α) (key : EventKey) (id : Nat) : Roster α :=
  r.keep fun key' m => key' != key || m.id != id

/-- Takes number `id` off every list. -/
def removeAll (r : Roster α) (id : Nat) : Roster α := r.keep fun _ m => m.id != id

/-- Everybody on any list. -/
def members (r : Roster α) : List (Member α) := r.lists.values.flatten

/-- Whether number `id` is on some list. -/
def mentions (r : Roster α) (id : Nat) : Bool :=
  r.lists.values.any fun members => members.any (·.id == id)

end Roster

/-! ## The hub: a roster, and those who hear every event -/

structure Hub (α : Type) where
  keyed : Roster α
  any : List (Member α)

namespace Hub

variable {α : Type}

def empty : Hub α := ⟨.empty, []⟩

def on (h : Hub α) (key : EventKey) (id : Nat) (content : α) : Hub α :=
  { h with keyed := h.keyed.add key id content }

def onAny (h : Hub α) (id : Nat) (content : α) : Hub α := { h with any := h.any ++ [⟨id, content⟩] }

/-- Everybody who hears an event under `key`: those on its list, then those who hear all. -/
def hearers (h : Hub α) (key : EventKey) : List (Member α) := h.keyed.listed key ++ h.any

def contains (h : Hub α) (id : Nat) : Bool := h.any.any (·.id == id) || h.keyed.mentions id

/-- How many are registered. -/
def size (h : Hub α) : Nat := h.any.length + h.keyed.members.length

def off (h : Hub α) (id : Nat) : Hub α := ⟨h.keyed.removeAll id, h.any.filter (·.id != id)⟩

end Hub

end LiveModules
