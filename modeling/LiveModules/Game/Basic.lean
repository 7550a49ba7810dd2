import LiveModules.Command
import LiveModules.Game.Item
import LiveModules.Notice

/-!
# The game

The tables that modules and the host program share. A registration under a key that is taken
replaces what was there.
-/

namespace LiveModules

structure Player where
  name : String
  npc : Bool
  properties : Members

namespace Player

def ofName (name : String) : Player := ⟨name, false, []⟩

/-- Adds properties; of two with one key the later stays. -/
def extend (p : Player) (properties : Members) : Player :=
  { p with properties := properties.foldl (fun acc m => Assoc.insert m.1 m.2 acc) p.properties }

/-- The player that a module makes: one that nobody plays. -/
def character (name : String) (properties : Members) : Player :=
  { ofName name with npc := true }.extend properties

end Player

/-- A registered command; `α` is what runs when it is given. -/
structure Command (α : Type) where
  description : String
  action : α

structure Game (α : Type) where
  commands : Table CommandKey (Command α)
  rooms : Table String Room
  players : Table String Player
  history : History
  bus : NoticeBus
  defaultPrevented : Bool

namespace Game

variable {α : Type}

def empty : Game α := ⟨∅, ∅, ∅, .empty, .empty, false⟩

def createCommand (g : Game α) (key : CommandKey) (command : Command α) : Game α :=
  { g with commands := g.commands.insert key command }

def createRoom (g : Game α) (id : String) (spec : RoomSpec) : Game α :=
  { g with rooms := g.rooms.insert id (.ofSpec id spec) }

def createPlayer (g : Game α) (player : Player) : Game α :=
  { g with players := g.players.insert player.name player }

def updateRoom (g : Game α) (id : String) (f : Room → Room) : Game α :=
  { g with rooms := g.rooms.modify id f }

/-- Issues a notice, to the history and to the bus. -/
def notify (g : Game α) (n : Notice) : Game α :=
  { g with history := g.history.push n, bus := g.bus.publish n }

def broadcast (g : Game α) (message : String) : Game α := g.notify ⟨.broadcast, message⟩

def warn (g : Game α) (message : String) : Game α := g.notify ⟨.warn, message⟩

def error (g : Game α) (message : String) : Game α := g.notify ⟨.error, message⟩

/-- Asks that the default handling of the current event be left out. -/
def preventDefault (g : Game α) : Game α := { g with defaultPrevented := true }

/-- The flag, which is cleared. -/
def takeDefaultPrevented (g : Game α) : Bool × Game α :=
  (g.defaultPrevented, { g with defaultPrevented := false })

end Game

end LiveModules
