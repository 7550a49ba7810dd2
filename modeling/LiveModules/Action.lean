import LiveModules.Error
import LiveModules.Event
import LiveModules.Game.Basic

/-!
# Actions

What the host program, and the callbacks it registers, may do to the host. A callback is a plan: it
takes one action after the other, each in the light of the answers so far, and ends with an
outcome. What it does may depend on how often it was called before.
-/

namespace LiveModules

/-- What an action answers. -/
inductive Answer where
  | nothing
  | flag (b : Bool)
  | count (n : Nat)
  | time (secs : Float)
  | failed (e : HostError)
  | room (r : Room)
  | item (i : Option Item)
  | player (p : Player)
  | command (key : CommandKey) (description : String)
  /-- How many spawn rules there are. -/
  | rules (n : Nat)

def Answer.isNothing : Answer → Bool
  | .nothing => true
  | _ => false

/-- How a callback ends. -/
inductive Outcome where
  | keep
  /-- A subscriber wants no further events. -/
  | leave
  /-- A command fails. -/
  | fail (e : HostError)

structure CommandCall where
  player : String
  args : String
  deriving DecidableEq, Repr

mutual

inductive Action where
  | notify (notices : List Notice)
  | preventDefault
  | takeDefaultPrevented
  /-- Emits an event with a prevent-default flag of its own. -/
  | emit (event : GameEvent)
  /-- Emits an event on the hub and leaves the flag alone. -/
  | emitPlain (event : GameEvent)
  | on (key : EventKey) (label : String) (react : Nat → GameEvent → Plan)
  | onAny (label : String) (react : Nat → GameEvent → Plan)
  | off (label : String)
  | listenerCount (key : EventKey)
  | anyListenerCount
  | createCommand (key : CommandKey) (description : String) (react : Nat → CommandCall → Plan)
  | runCommand (player line : String)
  | command (key : CommandKey)
  /-- The room is given as a value that is yet to be read. -/
  | createRoom (id : String) (spec : Json)
  | room (id : String)
  | putItem (room : String) (item : Item)
  | takeItem (room item : String)
  | getItem (room item : String)
  | createPlayer (p : Player)
  | player (name : String)
  | registerSpawn (owner room : String) (template : Item) (respawnSecs : Float)
  | releaseSpawns (owner : String)
  | spawnCount
  | schedule (module label : String) (due : Float) (task : Plan)
  | runDue (now : Float)
  | pendingTimers
  | subscribe (key : EventKey) (label : String) (react : Nat → GameEvent → Plan)
  | unsubscribe (key : EventKey) (label : String)
  | dispatch (event : GameEvent)
  | subscriberCount (key : EventKey)
  | clear
  | setClock (secs : Float)
  | advanceClock (secs : Float)

inductive Plan where
  | finish (outcome : Outcome)
  | act (action : Action) (next : Answer → Plan)

end

/-- Takes the actions in turn, whatever they answer. -/
def Plan.ofList (outcome : Outcome) : List Action → Plan
  | [] => .finish outcome
  | a :: rest => .act a fun _ => ofList outcome rest

instance : Inhabited Plan := ⟨.finish .keep⟩

end LiveModules
