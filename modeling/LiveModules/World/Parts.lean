import LiveModules.Action
import LiveModules.Error
import LiveModules.Files.Time
import LiveModules.Roster
import LiveModules.Script.Engine
import LiveModules.Spawns
import LiveModules.Timers

/-!
# What is registered with the host

Callbacks are plans of the host program or functions of a script. A script function is known
together with the surface it comes from: one surface is one version of a module.
-/

namespace LiveModules

/-- Who registered a spawn rule: a surface, or somebody known by a label. -/
inductive Owner where
  | surface (id : Nat)
  | label (name : String)
  deriving DecidableEq, Repr

/-- The surface that a script function comes from. -/
structure Origin where
  surface : Nat
  module : String
  deriving DecidableEq, Repr

structure ScriptFunction (E : Engine) where
  origin : Origin
  callback : E.Callback

/-- Who hears the events of the hub. -/
inductive Listener where
  | plan (label : String) (react : Nat → GameEvent → Plan)
  /-- Hands every event on to the surfaces. -/
  | relay

/-- Who gets the events of an emitter. -/
inductive Subscriber (E : Engine) where
  | plan (label : String) (react : Nat → GameEvent → Plan)
  | script (f : ScriptFunction E)
  /-- Checks the spawn rules of a surface. -/
  | spawnCheck (surface : Nat)

inductive CommandAction (E : Engine) where
  | plan (id : Nat) (react : Nat → CommandCall → Plan)
  | script (f : ScriptFunction E)

inductive Task (E : Engine) where
  | plan (label : String) (p : Plan)
  | script (f : ScriptFunction E)

/-- One version of a module, with its own emitter. -/
structure Surface (E : Engine) where
  id : Nat
  module : String
  emitter : Roster (Subscriber E)

inductive ModuleState where
  | unloaded
  | loading
  | active
  | errored
  deriving DecidableEq, Repr

/-- What is known of a module. -/
structure Record where
  name : String
  modified : FileTime
  state : ModuleState
  logPath : String
  errorPath : String
  /-- What went wrong in the last load, if it failed. -/
  lastError : Option String
  /-- How often the module was loaded. -/
  generation : Nat
  deriving DecidableEq, Repr

/-- A change of the files that tell of a module. -/
inductive ArtifactWrite where
  | truncateLog
  | appendLog (line : String)
  | clearError
  | writeError (detail : String)
  deriving DecidableEq, Repr

/-- Changes of files that wait to be made, in order, each with its module. -/
abbrev Outbox := Array (String × ArtifactWrite)

/-- What the changes of files are made on. -/
class Disk (D : Type) where
  /-- Tries one change of the files that tell of a module. -/
  make (d : D) (module : String) (a : ArtifactWrite) : Except HostError D
  /-- Takes down that a change was not possible. -/
  warn (d : D) (module : String) (e : HostError) : D

/-- Makes one change of files as far as that is possible. -/
def Disk.put {D : Type} [Disk D] (d : D) (module : String) (a : ArtifactWrite) : D :=
  match Disk.make d module a with
  | .ok d => d
  | .error e => Disk.warn d module e

/-- Every change can wait. -/
instance : Disk Outbox where
  make o module a := .ok (o.push (module, a))
  warn o _ _ := o

/-- Which roster a callback was called from. -/
inductive Place where
  | hub
  | emitter
  | surface (module : String)
  deriving DecidableEq, Repr

/-- What happened. A label is there where a plan was called. What an action brings about stands
between its beginning and its end. -/
inductive Entry where
  | began (action : Action)
  | ended (action : Action) (answer : Answer)
  | heard (place : Place) (id : Nat) (label : Option String) (event : GameEvent)
  /-- A subscriber wants no further events. -/
  | left (place : Place) (id : Nat)
  | commanded (key : CommandKey) (label : Option String) (call : CommandCall)
  | fired (seq : Nat) (label : Option String)
  /-- The default handling of the current event is not wanted. -/
  | prevented
  /-- A script registered a spawn rule. -/
  | registered (origin : Origin) (key : SpawnKey)
  /-- A version of a module is about to be loaded, in a fresh surface. -/
  | loading (module : String) (surface : Nat) (modified : FileTime)
  | loaded (module : String)
  /-- A module could not be loaded, or a callback of it failed. -/
  | failed (module detail : String)
  /-- A change of the files that tell of a module was not possible. -/
  | unwritten (module : String) (error : HostError)
  /-- A plan got an answer. -/
  | did (action : Action) (answer : Answer)
  | logged (module line : String)

/-- The time: where the wall clock is used it wins over the time that was set. -/
structure Clock where
  set : Float
  wall : Option Float

def Clock.now (c : Clock) : Float := c.wall.getD c.set

end LiveModules
