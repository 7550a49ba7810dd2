import LiveModules.Files.Name
import LiveModules.World.Parts

/-!
# The world

All that the host knows: the game, who is registered for what, the modules and their surfaces. Files
that tell of a module are changed on the world's `disk`: the drive of a site, or an outbox that
keeps the changes for later. A change that is not possible is a warning, and the host goes on.
-/

namespace LiveModules

/-- Joins paths; one that is absolute stands for itself. -/
def joinPath (base part : String) : String :=
  if FilePath.startsWithSlash part then part
  else if base.isEmpty || FilePath.endsWithSlash base then base ++ part
  else base ++ "/" ++ part

def errorsDir : String := ".errors"

def logsDir : String := ".logs"

def errorPath (root module : String) : String := joinPath (joinPath root errorsDir) module

def logPath (root module : String) : String := joinPath (joinPath root logsDir) module

structure World (E : Engine) (D : Type := Outbox) where
  /-- The watched directory. -/
  root : String
  game : Game (CommandAction E)
  hub : Hub Listener
  /-- An emitter that belongs to no module. -/
  emitter : Roster (Subscriber E)
  spawns : SpawnTable Float Owner
  timers : TimerQueue (Task E)
  clock : Clock
  records : Table String Record
  /-- The current surface of every module. -/
  surfaces : Table String (Surface E)
  /-- The emitters of superseded surfaces. -/
  retired : Table Nat (Roster (Subscriber E))
  /-- The script state of every surface, of superseded ones too. -/
  states : Table Nat E.State
  /-- The latest listener and the latest subscriber of each label. -/
  listenerIds : Table String Nat
  subscriberIds : Table String Nat
  /-- How often each plan was called. -/
  calls : Table Nat Nat
  nextId : Nat
  /-- What happened, in order. -/
  journal : Array Entry
  disk : D

namespace World

variable {E : Engine}

def empty (root : String) : World E :=
  ⟨root, .empty, .empty, .empty, .empty, .empty, ⟨0, none⟩, ∅, ∅, ∅, ∅, ∅, ∅, ∅, 0, #[], #[]⟩

variable {D : Type}

def note (w : World E D) (e : Entry) : World E D := { w with journal := w.journal.push e }

def notify (w : World E D) (n : Notice) : World E D := { w with game := w.game.notify n }

def broadcast (w : World E D) (message : String) : World E D := w.notify ⟨.broadcast, message⟩

def preventDefault (w : World E D) : World E D :=
  { w with game := w.game.preventDefault }.note .prevented

/-! ## Changes of files -/

/-- The same world on another disk. -/
def onDisk {D' : Type} (w : World E D) (disk : D') : World E D' := { w with disk }

variable [Disk D]

/-- Tries a change of the files that tell of a module. -/
def attempt (w : World E D) (module : String) (a : ArtifactWrite) :
    World E D × Except HostError Unit :=
  match Disk.make w.disk module a with
  | .ok disk => ({ w with disk }, .ok ())
  | .error e => (w, .error e)

/-- Reports what came of a change: a fault is a warning and no more. -/
def report (w : World E D) (module : String) : Except HostError Unit → World E D
  | .ok () => w
  | .error e => { w with disk := Disk.warn w.disk module e }

/-- Makes a change of the files that tell of a module, if it is possible. -/
def write (w : World E D) (module : String) (a : ArtifactWrite) : World E D :=
  let (w, result) := w.attempt module a
  w.report module result

/-- The world is the same, whatever came of the change. -/
theorem write_eq_put (w : World E D) (module : String) (a : ArtifactWrite) :
    w.write module a = { w with disk := Disk.put w.disk module a } := by
  rw [write, attempt, Disk.put]
  cases Disk.make w.disk module a <;> rfl

theorem write_eq (w : World E) (module : String) (a : ArtifactWrite) :
    w.write module a = { w with disk := w.disk.push (module, a) } := rfl

omit [Disk D]

/-- Counts a call of plan `id`. -/
def countCall (w : World E D) (id : Nat) : World E D :=
  { w with calls := w.calls.insert id ((w.calls.find? id).getD 0 + 1) }

/-- How often plan `id` was called. -/
def callsOf (w : World E D) (id : Nat) : Nat := (w.calls.find? id).getD 0

/-! ## Emitters -/

/-- The roster at a place; that of the hub is kept apart. -/
def roster (w : World E D) : Place → Roster (Subscriber E)
  | .hub => .empty
  | .emitter => w.emitter
  | .surface module => ((w.surfaces.find? module).map (·.emitter)).getD .empty

def updateRoster (w : World E D) (f : Roster (Subscriber E) → Roster (Subscriber E)) :
    Place → World E D
  | .hub => w
  | .emitter => { w with emitter := f w.emitter }
  | .surface module =>
    { w with surfaces := w.surfaces.modify module fun s => { s with emitter := f s.emitter } }

/-! ## Requests of scripts -/

/-- Whether the surface that a script comes from was not superseded. -/
def isCurrent (w : World E D) (origin : Origin) : Bool :=
  match w.surfaces.find? origin.module with
  | some s => s.id = origin.surface
  | none => false

/-- The emitter of a superseded surface. -/
def retiree (w : World E D) (surface : Nat) : Roster (Subscriber E) :=
  (w.retired.find? surface).getD .empty

/-- The emitter of the surface that a script comes from. -/
def emitterOf (w : World E D) (origin : Origin) : Roster (Subscriber E) :=
  if w.isCurrent origin then w.roster (.surface origin.module) else w.retiree origin.surface

/-- Subscribes a script function to its own surface; where that was superseded, nobody will emit
there again. -/
def subscribeScript (w : World E D) (f : ScriptFunction E) (key : EventKey) : World E D :=
  let subscribe := (Roster.add · key w.nextId (.script f))
  let grown := { w with nextId := w.nextId + 1 }
  if w.isCurrent f.origin then grown.updateRoster subscribe (.surface f.origin.module)
  else
    { grown with
      retired := w.retired.insert f.origin.surface (subscribe (w.retiree f.origin.surface)) }

/-- When a timeout that is asked for now is due. -/
def dueAfter (w : World E D) (delayMs : Float) : Float :=
  w.clock.now + (if 0 < delayMs then delayMs else 0) / 1000

variable [Disk D]

/-- Does what a script of this origin asks for. -/
def grant (origin : Origin) (w : World E D) : Request E.Callback → World E D
  | .command key description callback =>
    { w with game := w.game.createCommand key ⟨description, .script ⟨origin, callback⟩⟩ }
  | .room id spec => { w with game := w.game.createRoom id spec }
  | .item room template secs =>
    { w with spawns := w.spawns.register (.surface origin.surface) room template secs }.note
      (.registered origin ⟨room, template.name⟩)
  | .character name properties =>
    { w with game := w.game.createPlayer (.character name properties) }
  | .handler key callback => w.subscribeScript ⟨origin, callback⟩ key
  | .timeout delayMs callback =>
    { w with timers :=
        w.timers.schedule origin.module (w.dueAfter delayMs) (.script ⟨origin, callback⟩) }
  | .preventDefault => w.preventDefault
  | .broadcast message => w.broadcast message
  | .log line => (w.note (.logged origin.module line)).write origin.module (.appendLog line)

def grantAll (origin : Origin) (w : World E D) (requests : List (Request E.Callback)) : World E D :=
  requests.foldl (grant origin) w

/-- Keeps the state that a run leaves and does what it asks for. -/
def finishRun (w : World E D) (origin : Origin) (r : Run E.State E.Callback) : World E D :=
  { w with states := w.states.insert origin.surface r.state }.grantAll origin r.requests

/-- Notes that a callback failed, if it did. -/
def noteFailure (w : World E D) (module : String) : Option String → World E D
  | none => w
  | some detail => w.note (.failed module detail)

/-- Calls a script function; the failure that ended the run comes with the world after it. -/
def callScript (w : World E D) (f : ScriptFunction E) (args : List Json) :
    World E D × Option String :=
  match w.states.find? f.origin.surface with
  | none => (w, none)
  | some state =>
    let r := E.call state f.callback args
    ((w.finishRun f.origin r).noteFailure f.origin.module r.failure, r.failure)

/-! ## What a failing script leaves behind -/

def writeError (w : World E D) (module detail : String) : World E D :=
  w.write module (.writeError detail)

def handlerFailed (w : World E D) (module : String) (key : EventKey) (detail : String) :
    World E D :=
  (w.writeError module detail).broadcast
    ("Oh dear there was an error handling the " ++ key.display ++ " event!")

def commandFailed (w : World E D) (module verb detail : String) : World E D :=
  (w.writeError module detail).broadcast
    ("Oh dear there was an error running the " ++ verb ++ " command!")

def timeoutFailed (w : World E D) (module detail : String) : World E D :=
  (w.writeError module detail).broadcast ("Error running timeout: " ++ detail)

end World

end LiveModules
