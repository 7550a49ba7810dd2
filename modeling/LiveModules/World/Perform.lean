import LiveModules.World.Basic

/-!
# Performing actions

`perform fuel a w` does the action `a` in the world `w`. Callbacks take actions of their own, to any
depth; `fuel` bounds the depth, and `none` means that it was too small. Everything but the recursion
is stated over the performance `run` of the actions beneath.
-/

namespace LiveModules

namespace World

variable {E : Engine} {D : Type}

/-- How the actions of callbacks are performed. -/
abbrev Performer (E : Engine) (D : Type := Outbox) :=
  Action → World E D → Option (World E D × Answer)

/-- Follows a plan to its outcome. -/
def follow (run : Performer E D) : Plan → World E D → Option (World E D × Outcome)
  | .finish outcome, w => some (w, outcome)
  | .act a next, w => do
    let (w, answer) ← run a w
    let w := if answer.isNothing then w else w.note (.did a answer)
    follow run (next answer) w

/-! ## Events -/

/-- Puts the item of a rule into its room, unless there is no such room or the item lies in it. -/
def placeRule (state : World E D × List (SpawnKey × Item)) (rule : SpawnRule Float Owner) :
    World E D × List (SpawnKey × Item) :=
  let (w, placed) := state
  match w.game.rooms.find? rule.key.room with
  | none => (w, placed)
  | some room =>
    if (room.getItem? rule.key.item).isSome then (w, placed)
    else ({ w with game := w.game.updateRoom rule.key.room (·.addItem rule.template) },
      placed ++ [(rule.key, rule.template)])

/-- Puts the items of the rules into their rooms; answers what was placed, in the order of the
rules. -/
def placeDue (rules : List (SpawnRule Float Owner)) (w : World E D) :
    World E D × List (SpawnKey × Item) :=
  rules.foldl placeRule (w, [])

def spawnEvent (key : SpawnKey) (item : Item) : GameEvent :=
  ⟨.unscoped "spawn", [.string key.room, item.toJson]⟩

/-- Checks the spawn rules of an owner; answers what was placed. -/
def spawnCheck (run : Performer E D) (owner : Owner) (w : World E D) :
    Option (World E D × List SpawnKey) := do
  let now := w.clock.now
  let (w, placed) :=
    placeDue (w.spawns.due owner now) { w with spawns := w.spawns.stamp owner now }
  let w ← placed.foldlM (fun w p => do
    let (w, _) ← run (.emit (spawnEvent p.1 p.2)) w
    return w) w
  return (w, placed.map (·.1))

variable [Disk D]

/-- Calls one subscriber. -/
def callSubscriber (run : Performer E D) (place : Place) (event : GameEvent)
    (m : Member (Subscriber E)) (w : World E D) : Option (World E D × Outcome) :=
  match m.content with
  | .plan label react =>
    let w := (w.countCall m.id).note (.heard place m.id (some label) event)
    follow run (react (w.callsOf m.id - 1) event) w
  | .script f =>
    let w := w.note (.heard place m.id none event)
    match w.callScript f event.args with
    | (w, none) => some (w, .keep)
    | (w, some detail) => some (w.handlerFailed f.origin.module event.key detail, .leave)
  | .spawnCheck surface => do
    let w := w.note (.heard place m.id none event)
    let (w, _) ← w.spawnCheck run (.surface surface)
    return (w, .keep)

/-- Calls a subscriber if it is still on the list; one that wants to leave is taken off. `count` is
how many were called. -/
def deliver (run : Performer E D) (place : Place) (event : GameEvent) (state : World E D × Nat)
    (m : Member (Subscriber E)) : Option (World E D × Nat) :=
  let (w, count) := state
  if (w.roster place).contains event.key m.id then do
    let (w, outcome) ← w.callSubscriber run place event m
    match outcome with
    | .leave =>
      return ((w.note (.left place m.id)).updateRoster (·.remove event.key m.id) place, count + 1)
    | _ => return (w, count + 1)
  else some (w, count)

/-- Delivers an event to everybody who is on the list now, in order. -/
def dispatch (run : Performer E D) (place : Place) (event : GameEvent) (w : World E D) :
    Option (World E D × Nat) :=
  ((w.roster place).listed event.key).foldlM (deliver run place event) (w, 0)

/-- Hands an event on to every current surface, in the order of module names. -/
def relay (run : Performer E D) (event : GameEvent) (w : World E D) : Option (World E D) :=
  w.surfaces.keys.foldlM (fun w module => do
    let (w, _) ← w.dispatch run (.surface module) event
    return w) w

/-- Calls one listener of the hub. -/
def callListener (run : Performer E D) (event : GameEvent) (w : World E D) (m : Member Listener) :
    Option (World E D) :=
  match m.content with
  | .plan label react => do
    let w := (w.countCall m.id).note (.heard .hub m.id (some label) event)
    let (w, _) ← follow run (react (w.callsOf m.id - 1) event) w
    return w
  | .relay => (w.note (.heard .hub m.id none event)).relay run event

/-- Calls everybody who hears the event now, also those who are taken off meanwhile. -/
def emitPlain (run : Performer E D) (event : GameEvent) (w : World E D) : Option (World E D) :=
  (w.hub.hearers event.key).foldlM (callListener run event) w

/-- Emits with a flag of its own; answers whether the default handling is due. -/
def emit (run : Performer E D) (event : GameEvent) (w : World E D) :
    Option (World E D × Bool) := do
  let (outer, game) := w.game.takeDefaultPrevented
  let w ← { w with game }.emitPlain run event
  let (prevented, game) := w.game.takeDefaultPrevented
  let game := if outer then game.preventDefault else game
  return ({ w with game }, !prevented)

/-! ## Commands and timers -/

/-- Runs a command line; answers whether some command was meant, or how it failed. -/
def runCommand (run : Performer E D) (player line : String) (w : World E D) :
    Option (World E D × Except HostError Bool) :=
  let line := CommandLine.ofText line
  match line.resolve w.game.commands with
  | none => some (w, .ok false)
  | some (key, command) =>
    let call : CommandCall := ⟨player, line.rest⟩
    match command.action with
    | .plan id react => do
      let w := (w.countCall id).note (.commanded key (some key.display) call)
      let (w, outcome) ← follow run (react (w.callsOf id - 1) call) w
      match outcome with
      | .fail e => return (w, .error e)
      | _ => return (w, .ok true)
    | .script f =>
      let w := w.note (.commanded key none call)
      match w.callScript f [.string player, .string line.rest] with
      | (w, none) => some (w, .ok true)
      | (w, some detail) =>
        some (w.commandFailed f.origin.module key.verb detail,
          .error (.handler f.origin.module key.verb detail))

def fire (run : Performer E D) (w : World E D) (t : Timer (Task E)) : Option (World E D) :=
  match t.task with
  | .plan label p => do
    let (w, _) ← follow run p (w.note (.fired t.seq (some label)))
    return w
  | .script f =>
    match (w.note (.fired t.seq none)).callScript f [] with
    | (w, none) => some w
    | (w, some detail) => some (w.timeoutFailed f.origin.module detail)

/-- Takes out what is due and runs it in order; answers how many timers that were. -/
def runDue (run : Performer E D) (now : Float) (w : World E D) : Option (World E D × Nat) := do
  let due := w.timers.due now
  let w ← due.foldlM (fire run) { w with timers := w.timers.afterTaking now }
  return (w, due.length)

omit [Disk D]

/-! ## Registrations of the host program -/

def listen (w : World E D) (key : Option EventKey) (label : String)
    (react : Nat → GameEvent → Plan) : World E D :=
  let content := Listener.plan label react
  { w with
    nextId := w.nextId + 1
    listenerIds := w.listenerIds.insert label w.nextId
    hub := match key with
      | some key => w.hub.on key w.nextId content
      | none => w.hub.onAny w.nextId content }

/-- Takes the latest listener of a label off the hub; answers whether it was there. -/
def unlisten (w : World E D) (label : String) : World E D × Bool :=
  match w.listenerIds.find? label with
  | none => (w, false)
  | some id =>
    let hub := w.hub.off id
    ({ w with hub }, hub.size ≠ w.hub.size)

def subscribe (w : World E D) (key : EventKey) (label : String)
    (react : Nat → GameEvent → Plan) : World E D :=
  { w with
    nextId := w.nextId + 1
    subscriberIds := w.subscriberIds.insert label w.nextId
    emitter := w.emitter.add key w.nextId (.plan label react) }

/-- Takes the latest subscriber of a label off the list of `key`; answers whether it was there. -/
def unsubscribe (w : World E D) (key : EventKey) (label : String) : World E D × Bool :=
  match w.subscriberIds.find? label with
  | none => (w, false)
  | some id =>
    let emitter := w.emitter.remove key id
    ({ w with emitter }, emitter.count key ≠ w.emitter.count key)

/-! ## All actions -/

/-- Reads a room and makes it. -/
def createRoom (w : World E D) (id : String) (spec : Json) : World E D × Answer :=
  match RoomSpec.read (.ofJson spec) with
  | .error f => (w, .failed (.json f.message))
  | .ok spec => ({ w with game := w.game.createRoom id spec }, .nothing)

/-- Answers of the item tables, by room. -/
def itemAction (w : World E D) (room : String) (f : Room → World E D × Answer) :
    World E D × Answer :=
  match w.game.rooms.find? room with
  | none => (w, .nothing)
  | some r => f r

/-- An action that calls nothing back. -/
def performPlain (w : World E D) : Action → World E D × Answer
  | .notify notices => (notices.foldl notify w, .nothing)
  | .preventDefault => (w.preventDefault, .nothing)
  | .takeDefaultPrevented =>
    let (flag, game) := w.game.takeDefaultPrevented
    ({ w with game }, .flag flag)
  | .on key label react => (w.listen (some key) label react, .nothing)
  | .onAny label react => (w.listen none label react, .nothing)
  | .off label =>
    let (w, found) := w.unlisten label
    (w, .flag found)
  | .listenerCount key => (w, .count (w.hub.keyed.count key))
  | .anyListenerCount => (w, .count w.hub.any.length)
  | .createCommand key description react =>
    ({ w with
      nextId := w.nextId + 1
      game := w.game.createCommand key ⟨description, .plan w.nextId react⟩ }, .nothing)
  | .command key =>
    (w, match w.game.commands.find? key with
      | some c => .command key c.description
      | none => .nothing)
  | .createRoom id spec => w.createRoom id spec
  | .room id => (w, ((w.game.rooms.find? id).map Answer.room).getD .nothing)
  | .putItem room item => w.itemAction room fun r =>
    ({ w with game := w.game.updateRoom room (·.addItem item) }, .count (r.items.length + 1))
  | .takeItem room item => w.itemAction room fun r =>
    ({ w with game := w.game.updateRoom room (·.takeItem item) }, .item (r.getItem? item))
  | .getItem room item => w.itemAction room fun r => (w, .item (r.getItem? item))
  | .createPlayer p => ({ w with game := w.game.createPlayer p }, .nothing)
  | .player name => (w, ((w.game.players.find? name).map Answer.player).getD .nothing)
  | .registerSpawn owner room template secs =>
    let spawns := w.spawns.register (.label owner) room template secs
    ({ w with spawns }, .count spawns.size)
  | .releaseSpawns owner =>
    let spawns := w.spawns.release (.label owner)
    ({ w with spawns }, .count (w.spawns.size - spawns.size))
  | .spawnCount => (w, .rules w.spawns.size)
  | .schedule module label due task =>
    let timers := w.timers.schedule module due (.plan label task)
    ({ w with timers }, .count timers.pending.length)
  | .pendingTimers => (w, .count w.timers.pending.length)
  | .subscribe key label react => (w.subscribe key label react, .nothing)
  | .unsubscribe key label =>
    let (w, found) := w.unsubscribe key label
    (w, .flag found)
  | .subscriberCount key => (w, .count (w.emitter.count key))
  | .clear => ({ w with emitter := .empty }, .nothing)
  | .setClock secs => ({ w with clock := { w.clock with set := secs } }, .time secs)
  | .advanceClock secs =>
    let now := w.clock.set + secs
    ({ w with clock := { w.clock with set := now } }, .time now)
  | _ => (w, .nothing)

/-- One action, those beneath it performed by `run`. -/
def step [Disk D] (run : Performer E D) (a : Action) (w : World E D) :
    Option (World E D × Answer) :=
  match a with
  | .emit event => (w.emit run event).map fun r => (r.1, .flag r.2)
  | .emitPlain event => (w.emitPlain run event).map fun w => (w, .nothing)
  | .dispatch event => (w.dispatch run .emitter event).map fun r => (r.1, .count r.2)
  | .runDue now => (w.runDue run now).map fun r => (r.1, .count r.2)
  | .runCommand player line => (w.runCommand run player line).map fun r =>
    (r.1, match r.2 with
      | .ok b => .flag b
      | .error e => .failed e)
  | a => some (w.performPlain a)

end World

/-- Performs an action whose callbacks nest to less than `fuel`. -/
def perform {E : Engine} {D : Type} [Disk D] :
    Nat → Action → World E D → Option (World E D × Answer)
  | 0, _, _ => none
  | fuel + 1, a, w => do
    let (w, answer) ← World.step (perform fuel) a (w.note (.began a))
    return (w.note (.ended a answer), answer)

end LiveModules
