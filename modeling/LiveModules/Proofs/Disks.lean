import LiveModules.Proofs.Forms
import Mathlib.Tactic.TypeStar

/-!
# Disks have no say

A world makes changes of files on its disk and never looks at what came of them. So what it does on
one disk it does on every other: each part of an action commutes with a map of disks that changes
are carried along (`perform_carried`, `World.mapDisk_reload`).
-/

namespace LiveModules

/-- Steps that a map carries along, taken in turn. -/
theorem foldlM_carried {σ σ' α : Type*} {φ : σ → σ'} {f : σ → α → Option σ}
    {g : σ' → α → Option σ'} (h : ∀ s a, g (φ s) a = (f s a).map φ) :
    ∀ (l : List α) (s : σ), l.foldlM g (φ s) = (l.foldlM f s).map φ
  | [], _ => rfl
  | a :: l, s => by
    rw [List.foldlM_cons, List.foldlM_cons, h]
    cases f s a with
    | none => rfl
    | some s' => exact foldlM_carried h l s'

theorem foldl_carried {σ σ' α : Type*} {φ : σ → σ'} {f : σ → α → σ} {g : σ' → α → σ'}
    (h : ∀ s a, g (φ s) a = φ (f s a)) :
    ∀ (l : List α) (s : σ), l.foldl g (φ s) = φ (l.foldl f s)
  | [], _ => rfl
  | a :: l, s => by rw [List.foldl_cons, List.foldl_cons, h, foldl_carried h l]

-- Otherwise a look at a field of a world that got a notice goes into the history.
attribute [local irreducible] lastOf

variable {E : Engine} {D D' : Type}

/-- Changes of files are carried along by a map of disks, whatever directory is watched. -/
def Disk.Carried [Disk D] [Disk D'] (φ : String → D → D') : Prop :=
  ∀ root d module a, φ root (Disk.put d module a) = Disk.put (φ root d) module a

namespace World

/-- The world on the disk that its own is mapped to. -/
def mapDisk (φ : String → D → D') (w : World E D) : World E D' := w.onDisk (φ w.root w.disk)

/-- The same of a world with something else. -/
def mapDiskWith (φ : String → D → D') {α : Type*} (r : World E D × α) : World E D' × α :=
  (r.1.mapDisk φ, r.2)

/-- Actions are performed on the two disks alike. -/
def Performer.Carried (φ : String → D → D') (run : Performer E D) (run' : Performer E D') : Prop :=
  ∀ a w, run' a (w.mapDisk φ) = (run a w).map (mapDiskWith φ)

variable {φ : String → D → D'} {run : Performer E D} {run' : Performer E D'} (w : World E D)

/-! ## What makes no changes of files itself -/

theorem mapDisk_updateRoster (f : Roster (Subscriber E) → Roster (Subscriber E)) (place : Place) :
    (w.mapDisk φ).updateRoster f place = (w.updateRoster f place).mapDisk φ := by
  cases place <;> rfl

theorem mapDisk_roster (place : Place) : (w.mapDisk φ).roster place = w.roster place := by
  cases place <;> rfl

theorem mapDisk_subscribeScript (f : ScriptFunction E) (key : EventKey) :
    (w.mapDisk φ).subscribeScript f key = (w.subscribeScript f key).mapDisk φ := by
  have hc : (w.mapDisk φ).isCurrent f.origin = w.isCurrent f.origin := rfl
  rw [subscribeScript, subscribeScript, hc]
  split <;> rfl

theorem mapDisk_noteFailure (module : String) (failure : Option String) :
    (w.mapDisk φ).noteFailure module failure = (w.noteFailure module failure).mapDisk φ := by
  cases failure <;> rfl

theorem mapDisk_restocked (owner : Owner) :
    (w.mapDisk φ).restocked owner = mapDiskWith φ (w.restocked owner) := by
  refine foldl_carried (φ := mapDiskWith φ) (fun s r => ?_) (w.spawns.due owner w.clock.now)
    ({ w with spawns := w.spawns.stamp owner w.clock.now }, [])
  obtain ⟨v, placed⟩ := s
  have hv : (v.mapDisk φ).game = v.game := rfl
  simp only [mapDiskWith, placeRule, hv]
  split
  · rfl
  · split <;> rfl

theorem mapDisk_unlisten (label : String) :
    (w.mapDisk φ).unlisten label = mapDiskWith φ (w.unlisten label) := by
  have hl : (w.mapDisk φ).listenerIds = w.listenerIds := rfl
  rw [unlisten, unlisten, hl]
  split <;> rfl

theorem mapDisk_unsubscribe (key : EventKey) (label : String) :
    (w.mapDisk φ).unsubscribe key label = mapDiskWith φ (w.unsubscribe key label) := by
  have hl : (w.mapDisk φ).subscriberIds = w.subscriberIds := rfl
  rw [unsubscribe, unsubscribe, hl]
  split <;> rfl

theorem mapDisk_itemAction (room : String) {f : Room → World E D × Answer}
    {f' : Room → World E D' × Answer} (hf : ∀ r, f' r = mapDiskWith φ (f r)) :
    (w.mapDisk φ).itemAction room f' = mapDiskWith φ (w.itemAction room f) := by
  have hr : (w.mapDisk φ).game = w.game := rfl
  rw [itemAction, itemAction, hr]
  split
  · rfl
  · exact hf _

theorem mapDisk_performPlain (a : Action) :
    (w.mapDisk φ).performPlain a = mapDiskWith φ (w.performPlain a) := by
  cases a with
  | notify notices => exact Prod.ext (foldl_carried (φ := mapDisk φ) (fun _ _ => rfl) notices w) rfl
  | off label =>
    simp only [performPlain, mapDisk_unlisten]
    rfl
  | unsubscribe key label =>
    simp only [performPlain, mapDisk_unsubscribe]
    rfl
  | createRoom id spec =>
    simp only [performPlain, createRoom]
    split <;> rfl
  | putItem | takeItem | getItem => exact w.mapDisk_itemAction _ fun _ => rfl
  | _ => rfl

section Calls

variable (hr : Performer.Carried φ run run')

include hr

theorem mapDisk_follow : ∀ (p : Plan) (w : World E D),
    follow run' p (w.mapDisk φ) = (follow run p w).map (mapDiskWith φ)
  | .finish _, _ => rfl
  | .act a next, w => by
    rw [follow, follow, hr]
    rcases run a w with _ | ⟨v, answer⟩
    · rfl
    have hnote : (if answer.isNothing then v.mapDisk φ else (v.mapDisk φ).note (.did a answer)) =
        (if answer.isNothing then v else v.note (.did a answer)).mapDisk φ := by
      split <;> rfl
    show follow run' (next answer) (if answer.isNothing then v.mapDisk φ
      else (v.mapDisk φ).note (.did a answer)) = _
    rw [hnote, mapDisk_follow]
    rfl

theorem mapDisk_callPlan (id : Nat) (e : Entry) (react : Nat → Plan) :
    (w.mapDisk φ).callPlan run' id e react =
      (w.callPlan run id e react).map (mapDiskWith φ) :=
  mapDisk_follow hr _ ((w.countCall id).note e)

theorem mapDisk_spawnCheck (owner : Owner) : (w.mapDisk φ).spawnCheck run' owner =
    (w.spawnCheck run owner).map (mapDiskWith φ) := by
  rw [spawnCheck_eq, spawnCheck_eq, mapDisk_restocked, mapDiskWith]
  dsimp only
  rw [foldlM_carried (φ := mapDisk φ) fun v p => ?_]
  · rw [Option.map_map, Option.map_map]
    rfl
  · rw [hr, Option.map_map, Option.map_map]
    rfl

end Calls

/-! ## Scripts -/

variable [Disk D] [Disk D'] (hφ : Disk.Carried φ)

include hφ

theorem mapDisk_write (module : String) (a : ArtifactWrite) :
    (w.mapDisk φ).write module a = (w.write module a).mapDisk φ := by
  rw [write_eq_put, write_eq_put]
  exact congrArg w.onDisk (hφ w.root w.disk module a).symm

theorem mapDisk_grant (origin : Origin) (r : Request E.Callback) :
    (w.mapDisk φ).grant origin r = (w.grant origin r).mapDisk φ := by
  cases r with
  | handler key callback => exact w.mapDisk_subscribeScript ⟨origin, callback⟩ key
  | log line => exact mapDisk_write (w.note (.logged origin.module line)) hφ origin.module _
  | _ => rfl

theorem mapDisk_finishRun (origin : Origin) (r : Run E.State E.Callback) :
    (w.mapDisk φ).finishRun origin r = (w.finishRun origin r).mapDisk φ :=
  foldl_carried (fun v r => mapDisk_grant v hφ origin r) r.requests
    { w with states := w.states.insert origin.surface r.state }

theorem mapDisk_callScript (f : ScriptFunction E) (args : List Json) :
    (w.mapDisk φ).callScript f args = mapDiskWith φ (w.callScript f args) := by
  rcases hs : w.states.find? f.origin.surface with _ | state
  · rw [callScript_of_no_state hs, callScript_of_no_state (w := w.mapDisk φ) hs]
    rfl
  · rw [callScript_of_state hs, callScript_of_state (w := w.mapDisk φ) hs,
      mapDisk_finishRun w hφ, mapDisk_noteFailure]
    rfl

theorem mapDisk_writeError (module detail : String) :
    (w.mapDisk φ).writeError module detail = (w.writeError module detail).mapDisk φ :=
  mapDisk_write w hφ module (.writeError detail)

theorem mapDisk_handlerFailed (module : String) (key : EventKey) (detail : String) :
    (w.mapDisk φ).handlerFailed module key detail =
      (w.handlerFailed module key detail).mapDisk φ := by
  rw [handlerFailed, mapDisk_writeError w hφ]
  rfl

theorem mapDisk_commandFailed (module verb detail : String) :
    (w.mapDisk φ).commandFailed module verb detail =
      (w.commandFailed module verb detail).mapDisk φ := by
  rw [commandFailed, mapDisk_writeError w hφ]
  rfl

theorem mapDisk_timeoutFailed (module detail : String) :
    (w.mapDisk φ).timeoutFailed module detail = (w.timeoutFailed module detail).mapDisk φ := by
  rw [timeoutFailed, mapDisk_writeError w hφ]
  rfl

/-! ## Calls -/

variable (hr : Performer.Carried φ run run')

include hr

theorem mapDisk_callSubscriber (place : Place) (event : GameEvent) (m : Member (Subscriber E)) :
    (w.mapDisk φ).callSubscriber run' place event m =
      (w.callSubscriber run place event m).map (mapDiskWith φ) := by
  unfold callSubscriber
  rcases m.content with ⟨label, react⟩ | f | surface
  · exact mapDisk_callPlan w hr m.id (.heard place m.id (some label) event) fun n => react n event
  · have hcall := mapDisk_callScript (w.note (.heard place m.id none event)) hφ f event.args
    have hnote : (w.mapDisk φ).note (.heard place m.id none event) =
        (w.note (.heard place m.id none event)).mapDisk φ := rfl
    dsimp only
    rw [hnote, hcall]
    rcases (w.note (.heard place m.id none event)).callScript f event.args with ⟨v, _ | detail⟩
    · rfl
    · exact congrArg (fun v => some (v, Outcome.leave))
        (mapDisk_handlerFailed v hφ f.origin.module event.key detail)
  · have hcheck := mapDisk_spawnCheck (w.note (.heard place m.id none event)) hr (.surface surface)
    dsimp only
    rw [show (w.mapDisk φ).note (.heard place m.id none event) =
      (w.note (.heard place m.id none event)).mapDisk φ from rfl, hcheck]
    rcases (w.note (.heard place m.id none event)).spawnCheck run (.surface surface) with _ | r <;>
      rfl

theorem mapDisk_deliver (place : Place) (event : GameEvent) (s : World E D × Nat)
    (m : Member (Subscriber E)) : deliver run' place event (mapDiskWith φ s) m =
      (deliver run place event s m).map (mapDiskWith φ) := by
  obtain ⟨w, n⟩ := s
  have hroster : (w.mapDisk φ).roster place = w.roster place := w.mapDisk_roster place
  by_cases hc : (w.roster place).contains event.key m.id = true
  · rw [mapDiskWith, deliver_eq hc, deliver_eq (hroster ▸ hc), mapDisk_callSubscriber w hφ hr,
      Option.map_map, Option.map_map]
    refine Option.map_congr fun r _ => ?_
    obtain ⟨v, _ | _ | _⟩ := r
    · rfl
    · exact congrArg (·, n + 1)
        (mapDisk_updateRoster (v.note (.left place m.id)) (·.remove event.key m.id) place)
    · rfl
  · rw [mapDiskWith, deliver_skip hc, deliver_skip (hroster ▸ hc)]
    rfl

theorem mapDisk_dispatch (place : Place) (event : GameEvent) :
    (w.mapDisk φ).dispatch run' place event =
      (w.dispatch run place event).map (mapDiskWith φ) := by
  unfold dispatch
  rw [mapDisk_roster]
  exact foldlM_carried (mapDisk_deliver hφ hr place event) _ (w, 0)

theorem mapDisk_relay (event : GameEvent) :
    (w.mapDisk φ).relay run' event = (w.relay run event).map (mapDisk φ) := by
  refine foldlM_carried (φ := mapDisk φ) (fun v module => ?_) w.surfaces.keys w
  rw [mapDisk_dispatch v hφ hr]
  rcases v.dispatch run (.surface module) event with _ | r <;> rfl

theorem mapDisk_callListener (event : GameEvent) (m : Member Listener) :
    (w.mapDisk φ).callListener run' event m = (w.callListener run event m).map (mapDisk φ) := by
  unfold callListener
  rcases m.content with ⟨label, react⟩ | _
  · have hplan := mapDisk_callPlan w hr m.id (.heard .hub m.id (some label) event)
      fun n => react n event
    show ((w.mapDisk φ).callPlan run' m.id (.heard .hub m.id (some label) event)
        fun n => react n event).bind (fun r => some r.1) =
      ((w.callPlan run m.id (.heard .hub m.id (some label) event) fun n => react n event).bind
        fun r => some r.1).map (mapDisk φ)
    rw [hplan]
    rcases w.callPlan run m.id (.heard .hub m.id (some label) event) fun n => react n event with
      _ | r <;> rfl
  · exact mapDisk_relay (w.note (.heard .hub m.id none event)) hφ hr event

theorem mapDisk_emitPlain (event : GameEvent) :
    (w.mapDisk φ).emitPlain run' event = (w.emitPlain run event).map (mapDisk φ) :=
  foldlM_carried (fun v m => mapDisk_callListener v hφ hr event m) (w.hub.hearers event.key) w

theorem mapDisk_emit (event : GameEvent) :
    (w.mapDisk φ).emit run' event = (w.emit run event).map (mapDiskWith φ) := by
  have hflag : (w.mapDisk φ).setFlag false = (w.setFlag false).mapDisk φ := rfl
  rw [emit_eq, emit_eq, hflag, mapDisk_emitPlain _ hφ hr, Option.map_map, Option.map_map]
  rfl

theorem mapDisk_runCommand (player line : String) :
    (w.mapDisk φ).runCommand run' player line =
      (w.runCommand run player line).map (mapDiskWith φ) := by
  unfold runCommand
  have hgame : (w.mapDisk φ).game = w.game := rfl
  simp only [hgame]
  rcases (CommandLine.ofText line).resolve w.game.commands with _ | ⟨key, command⟩
  · rfl
  dsimp only
  rcases command.action with ⟨id, react⟩ | f
  · let call : CommandCall := ⟨player, (CommandLine.ofText line).rest⟩
    have hplan := mapDisk_callPlan w hr id (.commanded key (some key.display) call)
      fun n => react n call
    show ((w.mapDisk φ).callPlan run' id (.commanded key (some key.display) call)
        fun n => react n call).bind _ =
      ((w.callPlan run id (.commanded key (some key.display) call) fun n => react n call).bind
        _).map (mapDiskWith φ)
    rw [hplan]
    rcases w.callPlan run id (.commanded key (some key.display) call) fun n => react n call with
      _ | ⟨v, _ | _ | _⟩ <;> rfl
  · let noted := w.note (.commanded key none ⟨player, (CommandLine.ofText line).rest⟩)
    have hcall := mapDisk_callScript noted hφ f
      [.string player, .string (CommandLine.ofText line).rest]
    dsimp only
    rw [show (w.mapDisk φ).note (.commanded key none ⟨player, (CommandLine.ofText line).rest⟩) =
      noted.mapDisk φ from rfl, hcall]
    rcases noted.callScript f [.string player, .string (CommandLine.ofText line).rest] with
      ⟨v, _ | detail⟩
    · rfl
    · exact congrArg (fun v => some (v, Except.error _))
        (mapDisk_commandFailed v hφ f.origin.module key.verb detail)

theorem mapDisk_fire (t : Timer (Task E)) :
    fire run' (w.mapDisk φ) t = (fire run w t).map (mapDisk φ) := by
  unfold fire
  rcases t.task with ⟨label, p⟩ | f
  · have hplan := mapDisk_follow hr p (w.note (.fired t.seq (some label)))
    dsimp only
    rw [show (w.mapDisk φ).note (.fired t.seq (some label)) =
      (w.note (.fired t.seq (some label))).mapDisk φ from rfl, hplan]
    rcases follow run p (w.note (.fired t.seq (some label))) with _ | r <;> rfl
  · have hcall := mapDisk_callScript (w.note (.fired t.seq none)) hφ f []
    dsimp only
    rw [show (w.mapDisk φ).note (.fired t.seq none) =
      (w.note (.fired t.seq none)).mapDisk φ from rfl, hcall]
    rcases (w.note (.fired t.seq none)).callScript f [] with ⟨v, _ | detail⟩
    · rfl
    · exact congrArg some (mapDisk_timeoutFailed v hφ f.origin.module detail)

theorem mapDisk_runDue (now : Float) :
    (w.mapDisk φ).runDue run' now = (w.runDue run now).map (mapDiskWith φ) := by
  have htaken : { w.mapDisk φ with timers := w.timers.afterTaking now } =
      mapDisk φ { w with timers := w.timers.afterTaking now } := rfl
  have htimers : (w.mapDisk φ).timers = w.timers := rfl
  rw [runDue_eq, runDue_eq, htimers, htaken, foldlM_carried fun v t => mapDisk_fire v hφ hr t,
    Option.map_map, Option.map_map]
  rfl

theorem mapDisk_step (a : Action) :
    (w.mapDisk φ).step run' a = (w.step run a).map (mapDiskWith φ) := by
  cases a with
  | emit event =>
    simp only [step, mapDisk_emit w hφ hr, Option.map_map]
    rfl
  | emitPlain event =>
    simp only [step, mapDisk_emitPlain w hφ hr, Option.map_map]
    rfl
  | dispatch event =>
    simp only [step, mapDisk_dispatch w hφ hr, Option.map_map]
    rfl
  | runDue now =>
    simp only [step, mapDisk_runDue w hφ hr, Option.map_map]
    rfl
  | runCommand player line =>
    rw [step_runCommand, step_runCommand, mapDisk_runCommand w hφ hr, Option.map_map,
      Option.map_map]
    rfl
  | _ => exact congrArg some (w.mapDisk_performPlain _)

end World

open World

variable [Disk D] [Disk D'] {φ : String → D → D'} (hφ : Disk.Carried φ)

include hφ

/-- Every action is performed on the two disks alike. -/
theorem perform_carried :
    ∀ fuel : Nat, Performer.Carried φ (perform fuel : Performer E D) (perform fuel)
  | 0, _, _ => rfl
  | fuel + 1, a, w => by
    show (World.step (perform fuel) a ((w.note (.began a)).mapDisk φ)).bind _ =
      ((World.step (perform fuel) a (w.note (.began a))).bind _).map _
    rw [mapDisk_step _ hφ (perform_carried fuel)]
    rcases World.step (perform fuel) a (w.note (.began a)) with _ | ⟨v, answer⟩ <;> rfl

namespace World

variable (w : World E D)

theorem mapDisk_evaluate (origin : Origin) (source : String) :
    (w.mapDisk φ).evaluate origin source = mapDiskWith φ (w.evaluate origin source) := by
  unfold evaluate
  dsimp only
  rw [mapDisk_write w hφ, mapDisk_finishRun _ hφ]
  cases (E.load origin.module source).failure <;> rfl

theorem mapDisk_loadSucceeded (module : String) :
    (w.mapDisk φ).loadSucceeded module = (w.loadSucceeded module).mapDisk φ :=
  congrArg (fun v : World E D' => v.notify _) (mapDisk_write w hφ module .clearError)

theorem mapDisk_loadFailed (module detail : String) :
    (w.mapDisk φ).loadFailed module detail = (w.loadFailed module detail).mapDisk φ :=
  congrArg (fun v : World E D' => v.notify _) (mapDisk_writeError (w.broadcast _) hφ module detail)

theorem mapDisk_reload (module : String) (modified : FileTime) (source : String) :
    (w.mapDisk φ).reload module modified source = (w.reload module modified source).mapDisk φ := by
  have hbegin : (w.mapDisk φ).beginLoad module modified =
      (w.beginLoad module modified).mapDisk φ := rfl
  have hid : (w.mapDisk φ).nextId = w.nextId := rfl
  unfold reload
  rw [hbegin, hid, mapDisk_evaluate hφ]
  rcases (w.beginLoad module modified).evaluate ⟨w.nextId, module⟩ source with ⟨v, _ | detail⟩
  · exact congrArg (·.closeRecord module none) (mapDisk_loadSucceeded hφ v module)
  · exact congrArg (·.closeRecord module (some detail)) (mapDisk_loadFailed hφ v module detail)

theorem mapDisk_readFailed (module source : String) :
    (w.mapDisk φ).readFailed module source = (w.readFailed module source).mapDisk φ :=
  congrArg (fun v : World E D' => v.notify _) (mapDisk_writeError (w.note _) hφ module _)

end World

end LiveModules
