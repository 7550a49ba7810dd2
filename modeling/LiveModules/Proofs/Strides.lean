import LiveModules.Proofs.Brackets
import LiveModules.Proofs.Perform

/-!
# What callbacks do

A callback takes actions, which are performed by `run` and told in brackets; all else that happens
while it is called are small changes. A `Stride` is one or the other. Around the calls stand the
notes on who is called and who leaves: a relation that is kept by all of these (`Covers`) relates
what was before to what is after each way of calling somebody.
-/

namespace LiveModules

open Relation (ReflTransGen)

attribute [local irreducible] lastOf

variable {E : Engine}

/-- The label that a call of a task is noted with. -/
def Task.label? : Task E → Option String
  | .plan label _ => some label
  | .script _ => none

/-- The error that a command fails with. -/
def Outcome.fault? : Outcome → Option HostError
  | .fail e => some e
  | _ => none

/-- Steps that are related one by one are related from the first to the last. -/
theorem foldl_related {σ β : Type} {R : σ → σ → Prop} (hrefl : ∀ s, R s s)
    (htrans : ∀ {s t u}, R s t → R t u → R s u) {f : σ → β → σ} (hf : ∀ s b, R s (f s b)) :
    ∀ (l : List β) (s : σ), R s (l.foldl f s)
  | [], s => hrefl s
  | b :: l, s => htrans (hf s b) (foldl_related hrefl htrans hf l (f s b))

namespace World

/-- One step of a callback, the actions that it takes being performed by `run`. -/
inductive Stride (run : Performer E) : World E → World E → Prop
  | nested {w w'} (a : Action) (r : Answer) : run a w = some (w', r) → Stride run w w'
  | did (w) (a : Action) (r : Answer) : Stride run w (w.note (.did a r))
  | countCall (w) (id : Nat) : Stride run w (w.countCall id)
  | stamp (w) (owner : Owner) (now : Float) :
      Stride run w { w with spawns := w.spawns.stamp owner now }
  | place (w) (room : String) (f : Room → Room) :
      Stride run w { w with game := w.game.updateRoom room f }
  | script (w) (origin : Origin) (r : Run E.State E.Callback) : Stride run w (w.finishRun origin r)
  | failed (w) (module detail : String) : Stride run w (w.note (.failed module detail))
  | write (w) (module : String) (a : ArtifactWrite) : Stride run w (w.write module a)
  | notify (w) (n : Notice) : Stride run w (w.notify n)

abbrev Strides (run : Performer E) : World E → World E → Prop := ReflTransGen (Stride run)

variable {run : Performer E} {w w' : World E}

/-- A run leaves its state first, and then what it asks for is granted. -/
theorem finishRun_related {R : World E → World E → Prop} (hrefl : ∀ w, R w w)
    (htrans : ∀ {u v w}, R u v → R v w → R u w) {origin : Origin}
    (hstate : ∀ w state, R w { w with states := w.states.insert origin.surface state })
    (hgrant : ∀ w r, R w (w.grant origin r)) (w : World E) (r : Run E.State E.Callback) :
    R w (w.finishRun origin r) :=
  htrans (hstate w r.state) (foldl_related hrefl htrans hgrant r.requests _)

theorem follow_strides : ∀ (p : Plan) {w w' : World E} {o : Outcome},
    follow run p w = some (w', o) → Strides run w w'
  | .finish outcome, w, w', o, h => by
    simp only [follow, Option.some.injEq, Prod.mk.injEq] at h
    exact h.1 ▸ .refl
  | .act a next, w, w', o, h => by
    simp only [follow] at h
    obtain ⟨⟨w₁, answer⟩, h₁, h⟩ := Option.bind_eq_some_iff.1 h
    have ha : Stride run w w₁ := .nested a answer h₁
    simp only at h
    split at h
    · exact .head ha (follow_strides (next answer) h)
    · exact .head ha (.head (.did w₁ a answer) (follow_strides (next answer) h))

theorem callScript_strides {f : ScriptFunction E} {args : List Json} {o : Option String}
    (h : w.callScript f args = (w', o)) : Strides run w w' := by
  unfold callScript at h
  split at h
  · exact (Prod.mk.inj h).1 ▸ .refl
  · rename_i state hs
    obtain ⟨rfl, -⟩ := Prod.mk.inj h
    have hf : Stride run w (w.finishRun f.origin (E.call state f.callback args)) := .script ..
    rcases (E.call state f.callback args).failure with _ | detail
    · exact .single hf
    · exact .tail (.single hf) (.failed ..)

theorem placeRules_strides : ∀ (rules : List (SpawnRule Float Owner)) (w : World E)
    (placed : List (SpawnKey × Item)), Strides run w (rules.foldl placeRule (w, placed)).1
  | [], _, _ => .refl
  | rule :: rules, w, placed => by
    rw [List.foldl_cons]
    simp only [placeRule]
    split
    · exact placeRules_strides rules w placed
    · split
      · exact placeRules_strides rules w placed
      · exact .head (.place w rule.key.room _) (placeRules_strides rules _ _)

theorem spawnCheck_strides {owner : Owner} {keys : List SpawnKey}
    (h : w.spawnCheck run owner = some (w', keys)) : Strides run w w' := by
  unfold spawnCheck at h
  obtain ⟨w₂, h₂, h⟩ := Option.bind_eq_some_iff.1 h
  simp only [Option.pure_def, Option.some.injEq, Prod.mk.injEq] at h
  obtain ⟨rfl, -⟩ := h
  have hs : Stride run w { w with spawns := w.spawns.stamp owner w.clock.now } := .stamp ..
  have hp : Strides run w (placeDue (w.spawns.due owner w.clock.now)
      { w with spawns := w.spawns.stamp owner w.clock.now }).1 :=
    .head hs (placeRules_strides _ _ _)
  refine foldlM_keeps (P := Strides run w) ?_ hp h₂
  intro v p v' _ hv hr
  obtain ⟨⟨v₁, answer⟩, h₁, hr⟩ := Option.bind_eq_some_iff.1 hr
  simp only [Option.pure_def, Option.some.injEq] at hr
  exact hr ▸ hv.tail (.nested _ answer h₁)

/-- What is written and said of a failure. -/
theorem report_strides (w : World E) (module detail : String) (n : Notice) :
    Strides run w ((w.writeError module detail).notify n) :=
  .tail (.single (.write w module _)) (.notify _ n)

/-- First it is noted that somebody is called, and with what. -/
theorem callSubscriber_strides {place : Place} {event : GameEvent} {m : Member (Subscriber E)}
    {o : Outcome} (h : w.callSubscriber run place event m = some (w', o)) :
    ∃ label, Strides run (w.note (.heard place m.id label event)) w' := by
  unfold callSubscriber at h
  split at h
  · rename_i label react _
    have hc : Stride run (w.note (.heard place m.id (some label) event))
        ((w.countCall m.id).note (.heard place m.id (some label) event)) := .countCall _ m.id
    exact ⟨some label, .head hc (follow_strides _ h)⟩
  · refine ⟨none, ?_⟩
    simp only at h
    split at h
    · rename_i w₂ hcall
      simp only [Option.some.injEq, Prod.mk.injEq] at h
      exact h.1 ▸ callScript_strides hcall
    · rename_i w₂ detail hcall
      simp only [Option.some.injEq, Prod.mk.injEq] at h
      exact h.1 ▸ (callScript_strides hcall).trans (report_strides ..)
  · obtain ⟨⟨w₂, keys⟩, h₂, h⟩ := Option.bind_eq_some_iff.1 h
    simp only [Option.pure_def, Option.some.injEq, Prod.mk.injEq] at h
    exact ⟨none, h.1 ▸ spawnCheck_strides h₂⟩

theorem callPlan_strides {event : GameEvent} {id : Nat} {label : String}
    {react : Nat → GameEvent → Plan}
    (h : callListener run event w ⟨id, .plan label react⟩ = some w') :
    Strides run (w.note (.heard .hub id (some label) event)) w' := by
  unfold callListener at h
  obtain ⟨⟨w₂, o⟩, h₂, h⟩ := Option.bind_eq_some_iff.1 h
  simp only [Option.pure_def, Option.some.injEq] at h
  have hc : Stride run (w.note (.heard .hub id (some label) event))
      ((w.countCall id).note (.heard .hub id (some label) event)) := .countCall _ id
  exact h ▸ .head hc (follow_strides _ h₂)

/-- Calls the action of a command; the error it fails with comes with the world after it. -/
def invoke (run : Performer E) (key : CommandKey) (call : CommandCall) (w : World E) :
    CommandAction E → Option (World E × Option HostError)
  | .plan id react =>
    let called := (w.countCall id).note (.commanded key (some key.display) call)
    (follow run (react (called.callsOf id - 1) call) called).map fun r => (r.1, r.2.fault?)
  | .script f =>
    match (w.note (.commanded key none call)).callScript f
        [.string call.player, .string call.args] with
    | (w, none) => some (w, none)
    | (w, some detail) =>
      some (w.commandFailed f.origin.module key.verb detail,
        some (.handler f.origin.module key.verb detail))

/-- A line without a command changes nothing; the error of a command is that of its action. -/
theorem runCommand_eq (run : Performer E) (player text : String) (w : World E) :
    w.runCommand run player text =
      ((CommandLine.ofText text).resolve w.game.commands).elim (some (w, .ok false)) fun c =>
        (w.invoke run c.1 ⟨player, (CommandLine.ofText text).rest⟩ c.2.action).map fun r =>
          (r.1, r.2.elim (.ok true) .error) := by
  unfold runCommand
  simp only
  rcases (CommandLine.ofText text).resolve w.game.commands with _ | ⟨key, description, action⟩
  · rfl
  · cases action with
    | plan id react =>
      simp only [Option.elim, invoke, Option.map_map]
      rw [Option.map_eq_bind]
      refine Option.bind_congr fun r _ => ?_
      obtain ⟨v, o⟩ := r
      cases o <;> rfl
    | script f =>
      simp only [Option.elim, invoke]
      rcases (w.note (.commanded key none ⟨player, _⟩)).callScript f _ with ⟨v, _ | detail⟩ <;> rfl

theorem invoke_strides {key : CommandKey} {call : CommandCall} {action : CommandAction E}
    {e : Option HostError} (h : w.invoke run key call action = some (w', e)) :
    ∃ label, Strides run (w.note (.commanded key label call)) w' := by
  unfold invoke at h
  split at h
  · rename_i id react
    obtain ⟨⟨w₂, o⟩, h₂, h⟩ := Option.map_eq_some_iff.1 h
    obtain ⟨rfl, -⟩ := Prod.mk.inj h
    have hc : Stride run (w.note (.commanded key (some key.display) call))
        ((w.countCall id).note (.commanded key (some key.display) call)) := .countCall _ id
    exact ⟨_, .head hc (follow_strides _ h₂)⟩
  · split at h
    · rename_i w₂ hcall
      obtain ⟨rfl, -⟩ := Prod.mk.inj (Option.some.inj h)
      exact ⟨_, callScript_strides hcall⟩
    · rename_i w₂ detail hcall
      obtain ⟨rfl, -⟩ := Prod.mk.inj (Option.some.inj h)
      exact ⟨_, (callScript_strides hcall).trans (report_strides ..)⟩

theorem runCommand_strides {player line : String} {answer : Except HostError Bool}
    (h : w.runCommand run player line = some (w', answer)) :
    w' = w ∨ ∃ key label call, Strides run (w.note (.commanded key label call)) w' := by
  rw [runCommand_eq] at h
  cases hc : (CommandLine.ofText line).resolve w.game.commands with
  | none =>
    rw [hc] at h
    exact .inl (Prod.mk.inj (Option.some.inj h)).1.symm
  | some c =>
    rw [hc] at h
    obtain ⟨⟨w₂, e⟩, h₂, h⟩ := Option.map_eq_some_iff.1 h
    obtain ⟨rfl, -⟩ := Prod.mk.inj h
    obtain ⟨label, hs⟩ := invoke_strides h₂
    exact .inr ⟨_, label, _, hs⟩

theorem fire_strides {t : Timer (Task E)} (h : fire run w t = some w') :
    Strides run (w.note (.fired t.seq t.task.label?)) w' := by
  unfold fire at h
  split at h
  · rename_i label p ht
    obtain ⟨⟨w₂, o⟩, h₂, h⟩ := Option.bind_eq_some_iff.1 h
    simp only [Option.pure_def, Option.some.injEq] at h
    rw [ht]
    exact h ▸ follow_strides _ h₂
  · rename_i f ht
    rw [ht]
    split at h
    · rename_i w₂ hcall
      exact Option.some.inj h ▸ callScript_strides hcall
    · rename_i w₂ detail hcall
      exact Option.some.inj h ▸ (callScript_strides hcall).trans (report_strides ..)

theorem runDue_eq_some {now : Float} {n : Nat} : w.runDue run now = some (w', n) ↔
    (w.timers.due now).foldlM (fire run) { w with timers := w.timers.afterTaking now } = some w' ∧
      n = (w.timers.due now).length := by
  simp only [runDue, Option.bind_eq_bind, Option.bind_eq_some_iff, Option.pure_def,
    Option.some.injEq, Prod.mk.injEq]
  constructor
  · rintro ⟨v, hv, rfl, rfl⟩
    exact ⟨hv, rfl⟩
  · rintro ⟨hv, rfl⟩
    exact ⟨w', hv, rfl, rfl⟩

/-! ## Relations that cover every way of calling somebody -/

/-- `R` relates each world to those that strides and the notes around a call lead to. -/
structure Covers (run : Performer E) (R : World E → World E → Prop) : Prop where
  refl : ∀ w, R w w
  trans : ∀ {u v w}, R u v → R v w → R u w
  stride : ∀ {w w'}, Stride run w w' → R w w'
  hear : ∀ w place id label event, R w (w.note (.heard place id label event))
  /-- Somebody who was listed in `u` is called in `v` and wants to leave. -/
  leave : ∀ {u v w place event m}, m ∈ (u.roster place).listed event.key → R u v →
    v.callSubscriber run place event m = some (w, .leave) → R v w →
    R u ((w.note (.left place m.id)).updateRoster (·.remove event.key m.id) place)
  command : ∀ w key label call, R w (w.note (.commanded key label call))

namespace Covers

variable {R : World E → World E → Prop} (hR : Covers run R)

include hR

theorem strides (h : Strides run w w') : R w w' := by
  induction h with
  | refl => exact hR.refl w
  | tail _ h ih => exact hR.trans ih (hR.stride h)

theorem deliver {u : World E} {place : Place} {event : GameEvent} {m : Member (Subscriber E)}
    {n n' : Nat} (hm : m ∈ (u.roster place).listed event.key) (hu : R u w)
    (h : World.deliver run place event (w, n) m = some (w', n')) : R u w' := by
  obtain ⟨-, w₁, o, h₁, rfl⟩ | ⟨-, rfl⟩ := deliver_inv h
  · obtain ⟨label, hs⟩ := callSubscriber_strides h₁
    have hw₁ := hR.trans (hR.hear w place m.id label event) (hR.strides hs)
    cases o with
    | leave => exact hR.leave hm hu h₁ hw₁
    | _ => exact hR.trans hu hw₁
  · exact hu

theorem dispatch {place : Place} {event : GameEvent} {n : Nat}
    (h : w.dispatch run place event = some (w', n)) : R w w' :=
  foldlM_keeps (P := fun s : World E × Nat => R w s.1)
    (fun _ _ _ hm hs hd => hR.deliver hm hs hd) (hR.refl w) h

theorem relay {event : GameEvent} (h : w.relay run event = some w') : R w w' := by
  refine foldlM_keeps (P := R w) ?_ (hR.refl w) h
  intro v module v' _ hv hd
  obtain ⟨⟨v₁, n⟩, h₁, hd⟩ := Option.bind_eq_some_iff.1 hd
  simp only [Option.pure_def, Option.some.injEq] at hd
  exact hd ▸ hR.trans hv (hR.dispatch h₁)

theorem callListener {event : GameEvent} {m : Member Listener}
    (h : World.callListener run event w m = some w') : R w w' := by
  obtain ⟨id, ⟨label, react⟩ | _⟩ := m
  · exact hR.trans (hR.hear ..) (hR.strides (callPlan_strides h))
  · exact hR.trans (hR.hear ..) (hR.relay h)

theorem emitPlain {event : GameEvent} (h : w.emitPlain run event = some w') : R w w' :=
  foldlM_keeps (P := R w) (fun _ _ _ _ hv hc => hR.trans hv (hR.callListener hc)) (hR.refl w) h

theorem emit {event : GameEvent} {b : Bool} (hflag : ∀ w b, R w (w.setFlag b))
    (h : w.emit run event = some (w', b)) : R w w' := by
  rw [emit_eq] at h
  obtain ⟨v, hv, h⟩ := Option.map_eq_some_iff.1 h
  obtain ⟨rfl, -⟩ := Prod.mk.inj h
  exact hR.trans (hR.trans (hflag w false) (hR.emitPlain hv)) (hflag v w.flag)

theorem runCommand {player line : String} {answer : Except HostError Bool}
    (h : w.runCommand run player line = some (w', answer)) : R w w' := by
  obtain rfl | ⟨key, label, call, hs⟩ := runCommand_strides h
  · exact hR.refl _
  · exact hR.trans (hR.command ..) (hR.strides hs)

end Covers

/-! ## Actions -/

/-- What an action that calls nobody makes of the world. -/
inductive Plain (w : World E) : Action → World E → Prop
  | prevented : Plain w .preventDefault w.preventDefault
  | taken : Plain w .takeDefaultPrevented (w.setFlag false)
  | listen (a : Action) (key : Option EventKey) (label : String)
      (react : Nat → GameEvent → Plan) : Plain w a (w.listen key label react)
  | hub (a : Action) (hub : Hub Listener) : Plain w a { w with hub }
  | command (a : Action) (key : CommandKey) (description : String)
      (react : Nat → CommandCall → Plan) :
      Plain w a { w with
        nextId := w.nextId + 1
        game := w.game.createCommand key ⟨description, .plan w.nextId react⟩ }
  | schedule (a : Action) (module label : String) (due : Float) (task : Plan) :
      Plain w a { w with timers := w.timers.schedule module due (.plan label task) }
  | subscribe (a : Action) (key : EventKey) (label : String) (react : Nat → GameEvent → Plan) :
      Plain w a (w.subscribe key label react)
  /-- The emitter loses members. -/
  | emitter (a : Action) (emitter : Roster (Subscriber E)) :
      (∀ key, ∀ m ∈ emitter.listed key, m ∈ w.emitter.listed key) → Plain w a { w with emitter }
  /-- Nobody who can be called is concerned. -/
  | aside (a : Action) (game : Game (CommandAction E)) (spawns : SpawnTable Float Owner)
      (clock : Clock) : game.commands = w.game.commands →
      game.defaultPrevented = w.game.defaultPrevented → Plain w a { w with game, spawns, clock }

theorem notices_eq (notices : List Notice) (w : World E) : ∃ game, notices.foldl notify w =
    { w with game } ∧ game.commands = w.game.commands ∧
      game.defaultPrevented = w.game.defaultPrevented := by
  induction notices generalizing w with
  | nil => exact ⟨w.game, rfl, rfl, rfl⟩
  | cons n notices ih => exact ih (w.notify n)

theorem plain (w : World E) (a : Action) : Plain w a (w.performPlain a).1 := by
  cases a with
  | preventDefault => exact .prevented
  | takeDefaultPrevented => exact .taken
  | notify notices =>
    obtain ⟨game, he, hc, hf⟩ := notices_eq notices w
    simp only [performPlain, he]
    exact .aside _ game _ _ hc hf
  | on key label react => exact .listen _ (some key) label react
  | onAny label react => exact .listen _ none label react
  | off label =>
    obtain ⟨hub, he, -⟩ := w.unlisten_cases label
    simp only [performPlain, he]
    exact .hub _ hub
  | createCommand key description react => exact .command _ key description react
  | schedule module label due task => exact .schedule _ module label due task
  | subscribe key label react => exact .subscribe _ key label react
  | unsubscribe key label =>
    obtain ⟨emitter, he, hsub⟩ := w.unsubscribe_cases key label
    simp only [performPlain, he]
    exact .emitter _ emitter hsub
  | clear => exact .emitter _ .empty fun _ _ hm => (by cases hm)
  | createRoom id spec =>
    simp only [performPlain, createRoom]
    split <;> exact .aside _ _ _ _ rfl rfl
  | putItem room item | takeItem room item | getItem room item =>
    simp only [performPlain, itemAction]
    split <;> exact .aside _ _ _ _ rfl rfl
  | _ => exact .aside _ _ _ _ rfl rfl

/-- How an action came to its end; the last case is that of actions that call nobody. -/
inductive Stepped (run : Performer E) (w : World E) : Action → World E → Answer → Prop
  | emit {event w' b} : w.emit run event = some (w', b) → Stepped run w (.emit event) w' (.flag b)
  | emitPlain {event w'} : w.emitPlain run event = some w' →
      Stepped run w (.emitPlain event) w' .nothing
  | dispatch {event w' n} : w.dispatch run .emitter event = some (w', n) →
      Stepped run w (.dispatch event) w' (.count n)
  | runDue {now w' n} : w.runDue run now = some (w', n) → Stepped run w (.runDue now) w' (.count n)
  | runCommand {player line w' answer} (r : Answer) :
      w.runCommand run player line = some (w', answer) →
      Stepped run w (.runCommand player line) w' r
  | plain (a : Action) : (∀ event, a ≠ .emit event) → (∀ now, a ≠ .runDue now) →
      Stepped run w a (w.performPlain a).1 (w.performPlain a).2

theorem stepped {a : Action} {r : Answer} (h : w.step run a = some (w', r)) :
    Stepped run w a w' r := by
  unfold step at h
  split at h
  · obtain ⟨⟨w₁, b⟩, h₁, h⟩ := Option.map_eq_some_iff.1 h
    obtain ⟨rfl, rfl⟩ := Prod.mk.inj h
    exact .emit h₁
  · obtain ⟨w₁, h₁, h⟩ := Option.map_eq_some_iff.1 h
    obtain ⟨rfl, rfl⟩ := Prod.mk.inj h
    exact .emitPlain h₁
  · obtain ⟨⟨w₁, n⟩, h₁, h⟩ := Option.map_eq_some_iff.1 h
    obtain ⟨rfl, rfl⟩ := Prod.mk.inj h
    exact .dispatch h₁
  · obtain ⟨⟨w₁, n⟩, h₁, h⟩ := Option.map_eq_some_iff.1 h
    obtain ⟨rfl, rfl⟩ := Prod.mk.inj h
    exact .runDue h₁
  · obtain ⟨⟨w₁, answer⟩, h₁, h⟩ := Option.map_eq_some_iff.1 h
    obtain ⟨rfl, rfl⟩ := Prod.mk.inj h
    exact .runCommand _ h₁
  · rename_i hemit _ _ hrun _
    obtain ⟨rfl, rfl⟩ := Prod.mk.inj (Option.some.inj h)
    exact .plain a hemit hrun

end World

/-- An action is told in brackets. -/
theorem perform_cases {E : Engine} {fuel : Nat} {a : Action} {w w' : World E} {r : Answer}
    (h : perform fuel a w = some (w', r)) : ∃ n v, fuel = n + 1 ∧
      World.Stepped (perform n) (w.note (.began a)) a v r ∧ w' = v.note (.ended a r) := by
  rcases fuel with _ | n
  · cases h
  · obtain ⟨⟨v, answer⟩, hv, h⟩ := Option.bind_eq_some_iff.1 h
    simp only [Option.pure_def, Option.some.injEq, Prod.mk.injEq] at h
    obtain ⟨rfl, rfl⟩ := h
    exact ⟨n, v, rfl, World.stepped hv, rfl⟩

namespace World

/-- `R` relates what was before to what is after everything that actions consist of. -/
structure Pervades (R : World E → World E → Prop) : Prop where
  covers : ∀ {run : Performer E}, (∀ {a w w' r}, run a w = some (w', r) → R w w') → Covers run R
  remark : ∀ w {e : Entry}, e.IsRemark → R w (w.note e)
  flag : ∀ w b, R w (w.setFlag b)
  take : ∀ w now, R w { w with timers := w.timers.afterTaking now }
  plain : ∀ w a, R w (w.performPlain a).1

theorem Pervades.perform {R : World E → World E → Prop} (hR : Pervades R) :
    ∀ (fuel : Nat) {a : Action} {w w' : World E} {r : Answer},
      perform fuel a w = some (w', r) → R w w'
  | 0, _, _, _, _, h => by cases h
  | fuel + 1, a, w, w', r, h => by
    obtain ⟨n, v, hn, hs, rfl⟩ := perform_cases h
    obtain rfl := Nat.succ.inj hn
    have hc : Covers (LiveModules.perform fuel) R := hR.covers fun h => hR.perform fuel h
    have hb : R w (w.note (.began a)) := hR.remark w trivial
    have he : R v (v.note (.ended a r)) := hR.remark v trivial
    suffices R (w.note (.began a)) v from hc.trans (hc.trans hb this) he
    cases hs with
    | emit hv => exact hc.emit hR.flag hv
    | emitPlain hv => exact hc.emitPlain hv
    | dispatch hv => exact hc.dispatch hv
    | runDue hv =>
      refine foldlM_keeps (P := R (w.note (.began _))) ?_ (hR.take _ _) (runDue_eq_some.1 hv).1
      intro v t v' _ hw hf
      have hn : R v (v.note (.fired t.seq t.task.label?)) := hR.remark v trivial
      exact hc.trans (hc.trans hw hn) (hc.strides (fire_strides hf))
    | runCommand r hv => exact hc.runCommand hv
    | plain a _ _ => exact hR.plain _ a

end World

end LiveModules
