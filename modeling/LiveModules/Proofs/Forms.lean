import LiveModules.World.Registry

/-!
# The parts of an action

What is done one after the other in a part of an action, as maps and folds of the parts beneath.
-/

namespace LiveModules

namespace World

variable {E : Engine} {D : Type}

/-- Calls a plan of the host program, which is told how often it was called before. -/
def callPlan (run : Performer E D) (id : Nat) (e : Entry) (react : Nat → Plan) (w : World E D) :
    Option (World E D × Outcome) :=
  follow run (react (((w.countCall id).note e).callsOf id - 1)) ((w.countCall id).note e)

/-- The world when the items that are due to an owner have been placed, and these items. -/
def restocked (w : World E D) (owner : Owner) : World E D × List (SpawnKey × Item) :=
  placeDue (w.spawns.due owner w.clock.now)
    { w with spawns := w.spawns.stamp owner w.clock.now }

theorem spawnCheck_eq (run : Performer E D) (owner : Owner) (w : World E D) :
    w.spawnCheck run owner =
      ((w.restocked owner).2.foldlM
        (fun v p => (run (.emit (spawnEvent p.1 p.2)) v).map (·.1)) (w.restocked owner).1).map
      fun v => (v, (w.restocked owner).2.map (·.1)) := by
  rw [Option.map_eq_bind]
  unfold spawnCheck restocked
  simp only [Option.map_eq_bind]
  rfl

/-- The world when somebody who was called is gone, if they want to leave. -/
def dismiss (w : World E D) (place : Place) (key : EventKey) (id : Nat) : Outcome → World E D
  | .leave => (w.note (.left place id)).updateRoster (·.remove key id) place
  | _ => w

def flag (w : World E D) : Bool := w.game.defaultPrevented

def setFlag (w : World E D) (b : Bool) : World E D :=
  { w with game := { w.game with defaultPrevented := b } }

variable [Disk D] {run : Performer E D} {w : World E D}

theorem callScript_of_state {f : ScriptFunction E} {state : E.State}
    (h : w.states.find? f.origin.surface = some state) (args : List Json) :
    w.callScript f args =
      ((w.finishRun f.origin (E.call state f.callback args)).noteFailure f.origin.module
        (E.call state f.callback args).failure, (E.call state f.callback args).failure) := by
  unfold callScript
  rw [h]

theorem callScript_of_no_state {f : ScriptFunction E}
    (h : w.states.find? f.origin.surface = none) (args : List Json) :
    w.callScript f args = (w, none) := by
  unfold callScript
  rw [h]

/-- Who was called leaves if they want to. -/
theorem deliver_eq {place : Place} {event : GameEvent} {m : Member (Subscriber E)} {n : Nat}
    (hc : (w.roster place).contains event.key m.id = true) :
    deliver run place event (w, n) m =
      (w.callSubscriber run place event m).map fun r =>
        (r.1.dismiss place event.key m.id r.2, n + 1) := by
  unfold deliver
  simp only [hc, ↓reduceIte, Option.map_eq_bind]
  congr 1
  funext r
  obtain ⟨v, o⟩ := r
  cases o <;> rfl

theorem deliver_skip {place : Place} {event : GameEvent} {m : Member (Subscriber E)} {n : Nat}
    (hc : ¬ (w.roster place).contains event.key m.id = true) :
    deliver run place event (w, n) m = some (w, n) :=
  if_neg hc

/-- An emission begins without the flag, answers whether it is set in the end, and puts back what it
found. -/
theorem emit_eq (run : Performer E D) (event : GameEvent) (w : World E D) :
    w.emit run event =
      ((w.setFlag false).emitPlain run event).map fun v => (v.setFlag w.flag, !v.flag) := by
  have hput (v : World E D) (b : Bool) :
      { v with game :=
        if b then v.game.takeDefaultPrevented.2.preventDefault
        else v.game.takeDefaultPrevented.2 } = v.setFlag b := by
    cases b <;> rfl
  show ((w.setFlag false).emitPlain run event).bind (fun v => some ({ v with game :=
    if w.flag then v.game.takeDefaultPrevented.2.preventDefault
    else v.game.takeDefaultPrevented.2 }, !v.flag)) = _
  simp only [hput]
  rw [Option.map_eq_bind]
  rfl

theorem runDue_eq (now : Float) : w.runDue run now =
    ((w.timers.due now).foldlM (fire run) { w with timers := w.timers.afterTaking now }).map
      fun v => (v, (w.timers.due now).length) := by
  rw [Option.map_eq_bind]
  rfl

/-- The answer that a command line comes to. -/
def answerOf : Except HostError Bool → Answer
  | .ok b => .flag b
  | .error e => .failed e

theorem step_runCommand (run : Performer E D) (player line : String) (w : World E D) :
    w.step run (.runCommand player line) =
      (w.runCommand run player line).map fun b => (b.1, answerOf b.2) := by
  simp only [step]
  refine Option.map_congr fun b _ => ?_
  rcases b with ⟨v, _ | b⟩ <;> rfl

end World

end LiveModules
