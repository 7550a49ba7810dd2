import LiveModules.Proofs.Tellings

/-!
# Who hears an event

`deliveries` are the calls that a stretch of the journal tells of, those made by actions nested in
it left out. A callback by itself delivers nothing: whatever it brings about is an action
(`strides_silent`).
-/

namespace LiveModules

attribute [local irreducible] lastOf

/-- Where somebody is called, their number, and what they hear. -/
abbrev Delivery := Place × Nat × GameEvent

def Entry.delivery? : Entry → Option Delivery
  | .heard place id _ event => some (place, id, event)
  | _ => none

theorem Entry.IsAside.delivery?_eq {e : Entry} (h : e.IsAside) : e.delivery? = none := by
  cases e <;> first | rfl | exact h.elim

/-- Who hears what outside of all actions, in order. -/
def deliveries (entries : List Entry) : List Delivery :=
  (outside (fun _ => true) 0 entries).filterMap Entry.delivery?

namespace World

variable {E : Engine} {u v w w' : World E} {ds ds' : List Delivery}

/-- What is told between `w` and `w'` are whole actions, and besides them these deliveries. -/
def Delivers (ds : List Delivery) (w w' : World E) : Prop :=
  ∃ entries, w.Tells w' entries ∧ deliveries entries = ds

namespace Delivers

theorem of_eq (h : w'.journal = w.journal) : Delivers [] w w' := Says.of_eq h

theorem trans (h : Delivers ds u v) (h' : Delivers ds' v w) : Delivers (ds ++ ds') u w :=
  Says.trans h h'

theorem step {e : Entry} (he : e.IsPlain) (h : w'.journal = w.journal.push e) :
    Delivers e.delivery?.toList w w' :=
  Says.step he h

end Delivers

/-! ## Callbacks -/

theorem finishRun_silent (origin : Origin) (r : Run E.State E.Callback) :
    Delivers [] w (w.finishRun origin r) :=
  finishRun_speaks (fun _ h => h.delivery?_eq) origin r

section Calls

variable {run : Performer E} (hr : ∀ {a w w' r}, run a w = some (w', r) → Delivers [] w w')

include hr

theorem strides_silent (h : Strides run w w') : Delivers [] w w' :=
  strides_say (fun _ h => h.delivery?_eq) hr h

theorem callSubscriber_delivers {place : Place} {event : GameEvent} {m : Member (Subscriber E)}
    {o : Outcome} (h : w.callSubscriber run place event m = some (w', o)) :
    Delivers [(place, m.id, event)] w w' := by
  obtain ⟨label, hs⟩ := callSubscriber_strides h
  have hh : Delivers [(place, m.id, event)] w (w.note (.heard place m.id label event)) :=
    .step (e := .heard ..) trivial rfl
  exact hh.trans (strides_silent hr hs)

omit hr in
theorem dismiss_silent (w : World E) (place : Place) (key : EventKey) (id : Nat) (o : Outcome) :
    Delivers [] w (w.dismiss place key id o) := by
  cases o with
  | leave => cases place <;> exact .step (e := .left _ id) trivial rfl
  | _ => exact .of_eq rfl

/-- Who is still on the list is called; nobody else is. -/
theorem deliver_delivers {place : Place} {event : GameEvent} {m : Member (Subscriber E)}
    {n n' : Nat} (h : deliver run place event (w, n) m = some (w', n')) :
    (w.roster place).contains event.key m.id ∧ Delivers [(place, m.id, event)] w w' ∨
      ¬ (w.roster place).contains event.key m.id ∧ w' = w := by
  obtain ⟨hc, v, o, hv, rfl⟩ | ⟨hc, rfl⟩ := deliver_inv h
  · exact .inl ⟨hc, (callSubscriber_delivers hr hv).trans (dismiss_silent v place event.key m.id o)⟩
  · exact .inr ⟨hc, rfl⟩

theorem callPlan_delivers {event : GameEvent} {id : Nat} {label : String}
    {react : Nat → GameEvent → Plan}
    (h : callListener run event w ⟨id, .plan label react⟩ = some w') :
    Delivers [(.hub, id, event)] w w' := by
  have hh : Delivers [(.hub, id, event)] w (w.note (.heard .hub id (some label) event)) :=
    .step (e := .heard ..) trivial rfl
  exact hh.trans (strides_silent hr (callPlan_strides h))

end Calls

end World

/-- Whatever an action delivers is told inside its brackets. -/
theorem perform_silent {E : Engine} (fuel : Nat) {a : Action} {w w' : World E} {r : Answer}
    (h : perform fuel a w = some (w', r)) : World.Delivers [] w w' :=
  perform_speaks h

end LiveModules
