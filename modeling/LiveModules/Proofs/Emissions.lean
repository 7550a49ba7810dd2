import LiveModules.Proofs.Channels
import LiveModules.Proofs.Dispatches

/-!
# What an emission does

An emission calls everybody who heard the event when it began, in order, whatever becomes of the
hub meanwhile (`World.CallAll`): who is taken off before their turn is called all the same, and who
comes is not. That is where a hub differs from the rosters of modules.
-/

namespace LiveModules

attribute [local irreducible] lastOf

variable {E : Engine} {L : Licence} {C : FileTree → FileTree → Prop}

/-- The calls of listeners of the hub among others. -/
def hubDeliveries (ds : List Delivery) : List Delivery := ds.filter (·.1 = .hub)

namespace World

/-- Listeners are called one after the other, each of them. -/
inductive CallAll (run : Performer E) (event : GameEvent) :
    List (Member Listener) → World E → World E → Prop
  | done (w) : CallAll run event [] w w
  | call {m members w v w'} : callListener run event w m = some v →
      CallAll run event members v w' → CallAll run event (m :: members) w w'

variable {v w w' : World E} {run : Performer E} {event : GameEvent}
  {members : List (Member Listener)}

theorem callAll_iff : members.foldlM (callListener run event) w = some w' ↔
    CallAll run event members w w' := by
  induction members generalizing w with
  | nil =>
    rw [List.foldlM_nil]
    constructor
    · intro h
      cases h
      exact .done _
    · intro h
      cases h
      rfl
  | cons m members ih =>
    rw [List.foldlM_cons]
    constructor
    · intro h
      obtain ⟨v, hv, h⟩ := Option.bind_eq_some_iff.1 h
      exact .call hv (ih.1 h)
    · rintro (_ | ⟨hv, h⟩)
      rw [hv]
      exact ih.2 h

theorem emitPlain_iff : w.emitPlain run event = some w' ↔
    CallAll run event (w.hub.hearers event.key) w w' :=
  callAll_iff

/-- More fuel changes no call. -/
theorem CallAll.mono {n k : Nat} (hnk : n ≤ k) (h : CallAll (perform n) event members w w') :
    CallAll (perform k) event members w w' := by
  induction h with
  | done => exact .done _
  | call hv _ ih => exact .call (callListener_reaches (perform_mono hnk) _ _ _ _ hv) ih

/-- Where every call that comes up returns, whatever fuel that takes, all are called. -/
theorem CallAll.all (hcalls : ∀ fuel before m after v, members = before ++ m :: after →
      CallAll (perform fuel) event before w v →
      ∃ more, (callListener (perform more) event v m).isSome) :
    ∃ fuel w', CallAll (perform fuel) event members w w' := by
  induction members generalizing w with
  | nil => exact ⟨0, w, .done w⟩
  | cons m members ih =>
    obtain ⟨more, hsome⟩ := hcalls 0 [] m members w rfl (.done w)
    obtain ⟨v, hv⟩ := Option.isSome_iff_exists.1 hsome
    have hcall (fuel : Nat) : callListener (perform (max more fuel)) event w m = some v :=
      callListener_reaches (perform_mono (Nat.le_max_left ..)) _ _ _ _ hv
    obtain ⟨fuel, w', h⟩ := ih fun fuel before m' after v' he hc =>
      hcalls (max more fuel) (m :: before) m' after v' (by rw [he]; rfl)
        (.call (hcall fuel) (hc.mono (Nat.le_max_right ..)))
    exact ⟨max more fuel, w', .call (hcall fuel) (h.mono (Nat.le_max_right ..))⟩

/-! ## Who is called -/

section Calls

variable (hr : ∀ {a w w' r}, run a w = some (w', r) → Delivers [] w w')

include hr

/-- To hand an event on to the surfaces calls no listener. -/
theorem relay_delivers (h : w.relay run event = some w') :
    ∃ ds, Delivers ds w w' ∧ hubDeliveries ds = [] := by
  refine foldlM_keeps (P := fun v => ∃ ds, Delivers ds w v ∧ hubDeliveries ds = []) ?_
    ⟨[], .of_eq rfl, rfl⟩ h
  rintro v module v' - ⟨ds, hds, hhub⟩ hd
  obtain ⟨⟨u, n⟩, hu, he⟩ := Option.bind_eq_some_iff.1 hd
  obtain rfl := Option.some.inj he
  obtain ⟨called, ht, -⟩ := dispatch_iff.1 hu
  refine ⟨_, hds.trans (ht.delivers hr), ?_⟩
  rw [hubDeliveries, List.filter_append, ← hubDeliveries, hhub, List.nil_append,
    List.filter_eq_nil_iff]
  intro d hd
  obtain ⟨id, -, rfl⟩ := List.mem_map.1 hd
  simp

theorem callListener_delivers {m : Member Listener} (h : callListener run event w m = some w') :
    ∃ ds, Delivers ds w w' ∧ hubDeliveries ds = [(.hub, m.id, event)] := by
  obtain ⟨id, ⟨label, react⟩ | _⟩ := m
  · exact ⟨_, callPlan_delivers hr h, rfl⟩
  · have hh : Delivers [(.hub, id, event)] w (w.note (.heard .hub id none event)) :=
      .step (e := .heard ..) trivial rfl
    obtain ⟨ds, hds, hhub⟩ := relay_delivers hr h
    refine ⟨_, hh.trans hds, ?_⟩
    rw [hubDeliveries, List.filter_append, ← hubDeliveries, ← hubDeliveries, hhub]
    rfl

theorem CallAll.delivers (h : CallAll run event members w w') :
    ∃ ds, Delivers ds w w' ∧ hubDeliveries ds = members.map fun m => (.hub, m.id, event) := by
  induction h with
  | done => exact ⟨[], .of_eq rfl, rfl⟩
  | call hv _ ih =>
    obtain ⟨ds, hds, hhub⟩ := callListener_delivers hr hv
    obtain ⟨more, hmore, hmore'⟩ := ih
    refine ⟨_, hds.trans hmore, ?_⟩
    rw [hubDeliveries, List.filter_append, ← hubDeliveries, ← hubDeliveries, hhub, hmore']
    rfl

end Calls

end World

/-! ## What the hub keeps -/

/-- Nobody hears an event twice. -/
theorem Hub.Sound.hearers_nodup {α : Type} {h : Hub α} {given : List Nat} (hs : h.Sound given)
    (key : EventKey) : ((h.hearers key).map (·.id)).Nodup := by
  rw [hearers, List.map_append]
  refine (hs.distinct (some key)).append (hs.distinct none) fun id hk ha => ?_
  obtain ⟨m, hm, rfl⟩ := List.mem_map.1 hk
  obtain ⟨m', hm', hid⟩ := List.mem_map.1 ha
  cases (hs.unique (some key) none m hm m' hm' hid.symm).1

/-- What the host program does to the hub and is answered. -/
structure World.HubLaw (w : World E) : Prop where
  /-- A channel holds as many as were registered, less those who were taken off. Nobody is twice in
  the hub, and no list is empty. -/
  accounted : ∃ ops, w.HubAccounted ops
  listen : ∀ channel label react, (w.listen channel label react).hub =
    (Hub.Op.on channel w.nextId (.plan label react)).apply w.hub
  /-- It is answered whether the listener was there. -/
  unlisten : ∀ label id, w.listenerIds.find? label = some id → w.performPlain (.off label) =
    ({ w with hub := w.hub.off id }, .flag (w.hub.contains id))
  contains : ∀ id, w.hub.contains id = true ↔ ∃ channel, ∃ m ∈ w.hub.channel channel, m.id = id
  /-- All others stay, in their order. -/
  off : ∀ id channel, (w.hub.off id).channel channel =
    (w.hub.channel channel).filter (·.id != id)
  count : ∀ key, w.performPlain (.listenerCount key) =
    (w, .count (w.hub.channel (some key)).length)
  countAny : w.performPlain .anyListenerCount = (w, .count (w.hub.channel none).length)

theorem World.HubAccounted.hubLaw {w : World E} {ops : List (Hub.Op Listener)}
    (h : w.HubAccounted ops) : w.HubLaw where
  accounted := ⟨ops, h⟩
  listen channel label react := by cases channel <;> rfl
  unlisten label id hid := by
    rw [World.performPlain, World.unlisten_of_find? hid]
  contains _ := Hub.contains_iff
  off id channel := Hub.channel_off w.hub id channel
  count _ := rfl
  countAny := rfl

/-- What an emission comes to that calls `listeners`. -/
structure World.Emitted (event : GameEvent) (listeners : List (Member Listener))
    (w w' : World E) : Prop where
  /-- The calls of this emission are told, those of emissions within left out. -/
  told : ∃ entries, w.Tells w' entries ∧
    hubDeliveries (deliveries entries) = listeners.map fun m => (.hub, m.id, event)
  /-- What callbacks do to the hub adds to its history. -/
  grows : ∀ ops, w.HubAccounted ops → ∃ more, w'.HubAccounted (ops ++ more)
  law : w'.HubLaw

theorem World.CallAll.emitted {w w' : World E} {event : GameEvent} {fuel : Nat}
    (hw : w.Licensed L) (ha : ∃ ops, w.HubAccounted ops)
    (h : CallAll (perform fuel) event (w.hub.hearers event.key) w w') :
    Emitted event (w.hub.hearers event.key) w w' := by
  obtain ⟨_, ⟨entries, ht, rfl⟩, hhub⟩ := h.delivers fun h => perform_silent fuel h
  have hp := (emitPlain_moves (perform_moves fuel) hw (emitPlain_iff.2 h)).turns.passes
  obtain ⟨ops, ha⟩ := ha
  obtain ⟨more, ha'⟩ := ha.passes hp
  exact ⟨⟨entries, ht, hhub⟩, fun _ h => h.passes hp, ha'.hubLaw⟩

/-- An emission calls the listeners that its key has when it begins, then those of all events, each
in the order of registration and once, whatever becomes of the hub meanwhile, and no others. It ends
where each of the calls does, and fuel has no part in how. After any history of a hub its channels
hold those who were registered, less those who were taken off. -/
theorem emission_calls_all {s₀ s : Site E} (h : Site.Run L C s₀ s) {w : World E}
    (hw : Passes L s₀.world w) (event : GameEvent) :
    let listeners := w.hub.channel (some event.key) ++ w.hub.channel none
    w.HubLaw ∧ (listeners.map (·.id)).Nodup ∧
    (∀ fuel w', w.emitPlain (perform fuel) event = some w' ↔
      World.CallAll (perform fuel) event listeners w w' ∧ World.Emitted event listeners w w') ∧
    (∀ fuel more w', fuel ≤ more → w.emitPlain (perform fuel) event = some w' →
      w.emitPlain (perform more) event = some w') ∧
    ((∀ fuel before m after v, listeners = before ++ m :: after →
        World.CallAll (perform fuel) event before w v →
        ∃ more, (World.callListener (perform more) event v m).isSome) →
      ∃ fuel w', w.emitPlain (perform fuel) event = some w') ∧
    ∀ ops : List (Hub.Op Listener), (ops.filterMap Hub.Op.id?).Nodup →
      (Hub.empty.replay ops).Accounted ops := by
  intro listeners
  obtain ⟨ops, ha⟩ := h.hub_accounted hw
  refine ⟨ha.hubLaw, ha.1.sound.hearers_nodup event.key, fun fuel w' => ?_,
    fun fuel more w' hle he => ?_, fun hcalls => ?_, fun _ => Hub.accounted⟩
  · rw [World.emitPlain_iff]
    exact ⟨fun hc => ⟨hc, hc.emitted (h.licensed hw) ⟨ops, ha⟩⟩, And.left⟩
  · exact World.emitPlain_reaches (perform_mono hle) event w w' he
  · obtain ⟨fuel, w', hall⟩ := World.CallAll.all hcalls
    exact ⟨fuel, w', World.emitPlain_iff.2 hall⟩

/-- A listener that stays out of the way. -/
def onlooker (_ : Nat) (_ : GameEvent) : Plan := .finish .keep

/-- A listener that takes the next one off and brings in another. -/
def rival (_ : Nat) (_ : GameEvent) : Plan :=
  .ofList .keep [.off "second", .on .tick "fourth" onlooker]

/-- The second is taken off before its turn and called all the same; the fourth is not. -/
theorem ousted_listener_called :
    ∃ (s : Site (.ofRuns (fun _ => ([], none)) fun _ => ([], none)))
      (w' : World (.ofRuns (fun _ => ([], none)) fun _ => ([], none))) (entries : List Entry),
      (Site.start "world" .empty none).actAll 2 [.on .tick "first" rival,
        .on .tick "second" onlooker, .onAny "third" onlooker] = some s ∧
      s.world.emitPlain (perform 2) Site.tickEvent = some w' ∧ s.world.Tells w' entries ∧
      hubDeliveries (deliveries entries) =
        [1, 2, 0, 3].map (fun id => (.hub, id, Site.tickEvent)) ∧
      (w'.hub.channel (some .tick)).map (·.id) = [1, 4] ∧ w'.HubLaw := by
  have hrun : ((Site.start "world" .empty none : Site (.ofRuns (fun _ => ([], none))
      fun _ => ([], none))).actAll 2 [.on .tick "first" rival, .on .tick "second" onlooker,
        .onAny "third" onlooker]).bind (fun s =>
      (s.world.emitPlain (perform 2) Site.tickEvent).map fun w' =>
        ((s.world.hub.channel (some .tick) ++ s.world.hub.channel none).map (·.id),
          (w'.hub.channel (some .tick)).map (·.id))) = some ([1, 2, 0, 3], [1, 4]) := by
    decide +kernel
  obtain ⟨s, hs, he⟩ := Option.bind_eq_some_iff.1 hrun
  obtain ⟨w', he, hids⟩ := Option.map_eq_some_iff.1 he
  obtain ⟨hbefore, hafter⟩ := Prod.mk.inj hids
  have h : Site.Run .all (fun _ _ => True) (Site.start "world" .empty none) s :=
    (Site.Run.refl "world" .empty none).actAll (fun _ _ => trivial) hs
  obtain ⟨-, -, hcalls, -⟩ := emission_calls_all h h.passes Site.tickEvent
  obtain ⟨-, ⟨entries, ht, hhub⟩, -, hlaw⟩ := (hcalls 2 w').1 he
  refine ⟨s, w', entries, hs, he, ht, ?_, hafter, hlaw⟩
  rw [hhub, ← hbefore, List.map_map]
  rfl

end LiveModules
