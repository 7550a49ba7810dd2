import LiveModules.Proofs.Backing
import LiveModules.Proofs.ByteOrder
import LiveModules.Proofs.Ending

/-!
# Where an event goes

An emission is heard by the listeners of its key, then by every module's current surface in the
order of names, then by whoever else hears all events (`emission_fans_out`). Each of the three
tables is looked at when its turn comes; what the lists of surfaces can have become by then is said
by `World.Evolution`.
-/

namespace LiveModules

attribute [local irreducible] lastOf

variable {E : Engine} {L : Licence} {C : FileTree → FileTree → Prop}

namespace World

variable {u v w w' : World E} {event : GameEvent} {module : String} {ids : List Nat}

/-- The turn of a module comes in `u`: between `w` and `w'` the event is delivered to those on the
list then, in their order, who are not taken off before they are called. -/
structure Served (w w' : World E) (event : GameEvent) (module : String) (ids : List Nat) : Prop
    where
  turn : ∃ u u' before during after, Evolution w u before ∧ Evolution u u' during ∧
    Evolution u' w' after ∧ ids.Sublist ((u.subscribers module event.key).map (·.id)) ∧
    ∀ m ∈ u.subscribers module event.key, m.id ∈ ids ∨ Dropped module m during

namespace Served

theorem before {told : List Entry} (h : Served u w event module ids) (he : Evolution v u told) :
    Served v w event module ids := by
  obtain ⟨x, x', b, d, a, hb, hd, ha, hs, hall⟩ := h
  exact ⟨x, x', _, d, a, he.trans hb, hd, ha, hs, hall⟩

theorem after {told : List Entry} (h : Served u v event module ids) (he : Evolution v w told) :
    Served u w event module ids := by
  obtain ⟨x, x', b, d, a, hb, hd, ha, hs, hall⟩ := h
  exact ⟨x, x', b, d, _, hb, hd, ha.trans he, hs, hall⟩

end Served

theorem Evolution.told_prefix {told more : List Entry} (h : Evolution u v told)
    (h' : Evolution u w more) (hj : v.journal.toList <+: w.journal.toList) : told <+: more := by
  rw [h.journal, h'.journal] at hj
  exact (List.prefix_append_right_inj _).1 hj

section Calls

variable {run : Performer E} (hd : ∀ {a w w' r}, run a w = some (w', r) → Delivers [] w w')
  (he : ∀ {a w w' r}, run a w = some (w', r) → Evolves w w')

include hd he

/-- Those of the list who are still on it when they are reached are called, in order. -/
theorem delivers_members (hu : u.Numbered) :
    ∀ {members : List (Member (Subscriber E))} {v v' : World E} {n n' : Nat} {told : List Entry},
      (∀ m ∈ members, m ∈ u.subscribers module event.key) → Evolution u v told →
      members.foldlM (deliver run (.surface module) event) (v, n) = some (v', n') →
      ∃ (ids : List Nat) (more : List Entry),
        Delivers (ids.map fun id => (.surface module, id, event)) v v' ∧
        Evolution u v' more ∧ ids.Sublist (members.map (·.id)) ∧
        ∀ m ∈ members, m.id ∈ ids ∨ Dropped module m more
  | [], v, v', n, n', told, _, ht, h => by
    obtain ⟨rfl, -⟩ := Prod.mk.inj (Option.some.inj h)
    exact ⟨[], told, .of_eq rfl, ht, .slnil, fun m hm => (by cases hm)⟩
  | m :: members, v, v', n, n', told, hm, ht, h => by
    -- `told` is what has happened since the list was taken in `u`
    rw [List.foldlM_cons] at h
    obtain ⟨⟨v₁, n₁⟩, h₁, h₂⟩ := Option.bind_eq_some_iff.1 h
    have hmem := hm m List.mem_cons_self
    have hrest : ∀ x ∈ members, x ∈ u.subscribers module event.key := fun x hx =>
      hm x (List.mem_cons_of_mem _ hx)
    rcases deliver_delivers hd h₁ with ⟨-, hcall⟩ | ⟨hgone, rfl⟩
    · have hev : Evolves u v₁ := (evolves_covers he).deliver hmem (fun _ => ⟨told, ht⟩) h₁
      obtain ⟨told₁, ht₁⟩ := hev hu
      obtain ⟨ids, more, hds, hmore, hsub, hall⟩ := delivers_members hu hrest ht₁ h₂
      refine ⟨m.id :: ids, more, hcall.trans hds, hmore, hsub.cons_cons _, fun x hx => ?_⟩
      rcases List.mem_cons.1 hx with rfl | hx
      · exact .inl List.mem_cons_self
      · exact (hall x hx).imp_left (List.mem_cons_of_mem _)
    · obtain ⟨ids, more, hds, hmore, hsub, hall⟩ := delivers_members hu hrest ht h₂
      refine ⟨ids, more, hds, hmore, hsub.cons _, fun x hx => ?_⟩
      rcases List.mem_cons.1 hx with rfl | hx
      · -- whoever is not on the list any more was taken off it since
        have hdrop := (ht.stays module event.key x hmem).resolve_left fun hx' =>
          hgone (Roster.contains_iff.2 ⟨x, hx', rfl⟩)
        obtain ⟨entries, htells, -⟩ := hds
        have hj : v₁.journal.toList <+: v'.journal.toList := ⟨entries, htells.journal.symm⟩
        exact .inr (hdrop.mono (ht.told_prefix hmore hj).subset)
      · exact hall x hx

theorem dispatch_serves (hw : w.Numbered) {n : Nat}
    (h : w.dispatch run (.surface module) event = some (w', n)) :
    ∃ (ids : List Nat) (told : List Entry),
      Delivers (ids.map fun id => (.surface module, id, event)) w w' ∧
      Evolution w w' told ∧ Served w w' event module ids := by
  obtain ⟨none, hnone⟩ := Evolves.refl w hw
  obtain ⟨ids, told, hds, ht, hsub, hall⟩ := delivers_members hd he hw (fun _ hm => hm) hnone h
  obtain ⟨none', hnone'⟩ := Evolves.refl w' ht.numbered
  exact ⟨ids, told, hds, ht, ⟨w, w', none, told, none', hnone, ht, hnone', hsub, hall⟩⟩

theorem relay_serves : ∀ {modules : List String} {w w' : World E}, modules.Nodup → w.Numbered →
    modules.foldlM (fun w module => do
      let (w, _) ← w.dispatch run (.surface module) event
      return w) w = some w' →
    ∃ (ids : String → List Nat) (told : List Entry),
      Delivers (modules.flatMap fun module => (ids module).map fun id =>
        (.surface module, id, event)) w w' ∧
      Evolution w w' told ∧ ∀ module ∈ modules, Served w w' event module (ids module)
  | [], w, w', _, hw, h => by
    obtain rfl := Option.some.inj h
    obtain ⟨told, ht⟩ := Evolves.refl w hw
    exact ⟨fun _ => [], told, .of_eq rfl, ht, fun _ hm => (by cases hm)⟩
  | module :: modules, w, w', hnd, hw, h => by
    rw [List.foldlM_cons] at h
    obtain ⟨v, hv, h⟩ := Option.bind_eq_some_iff.1 h
    obtain ⟨⟨v₁, n⟩, h₁, hv⟩ := Option.bind_eq_some_iff.1 hv
    obtain rfl := Option.some.inj hv
    obtain ⟨hnot, hnd⟩ := List.nodup_cons.1 hnd
    obtain ⟨first, told, hds, ht, hserved⟩ := dispatch_serves hd he hw h₁
    obtain ⟨ids, more, hds', hm, hrest⟩ := relay_serves hnd ht.numbered h
    have hother : ∀ name ∈ modules, name ≠ module := fun name hn he => hnot (he ▸ hn)
    have hflat : (modules.flatMap fun name => ((Function.update ids module first) name).map
        fun id => ((.surface name, id, event) : Delivery)) =
        modules.flatMap fun name => (ids name).map fun id => (.surface name, id, event) :=
      List.flatMap_congr fun name hn => by rw [Function.update_of_ne (hother name hn)]
    -- the ones who are called in the first module are put beside those of the rest
    refine ⟨Function.update ids module first, told ++ more, ?_, ht.trans hm, fun name hn => ?_⟩
    · rw [List.flatMap_cons, hflat, Function.update_self]
      exact hds.trans hds'
    · rcases List.mem_cons.1 hn with rfl | hn
      · rw [Function.update_self]
        exact hserved.after hm
      · rw [Function.update_of_ne (hother name hn)]
        exact (hrest name hn).before ht

/-- Listeners of the host program are called one after the other, and nobody besides. -/
theorem callPlans_deliver : ∀ {members : List (Member Listener)} {w w' : World E},
    (∀ m ∈ members, m.content ≠ .relay) → members.foldlM (callListener run event) w = some w' →
      Delivers (members.map fun m => (.hub, m.id, event)) w w' ∧ Evolves w w'
  | [], w, w', _, h => by
    obtain rfl := Option.some.inj h
    exact ⟨.of_eq rfl, .refl w⟩
  | ⟨id, .relay⟩ :: members, w, w', hm, h => absurd rfl (hm _ List.mem_cons_self)
  | ⟨id, .plan label react⟩ :: members, w, w', hm, h => by
    rw [List.foldlM_cons] at h
    obtain ⟨v, hv, h⟩ := Option.bind_eq_some_iff.1 h
    obtain ⟨hds, ht⟩ := callPlans_deliver (fun m hx => hm m (List.mem_cons_of_mem _ hx)) h
    exact ⟨(callPlan_delivers hd hv).trans hds, ((evolves_covers he).callListener hv).trans ht⟩

theorem emitPlain_serves {later : List (Member Listener)} (hw : w.Numbered)
    (hkeyed : ∀ m ∈ w.hub.keyed.listed event.key, m.content ≠ .relay)
    (hany : w.hub.any = ⟨0, .relay⟩ :: later) (hlater : ∀ m ∈ later, m.content ≠ .relay)
    (h : w.emitPlain run event = some w') :
    ∃ (ids : String → List Nat) (told : List Entry),
      Delivers ((w.hub.keyed.listed event.key).map (fun m => (.hub, m.id, event)) ++
        (.hub, 0, event) :: (w.surfaces.keys.flatMap (fun module => (ids module).map fun id =>
          (.surface module, id, event)) ++ later.map fun m => (.hub, m.id, event))) w w' ∧
      Evolution w w' told ∧
      ∀ module ∈ w.surfaces.keys, Served w w' event module (ids module) := by
  rw [emitPlain, Hub.hearers, hany, List.foldlM_append] at h
  obtain ⟨v, hv, h⟩ := Option.bind_eq_some_iff.1 h
  rw [List.foldlM_cons] at h
  obtain ⟨v', hv', h⟩ := Option.bind_eq_some_iff.1 h
  obtain ⟨hds, hev⟩ := callPlans_deliver hd he hkeyed hv
  obtain ⟨hds', hev'⟩ := callPlans_deliver hd he hlater h
  obtain ⟨told, ht⟩ := hev hw
  have hheard : Delivers [(.hub, 0, event)] v (v.note (.heard .hub 0 none event)) :=
    .step (e := .heard ..) trivial rfl
  -- no call changes which modules there are, so the table can be read off before the first one
  obtain ⟨told₁, ht₁⟩ := Evolves.note v (.heard .hub 0 none event) ht.numbered
  have hkeys : (v.note (.heard .hub 0 none event)).surfaces.keys = w.surfaces.keys := ht.keys
  obtain ⟨ids, told₂, hds₂, ht₂, hserved⟩ :=
    relay_serves hd he (Table.keys_nodup _) ht₁.numbered hv'
  obtain ⟨told₃, ht₃⟩ := hev' ht₂.numbered
  rw [hkeys] at hds₂ hserved
  refine ⟨ids, _, hds.trans (hheard.trans (hds₂.trans hds')),
    (ht.trans ht₁).trans (ht₂.trans ht₃), fun module hm => ?_⟩
  exact ((hserved module hm).before (ht.trans ht₁)).after ht₃

end Calls

/-! ## What each module receives -/

/-- Somebody on a list of `key` of the surface is its spawn check or a function of its script. -/
def IsOf (module : String) (surface : Nat) (key : EventKey) (m : Member (Subscriber E)) : Prop :=
  m.content = .spawnCheck surface ∧ key = .tick ∨
    ∃ f, m.content = .script f ∧ f.origin = ⟨surface, module⟩

/-- A call of the module's script failed, and somebody was taken off a list for that. -/
def LeftFailing (module : String) (m : Member (Subscriber E)) (told : List Entry) : Prop :=
  .left (.surface module) m.id ∈ told ∧ ∃ detail, .failed module detail ∈ told

/-- Whom on a module's current surface an event reaches while `told` is told. -/
structure Received (w w' : World E) (event : GameEvent) (told : List Entry) (module : String)
    (ids : List Nat) : Prop where
  /-- Everybody hears it once, in the order of registration. -/
  ascending : ids.Pairwise (· < ·)
  /-- Whoever is listed before hears it, unless they are taken off the list for a failure. -/
  all : ∀ m ∈ w.subscribers module event.key, m.id ∈ ids ∨ LeftFailing module m told
  /-- The turn of the module comes in `u`: those who are listed then hear it, unless they are taken
  off the list for a failure meanwhile, and nobody else does. They belong to the surface that is
  current. -/
  turn : ∃ u before during after, told = before ++ during ++ after ∧ Evolution w u before ∧
    (∀ id ∈ ids, ∃ m ∈ u.subscribers module event.key, m.id = id) ∧
    ∀ m ∈ u.subscribers module event.key, (m.id ∈ ids ∨ LeftFailing module m during) ∧
      ∃ surface, w.surfaceId? module = some surface ∧ surface < m.id ∧
        IsOf module surface event.key m
  /-- No subscription under another key hears it, neither an old one nor a new one. -/
  others : ∀ key ≠ event.key, (∀ m ∈ w.subscribers module key, m.id ∉ ids) ∧
    ∀ m ∈ w'.subscribers module key, m.id ∉ ids

theorem leftFailing_of_dropped {told : List Entry} {key : EventKey} {surface : Nat}
    {m : Member (Subscriber E)} (h : Dropped module m told) (hm : IsOf module surface key m) :
    LeftFailing module m told := by
  rcases hm with ⟨hcheck, -⟩ | ⟨f, hf, ho⟩
  · exact absurd hcheck (h.check surface)
  · obtain ⟨detail, hfail⟩ := h.script f hf
    rw [ho] at hfail
    exact ⟨h.left, detail, hfail⟩

theorem Served.received {told : List Entry} (h : Served w w' event module ids) (hn : w.Numbered)
    (hw : w.Wired) (hj : w'.journal.toList = w.journal.toList ++ told) :
    Received w w' event told module ids := by
  obtain ⟨u, u', before, during, after, hb, hd, ha, hsub, hall⟩ := h
  -- the journal of `w'` says that nothing else was told
  obtain rfl : told = before ++ (during ++ after) := by
    rw [(hb.trans (hd.trans ha)).journal] at hj
    exact (List.append_cancel_left hj).symm
  have hlisted : ∀ id ∈ ids, ∃ m ∈ u.subscribers module event.key, m.id = id := fun id hid =>
    List.mem_map.1 (hsub.subset hid)
  have hown : ∀ m ∈ u.subscribers module event.key, ∃ surface,
      w.surfaceId? module = some surface ∧ surface < m.id ∧
        IsOf module surface event.key m := fun m hm => by
    rcases hb.fresh module event.key m hm with hmw | ⟨hnew, f, hf, hmod, hs⟩
    · exact hw.own module event.key m hmw
    · exact ⟨f.origin.surface, hs, Nat.lt_of_lt_of_le (hw.current module _ hs) hnew,
        .inr ⟨f, hf, by rw [← hmod]⟩⟩
  refine ⟨?_, fun m hm => ?_, ⟨u, before, during, after, (List.append_assoc ..).symm, hb, hlisted,
    fun m hm => ⟨(hall m hm).imp_right fun hdrop => ?_, hown m hm⟩⟩,
    fun key hkey => ⟨fun m hm hid => ?_, fun m hm hid => ?_⟩⟩
  · exact (List.pairwise_map.2 (hb.ordered hw.ordered module event.key)).sublist hsub
  · obtain ⟨surface, -, -, ho⟩ := hw.own module event.key m hm
    rcases hb.stays module event.key m hm with hmu | hdrop
    · refine (hall m hmu).imp_right fun hdrop =>
        leftFailing_of_dropped (hdrop.mono fun e he => ?_) ho
      exact List.mem_append_right _ (List.mem_append_left _ he)
    · exact .inr (leftFailing_of_dropped (hdrop.mono (List.subset_append_left ..)) ho)
  · obtain ⟨surface, -, -, ho⟩ := hown m hm
    exact leftFailing_of_dropped hdrop ho
  · -- a number that was given out before is on the same list still
    obtain ⟨x, hx, hxid⟩ := hlisted m.id hid
    rcases hb.fresh module event.key x hx with hxw | ⟨hnew, -⟩
    · exact hkey (hn.unique (.surface module) key event.key m hm x hxw hxid.symm).1
    · have := hn.lt (.surface module) key m hm
      omega
  · obtain ⟨x, hx, hxid⟩ := hlisted m.id hid
    rcases (hd.trans ha).fresh module key m hm with hmu | ⟨hnew, -⟩
    · exact hkey (hb.numbered.unique (.surface module) key event.key m hmu x hx hxid.symm).1
    · have := hb.numbered.lt (.surface module) event.key x hx
      omega

/-- Where an emitted event goes, `ids` being those who hear it on the surface of each module. -/
structure FannedOut (event : GameEvent) (w w' : World E) (r : Answer) (entries : List Entry)
    (ids : String → List Nat) : Prop where
  told : w'.journal.toList = w.journal.toList ++
    .began (.emit event) :: (entries ++ [.ended (.emit event) r])
  /-- First the listeners of the key, then the relay and every module with a surface, then the
  others who hear all events; emissions and other actions nested in this one are left out. -/
  deliveries : ∃ later, w.hub.any = ⟨0, .relay⟩ :: later ∧ deliveries entries =
    (w.hub.keyed.listed event.key).map (fun m => (.hub, m.id, event)) ++ (.hub, 0, event) ::
      (w.surfaces.keys.flatMap (fun module => (ids module).map fun id =>
        (.surface module, id, event)) ++ later.map fun m => (.hub, m.id, event))
  order : w.surfaces.keys.Pairwise fun a b => Text.utf8 a < Text.utf8 b
  received : ∀ module ∈ w.surfaces.keys,
    Received w w' event (.began (.emit event) :: (entries ++ [.ended (.emit event) r])) module
      (ids module)

theorem fannedOut {fuel : Nat} {r : Answer} (hn : w.Numbered) (hw : w.Wired)
    (h : perform fuel (.emit event) w = some (w', r)) :
    ∃ entries ids, Closed entries ∧ FannedOut event w w' r entries ids := by
  obtain ⟨n, v, rfl, hs, rfl⟩ := perform_cases h
  cases hs with
  | plain a hemit _ => exact absurd rfl (hemit event)
  | @emit _ _ b hv =>
    rw [emit_eq] at hv
    obtain ⟨x, hx, he⟩ := Option.map_eq_some_iff.1 hv
    obtain ⟨rfl, -⟩ := Prod.mk.inj he
    obtain ⟨later, hany, hlater⟩ := hw.any
    have hbegin : Evolves w ((w.note (.began (.emit event))).setFlag false) :=
      (Evolves.note w _).trans (.of_eq rfl rfl rfl rfl)
    obtain ⟨before, hb⟩ := hbegin hn
    obtain ⟨ids, told, ⟨entries, htells, hds⟩, ht, hserved⟩ :=
      emitPlain_serves (fun h => perform_silent n h) (fun h => evolves_pervades.perform n h)
        hb.numbered (hw.keyed event.key) hany hlater hx
    have hend : Evolves x ((x.setFlag w.flag).note (.ended (.emit event) (.flag b))) :=
      Evolves.trans (v := x.setFlag w.flag) (.of_eq rfl rfl rfl rfl) (.note _ _)
    obtain ⟨after, ha⟩ := hend ht.numbered
    have hbody : (w.note (.began (.emit event))).Tells (x.setFlag w.flag) entries :=
      ⟨htells.journal, htells.closed⟩
    refine ⟨entries, ids, htells.closed, hbody.block.journal, ⟨later, hany, hds⟩,
      w.surfaces.keys_ascending.imp fun hlt => Text.utf8_lt_of_compare hlt,
      fun module hm => ?_⟩
    exact (((hserved module hm).before hb).after ha).received hn hw hbody.block.journal

end World

open World

/-- An emission is heard in one call by the listeners of its key, then by each module's current
surface in the order of the bytes of the names, then by the others who hear all events: on a surface
by those who are listed under the very key, in the order of registration, each once
(`World.Received`). Nothing that happens in one module keeps those of another from hearing it. What
was listed on a surface that was superseded since hears nothing, and a scoped key is another one
than the unscoped key that is shown alike. Where nobody but the modules hears the hub, the call
comes to its end. -/
theorem emission_fans_out {s₀ s : Site E} (h : Site.Run L C s₀ s) :
    s.world.Backed ∧
    (∀ a b, (EventKey.withSubject a b).display = (EventKey.unscoped (a ++ ":" ++ b)).display ∧
      EventKey.withSubject a b ≠ EventKey.unscoped (a ++ ":" ++ b)) ∧
    ∀ w, Passes L s₀.world w →
      (∀ fuel event w' r, perform fuel (.emit event) w = some (w', r) →
        ∃ entries ids, Closed entries ∧ FannedOut event w w' r entries ids ∧
          ∀ v, Passes L s₀.world v → Passes L v w → ∀ module ∈ w.surfaces.keys,
            w.surfaceId? module ≠ v.surfaceId? module →
            ∀ key, ∀ m ∈ v.subscribers module key, m.id ∉ ids module) ∧
      (w.hub.any = [⟨0, .relay⟩] → (∀ key, w.hub.keyed.listed key = []) →
        ∀ fuel event, ∃ w' r, perform (fuel + 2) (.emit event) w = some (w', r)) := by
  refine ⟨h.backed, fun a b => ⟨rfl, by simp [EventKey.withSubject, EventKey.unscoped]⟩,
    fun w hw => ?_⟩
  have hn := (h.licensed hw).numbered
  have hwired := h.wired hw
  refine ⟨fun fuel event w' r hp => ?_, fun hany hkeyed fuel event =>
    perform_emit_ends event (hwired.modulesOnly hn hany hkeyed) fuel⟩
  obtain ⟨entries, ids, hc, hf⟩ := fannedOut hn hwired hp
  refine ⟨entries, ids, hc, hf, fun v hv hvw module hm hne key m hmem hid => ?_⟩
  -- the number was given out before the surface that is current now was made
  obtain ⟨u, _, _, _, -, -, hlisted, hturn⟩ := (hf.received module hm).turn
  obtain ⟨x, hx, hxid⟩ := hlisted m.id hid
  obtain ⟨-, surface, hs, hlt, -⟩ := hturn x hx
  obtain ⟨surface', hs', hle⟩ := (superseded_le hvw module).resolve_left hne
  have hmv := (h.licensed hv).numbered.lt (.surface module) key m hmem
  rw [hs, Option.some.injEq] at hs'
  omega

/-- The entry tells of a failure of the module. -/
def Entry.fails (module : String) : Entry → Bool
  | .failed name _ => name = module
  | _ => false

/-- The text `first` makes a handler of the scoped event that fails; any other text makes one of it
and one of the unscoped event that is shown alike, and neither fails. -/
def namesakes : Engine :=
  .ofRuns (fun text =>
    (if text = "first" then [.handler (.withSubject "say" "x") 0]
      else [.handler (.withSubject "say" "x") 1, .handler (.unscoped "say:x") 1], none))
    fun f => ([], if f = 0 then some "too loud" else none)

/-- One module's handler fails, that of the next one hears the event all the same, and the handler
of the event that is shown alike does not. -/
theorem namesake_hears_nothing :
    ∃ (s : Site namesakes) (w : World namesakes) (r : Answer) (entries : List Entry)
      (ids : String → List Nat),
      Site.Run .all (fun _ _ => True) (.start "world" .empty none) s ∧
      perform 1 (.emit ⟨.withSubject "say" "x", []⟩) s.world = some (w, r) ∧
      FannedOut ⟨.withSubject "say" "x", []⟩ s.world w r entries ids ∧
      w.journal.toList.any (Entry.fails "a.lua") ∧
      (∃ m ∈ s.world.subscribers "b.lua" (.withSubject "say" "x"), m.id ∈ ids "b.lua") ∧
      ∃ m ∈ s.world.subscribers "b.lua" (.unscoped "say:x"), m.id ∉ ids "b.lua" := by
  let s₀ : Site namesakes := .start "world" .empty none
  let s₁ := s₀.reload "a.lua" ⟨100, 0⟩ "first"
  let s := s₁.reload "b.lua" ⟨100, 0⟩ "second"
  have hrun : Site.Run .all (fun _ _ => True) s₀ s :=
    ((Site.Run.refl "world" .empty none).tail (.reload s₀ "a.lua" ⟨100, 0⟩ "first" trivial)).tail
      (.reload s₁ "b.lua" ⟨100, 0⟩ "second" trivial)
  have hact : ((perform 1 (.emit ⟨.withSubject "say" "x", []⟩) s.world).map fun r =>
      (r.1.journal.toList.any (Entry.fails "a.lua"),
        r.1.journal.toList.any (Entry.fails "b.lua"))) = some (true, false) := by decide +kernel
  obtain ⟨⟨w, r⟩, hw, he⟩ := Option.map_eq_some_iff.1 hact
  obtain ⟨hfail, hfine⟩ := Prod.mk.inj he
  obtain ⟨entries, ids, -, hf, -⟩ :=
    ((emission_fans_out hrun).2.2 s.world hrun.passes).1 1 _ w r hw
  have hreceived := hf.received "b.lua" (by decide +kernel)
  have hscoped : (s.world.subscribers "b.lua" (.withSubject "say" "x")).map (·.id) = [6] := by
    decide +kernel
  have hunscoped : (s.world.subscribers "b.lua" (.unscoped "say:x")).map (·.id) = [7] := by
    decide +kernel
  obtain ⟨m, hm, -⟩ := List.mem_map.1 (hscoped ▸ List.mem_singleton_self 6)
  obtain ⟨m', hm', -⟩ := List.mem_map.1 (hunscoped ▸ List.mem_singleton_self 7)
  refine ⟨s, w, r, entries, ids, hrun, hw, hf, hfail, ⟨m, hm, ?_⟩, m', hm', ?_⟩
  · refine (hreceived.all m hm).resolve_right fun ⟨_, detail, hd⟩ => ?_
    have hd' : .failed "b.lua" detail ∈ w.journal.toList :=
      hf.told ▸ List.mem_append_right _ hd
    have hany : w.journal.toList.any (Entry.fails "b.lua") = true :=
      List.any_eq_true.2 ⟨_, hd', by simp [Entry.fails]⟩
    exact absurd (hany.symm.trans hfine) Bool.noConfusion
  · exact (hreceived.others (.unscoped "say:x") (by decide)).1 m' hm'

end LiveModules
