import LiveModules.Proofs.Wiring

/-!
# Emissions that come to an end

Listeners of the host program may emit for ever. Scripts do not: they never wait for the host, and a
spawn check, which hears nothing but ticks, emits events that are no ticks. So where nobody hears
the hub but the modules, every emission ends, nested two deep at most (`perform_emit_ends`).
-/

namespace LiveModules

attribute [local irreducible] lastOf

variable {E : Engine}

theorem foldlM_ends {σ β : Type} {P : σ → Prop} {f : σ → β → Option σ} :
    ∀ {l : List β} {s : σ}, (∀ s b, b ∈ l → P s → ∃ s', f s b = some s' ∧ P s') → P s →
      ∃ s', l.foldlM f s = some s' ∧ P s'
  | [], s, _, hs => ⟨s, rfl, hs⟩
  | b :: l, s, hf, hs => by
    obtain ⟨s₁, h₁, hs₁⟩ := hf s b List.mem_cons_self hs
    obtain ⟨s', h', hs'⟩ := foldlM_ends (fun s b hb => hf s b (List.mem_cons_of_mem _ hb)) hs₁
    refine ⟨s', ?_, hs'⟩
    rw [List.foldlM_cons, h₁]
    exact h'

namespace World

variable {u w w' : World E} {event : GameEvent}

/-- Nobody hears the hub but the modules. -/
structure ModulesOnly (w : World E) : Prop where
  numbered : w.Numbered
  any : w.hub.any = [⟨0, .relay⟩]
  keyed : ∀ key, w.hub.keyed.listed key = []
  members : ∀ module key, ∀ m ∈ w.subscribers module key,
    (∃ surface, m.content = .spawnCheck surface) ∧ key = .tick ∨ ∃ f, m.content = .script f

theorem Wired.modulesOnly (h : w.Wired) (hn : w.Numbered) (hany : w.hub.any = [⟨0, .relay⟩])
    (hkeyed : ∀ key, w.hub.keyed.listed key = []) : w.ModulesOnly := by
  refine ⟨hn, hany, hkeyed, fun module key m hm => ?_⟩
  obtain ⟨surface, -, -, ⟨hc, hk⟩ | ⟨f, hf, -⟩⟩ := h.own module key m hm
  · exact .inl ⟨⟨surface, hc⟩, hk⟩
  · exact .inr ⟨f, hf⟩

theorem ModulesOnly.evolve (h : w.ModulesOnly) (hh : w'.hub = w.hub) (he : Evolves w w') :
    w'.ModulesOnly := by
  obtain ⟨told, ht⟩ := he h.numbered
  refine ⟨ht.numbered, hh ▸ h.any, hh ▸ h.keyed, fun module key m hm => ?_⟩
  rcases ht.fresh module key m hm with hm | ⟨-, f, hf, -⟩
  · exact h.members module key m hm
  · exact .inr ⟨f, hf⟩

/-- The emissions that tell of spawned items end, and leave the hub alone. -/
def SpawnsEnd (run : Performer E) : Prop :=
  ∀ (v : World E) (key : SpawnKey) (item : Item), v.ModulesOnly →
    ∃ v' r, run (.emit (spawnEvent key item)) v = some (v', r) ∧ v'.hub = v.hub

/-! ## What leaves the hub alone -/

theorem grant_hub (origin : Origin) (r : Request E.Callback) : (w.grant origin r).hub = w.hub := by
  cases r with
  | handler key callback => exact subscribeScript_hub ⟨origin, callback⟩ key
  | _ => rfl

theorem finishRun_hub (origin : Origin) (r : Run E.State E.Callback) :
    (w.finishRun origin r).hub = w.hub :=
  finishRun_related (R := fun w w' => w'.hub = w.hub) (fun _ => rfl) (fun h h' => h'.trans h)
    (fun _ _ => rfl) (fun _ => grant_hub origin) w r

theorem callScript_hub (f : ScriptFunction E) (args : List Json) :
    (w.callScript f args).1.hub = w.hub := by
  unfold callScript
  split
  · rfl
  · rename_i state _
    simp only
    rcases (E.call state f.callback args).failure with _ | detail
    · exact finishRun_hub ..
    · exact finishRun_hub ..

theorem placeRules_hub : ∀ (rules : List (SpawnRule Float Owner)) (w : World E)
    (placed : List (SpawnKey × Item)), (rules.foldl placeRule (w, placed)).1.hub = w.hub
  | [], _, _ => rfl
  | rule :: rules, w, placed => by
    rw [List.foldl_cons]
    simp only [placeRule]
    split
    · exact placeRules_hub rules w placed
    · split
      · exact placeRules_hub rules w placed
      · exact placeRules_hub rules _ _

/-! ## Calls -/

section Calls

variable {run : Performer E} (he : ∀ {a w w' r}, run a w = some (w', r) → Evolves w w')

include he

theorem spawnCheck_ends (owner : Owner) (hw : w.ModulesOnly) (hrun : SpawnsEnd run) :
    ∃ w' keys, w.spawnCheck run owner = some (w', keys) ∧ w'.hub = w.hub := by
  let v := (placeDue (w.spawns.due owner w.clock.now)
    { w with spawns := w.spawns.stamp owner w.clock.now })
  have hstrides : Strides run w v.1 :=
    .head (.stamp w owner w.clock.now) (placeRules_strides _ _ _)
  have hhub : v.1.hub = w.hub := placeRules_hub _ _ _
  have hv : v.1.ModulesOnly := hw.evolve hhub ((evolves_covers he).strides hstrides)
  obtain ⟨w', h', hh, -⟩ := foldlM_ends (P := fun x : World E => x.hub = w.hub ∧ x.ModulesOnly)
    (f := fun x p => (run (.emit (spawnEvent p.1 p.2)) x).bind fun r => some r.1)
    (l := v.2) (s := v.1) (fun x p _ ⟨hx, hm⟩ => by
        obtain ⟨x', r, hx', hh⟩ := hrun x p.1 p.2 hm
        refine ⟨x', ?_, hh.trans hx, hm.evolve hh (he hx')⟩
        rw [hx']
        rfl) ⟨hhub, hv⟩
  refine ⟨w', v.2.map (·.1), ?_, hh⟩
  unfold spawnCheck
  show (v.2.foldlM (fun x p => (run (.emit (spawnEvent p.1 p.2)) x).bind fun r => some r.1)
    v.1).bind _ = _
  rw [h']
  rfl

theorem callSubscriber_ends (place : Place) {m : Member (Subscriber E)} (hw : w.ModulesOnly)
    (hm : (∃ surface, m.content = .spawnCheck surface) ∧ event.key = .tick ∨
      ∃ f, m.content = .script f)
    (hrun : event.key = .tick → SpawnsEnd run) :
    ∃ w' o, w.callSubscriber run place event m = some (w', o) ∧ w'.hub = w.hub := by
  have hheard : (w.note (.heard place m.id none event)).ModulesOnly :=
    hw.evolve rfl (.note w _)
  obtain ⟨⟨surface, hc⟩, hk⟩ | ⟨f, hc⟩ := hm
  · obtain ⟨w', keys, h', hh⟩ := spawnCheck_ends he (.surface surface) hheard (hrun hk)
    refine ⟨w', .keep, ?_, hh⟩
    unfold callSubscriber
    rw [hc]
    simp only [h']
    rfl
  · have hh := callScript_hub (w := w.note (.heard place m.id none event)) f event.args
    unfold callSubscriber
    rw [hc]
    simp only
    rcases hcall : (w.note (.heard place m.id none event)).callScript f event.args with
      ⟨w', _ | detail⟩ <;> rw [hcall] at hh
    · exact ⟨_, _, rfl, hh⟩
    · exact ⟨_, _, rfl, hh⟩

theorem dispatch_ends (module : String) (hu : u.ModulesOnly)
    (hrun : event.key = .tick → SpawnsEnd run) :
    ∃ u' n, u.dispatch run (.surface module) event = some (u', n) ∧ u'.hub = u.hub := by
  -- who is called was listed in `u`; `Evolves u` says that only they can be taken off since
  obtain ⟨⟨u', n⟩, h', hh, -⟩ := foldlM_ends
    (P := fun s : World E × Nat => s.1.hub = u.hub ∧ Evolves u s.1)
    (f := deliver run (.surface module) event) (l := u.subscribers module event.key) (s := (u, 0))
    (fun ⟨v, n⟩ m hm ⟨hv, hev⟩ => by
      suffices ∃ s', deliver run (.surface module) event (v, n) m = some s' ∧ s'.1.hub = v.hub by
        obtain ⟨⟨v', n'⟩, h', hh⟩ := this
        exact ⟨(v', n'), h', hh.trans hv, (evolves_covers he).deliver hm hev h'⟩
      by_cases hc : (v.roster (.surface module)).contains event.key m.id = true
      · obtain ⟨v', o, h', hh⟩ := callSubscriber_ends he (.surface module)
          (hu.evolve hv hev) (hu.members module event.key m hm) hrun
        rw [deliver_eq hc, h']
        cases o with
        | leave => exact ⟨_, rfl, hh⟩
        | _ => exact ⟨_, rfl, hh⟩
      · exact ⟨_, deliver_skip hc, rfl⟩) ⟨rfl, .refl u⟩
  exact ⟨u', n, h', hh⟩

theorem emitPlain_ends (hw : w.ModulesOnly)
    (hrun : event.key = .tick → SpawnsEnd run) :
    ∃ w', w.emitPlain run event = some w' ∧ w'.hub = w.hub := by
  have hheard : (w.note (.heard .hub 0 none event)).ModulesOnly := hw.evolve rfl (.note w _)
  obtain ⟨w', h', hh, -⟩ := foldlM_ends
    (P := fun v : World E => v.hub = w.hub ∧ v.ModulesOnly)
    (f := fun v module => (v.dispatch run (.surface module) event).bind fun r => some r.1)
    (l := (w.note (.heard .hub 0 none event)).surfaces.keys)
    (s := w.note (.heard .hub 0 none event)) (fun v module _ ⟨hv, hm⟩ => by
      obtain ⟨v', n, h', hh⟩ := dispatch_ends he module hm hrun
      refine ⟨v', ?_, hh.trans hv, hm.evolve hh ((evolves_covers he).dispatch h')⟩
      rw [h']
      rfl) ⟨rfl, hheard⟩
  refine ⟨w', ?_, hh⟩
  rw [emitPlain, Hub.hearers, hw.keyed, hw.any]
  show (callListener run event w ⟨0, .relay⟩).bind _ = _
  have hcall : callListener run event w ⟨0, .relay⟩ = some w' := h'
  rw [hcall]
  rfl

end Calls

/-- One more level of nesting. -/
theorem perform_emit_ends_succ (event : GameEvent) (fuel : Nat) (hw : w.ModulesOnly)
    (hrun : event.key = .tick → SpawnsEnd (perform fuel : Performer E)) :
    ∃ w' r, perform (fuel + 1) (.emit event) w = some (w', r) ∧ w'.hub = w.hub := by
  have hbegin : ((w.note (.began (.emit event))).setFlag false).ModulesOnly :=
    hw.evolve rfl ((Evolves.note w _).trans (.of_eq rfl rfl rfl rfl))
  obtain ⟨v, hv, hh⟩ := emitPlain_ends (fun h => evolves_pervades.perform fuel h) hbegin hrun
  have hstep : (w.note (.began (.emit event))).step (perform fuel) (.emit event) =
      some (v.setFlag w.flag, .flag !v.flag) := by
    simp only [step, emit_eq, hv]
    rfl
  refine ⟨(v.setFlag w.flag).note (.ended (.emit event) (.flag !v.flag)), .flag !v.flag, ?_, hh⟩
  show (World.step _ _ _).bind _ = _
  rw [hstep]
  rfl

theorem perform_emit_ends (event : GameEvent) (hw : w.ModulesOnly) (fuel : Nat) :
    ∃ w' r, perform (fuel + 2) (.emit event) w = some (w', r) := by
  -- what a spawn check emits is no tick, so nothing is emitted beneath it
  obtain ⟨w', r, h, -⟩ := perform_emit_ends_succ event (fuel + 1) hw
    fun _ v key item hv => perform_emit_ends_succ (spawnEvent key item) fuel hv fun hk => by
      simp [spawnEvent, EventKey.tick, EventKey.unscoped] at hk
  exact ⟨w', r, h⟩

end World

end LiveModules
