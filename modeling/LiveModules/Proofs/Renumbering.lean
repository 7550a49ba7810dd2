import LiveModules.Proofs.Isolation
import Mathlib.Logic.Equiv.Basic

/-!
# Worlds that differ in the numbers of surfaces

The number of a surface says nothing but which surface it is. `ρ` renumbers surfaces; two worlds are
`Renumbered` if one is the other with each surface known by its new number. Who is registered for
what, in which order and in which state of its script, is then the same.
-/

namespace LiveModules

attribute [local irreducible] lastOf

variable {E : Engine} (ρ : Equiv.Perm Nat)

/-! ## Renumbering -/

def Origin.renumber (o : Origin) : Origin := ⟨ρ o.surface, o.module⟩

variable {ρ} in
theorem Origin.eq_renumber {n n' : Nat} (h : ρ n = n') (module : String) :
    (⟨n', module⟩ : Origin) = Origin.renumber ρ ⟨n, module⟩ := by
  rw [Origin.renumber, h]

def ScriptFunction.renumber (f : ScriptFunction E) : ScriptFunction E :=
  ⟨f.origin.renumber ρ, f.callback⟩

def Owner.renumber : Owner → Owner
  | .surface id => .surface (ρ id)
  | .label name => .label name

def Subscriber.renumber : Subscriber E → Subscriber E
  | .plan label react => .plan label react
  | .script f => .script (f.renumber ρ)
  | .spawnCheck id => .spawnCheck (ρ id)

def Command.renumber (c : Command (CommandAction E)) : Command (CommandAction E) :=
  { c with action := match c.action with
    | .plan id react => .plan id react
    | .script f => .script (f.renumber ρ) }

def Task.renumber : Task E → Task E
  | .plan label p => .plan label p
  | .script f => .script (f.renumber ρ)

def SpawnRule.renumber (r : SpawnRule Float Owner) : SpawnRule Float Owner :=
  { r with owner := r.owner.renumber ρ }

/-- What a timer is about, with its surface renumbered. -/
def Timer.renumbered (t : Timer (Task E)) : String × Float × Task E :=
  (t.module, t.due, t.task.renumber ρ)

namespace World

/-- What neither a load nor anything that a script asks for can change. -/
structure Steady (w w' : World E) : Prop where
  root : w'.root = w.root
  hub : w'.hub = w.hub
  emitter : w'.emitter = w.emitter
  clock : w'.clock = w.clock
  listenerIds : w'.listenerIds = w.listenerIds
  subscriberIds : w'.subscriberIds = w.subscriberIds
  calls : w'.calls = w.calls

theorem surfaceId?_eq_version? (w : World E) (name : String) :
    w.surfaceId? name = (w.version? name).map (·.1) := by
  rw [version?, Option.map_map]
  rfl

/-- The second world is the first with surfaces renumbered: records, pending timers, notices and the
journal apart. Surfaces below `n` were given out before. -/
structure Renumbered (n : Nat) (w w' : World E) : Prop extends Steady w w' where
  commands : w'.game.commands = w.game.commands.mapValues fun _ c => c.renumber ρ
  rooms : w'.game.rooms = w.game.rooms
  players : w'.game.players = w.game.players
  flag : w'.game.defaultPrevented = w.game.defaultPrevented
  rules : w'.spawns.rules = w.spawns.rules.mapValues fun _ r => r.renumber ρ
  surfaces : ∀ name, w'.version? name = (w.version? name).map fun v => (ρ v.1, v.2)
  /-- As many subscribers for every key, in the same order. -/
  subscribers : ∀ name key, ((w'.roster (.surface name)).listed key).map Member.content =
    ((w.roster (.surface name)).listed key).map fun m => m.content.renumber ρ
  /-- The scripts of old surfaces and of current ones are in the same states. -/
  states : ∀ surface, surface < n ∨ (∃ name, w.surfaceId? name = some surface) →
    w'.states.find? (ρ surface) = w.states.find? surface

end World

/-! ## Renumbering twice -/

section Twice

variable (ρ' : Equiv.Perm Nat)

theorem Command.renumber_trans (c : Command (CommandAction E)) :
    c.renumber (ρ.trans ρ') = (c.renumber ρ).renumber ρ' := by
  obtain ⟨description, action⟩ := c
  cases action <;> rfl

theorem SpawnRule.renumber_trans (r : SpawnRule Float Owner) :
    r.renumber (ρ.trans ρ') = (r.renumber ρ).renumber ρ' := by
  obtain ⟨key, template, secs, last, owner⟩ := r
  cases owner <;> rfl

theorem Subscriber.renumber_trans (s : Subscriber E) :
    s.renumber (ρ.trans ρ') = (s.renumber ρ).renumber ρ' := by
  cases s <;> rfl

namespace World

variable {ρ ρ'} {n n' : Nat} {w w' w'' : World E}

theorem Steady.trans (h : Steady w w') (h' : Steady w' w'') : Steady w w'' :=
  ⟨h'.root.trans h.root, h'.hub.trans h.hub, h'.emitter.trans h.emitter, h'.clock.trans h.clock,
    h'.listenerIds.trans h.listenerIds, h'.subscriberIds.trans h.subscriberIds,
    h'.calls.trans h.calls⟩

theorem Renumbered.refl (n : Nat) (w : World E) : Renumbered (.refl _) n w w := by
  have hcommand (c : Command (CommandAction E)) : c.renumber (.refl _) = c := by
    obtain ⟨description, action⟩ := c
    cases action <;> rfl
  have hrule (r : SpawnRule Float Owner) : r.renumber (.refl _) = r := by
    obtain ⟨key, template, secs, last, owner⟩ := r
    cases owner <;> rfl
  have hsubscriber (s : Subscriber E) : s.renumber (.refl _) = s := by
    cases s <;> rfl
  refine ⟨⟨rfl, rfl, rfl, rfl, rfl, rfl, rfl⟩, ?_, rfl, rfl, rfl, ?_, fun name => ?_, ?_, ?_⟩
  · refine Table.ext fun key => ?_
    rw [Table.find?_mapValues]
    cases w.game.commands.find? key with
    | none => rfl
    | some c => rw [Option.map_some, hcommand]
  · refine Table.ext fun key => ?_
    rw [Table.find?_mapValues]
    cases w.spawns.rules.find? key with
    | none => rfl
    | some r => rw [Option.map_some, hrule]
  · cases w.version? name <;> rfl
  · intro name key
    simp only [hsubscriber]
  · exact fun _ _ => rfl

theorem Renumbered.surfaceId? (h : Renumbered ρ n w w') (name : String) :
    w'.surfaceId? name = (w.surfaceId? name).map ρ := by
  rw [surfaceId?_eq_version?, surfaceId?_eq_version?, h.surfaces, Option.map_map, Option.map_map]
  rfl

/-- Surfaces may be renumbered twice, if the first time the old ones keep their numbers. -/
theorem Renumbered.trans (h : Renumbered ρ n w w') (h' : Renumbered ρ' n' w' w'') (hn : n ≤ n')
    (hρ : ∀ id, id < n → ρ id = id) : Renumbered (ρ.trans ρ') n w w'' := by
  constructor
  case toSteady => exact h.toSteady.trans h'.toSteady
  case commands =>
    refine Table.ext fun key => ?_
    rw [h'.commands, h.commands]
    simp only [Table.find?_mapValues, Option.map_map]
    congr 1
    funext c
    exact (c.renumber_trans ρ ρ').symm
  case rooms => exact h'.rooms.trans h.rooms
  case players => exact h'.players.trans h.players
  case flag => exact h'.flag.trans h.flag
  case rules =>
    refine Table.ext fun key => ?_
    rw [h'.rules, h.rules]
    simp only [Table.find?_mapValues, Option.map_map]
    congr 1
    funext r
    exact (r.renumber_trans ρ ρ').symm
  case surfaces =>
    intro name
    rw [h'.surfaces, h.surfaces, Option.map_map]
    rfl
  case subscribers =>
    intro name key
    have hmap := congrArg (List.map (Subscriber.renumber ρ')) (h.subscribers name key)
    rw [List.map_map, List.map_map] at hmap
    rw [h'.subscribers]
    refine hmap.trans (List.map_congr_left fun m _ => ?_)
    exact (m.content.renumber_trans ρ ρ').symm
  case states =>
    intro surface hs
    refine (h'.states (ρ surface) ?_).trans (h.states surface hs)
    rcases hs with hlt | ⟨name, hcur⟩
    · left
      rw [hρ surface hlt]
      omega
    · exact .inr ⟨name, by rw [h.surfaceId?, hcur, Option.map_some]⟩

end World

end Twice

/-! ## What old numbers are on stays -/

section Fixed

variable {ρ} {n : Nat} (hρ : ∀ id, id < n → ρ id = id)

include hρ

theorem ScriptFunction.renumber_of_lt {f : ScriptFunction E} (h : f.origin.surface < n) :
    f.renumber ρ = f := by
  obtain ⟨⟨surface, module⟩, callback⟩ := f
  simp only [ScriptFunction.renumber, Origin.renumber, hρ surface h]

theorem Command.renumber_of_lt {c : Command (CommandAction E)}
    (h : ∀ f, c.action = .script f → f.origin.surface < n) : c.renumber ρ = c := by
  obtain ⟨description, action⟩ := c
  cases action with
  | plan => rfl
  | script f => simp only [Command.renumber, f.renumber_of_lt hρ (h f rfl)]

theorem Task.renumber_of_lt {t : Task E} (h : ∀ f, t = .script f → f.origin.surface < n) :
    t.renumber ρ = t := by
  cases t with
  | plan => rfl
  | script f => simp only [Task.renumber, f.renumber_of_lt hρ (h f rfl)]

theorem SpawnRule.renumber_of_lt {r : SpawnRule Float Owner}
    (h : ∀ surface, r.owner = .surface surface → surface < n) : r.renumber ρ = r := by
  obtain ⟨key, template, secs, last, owner⟩ := r
  cases owner with
  | label => rfl
  | surface id => simp only [SpawnRule.renumber, Owner.renumber, hρ id (h id rfl)]

theorem Subscriber.renumber_of_lt {s : Subscriber E}
    (hf : ∀ f, s = .script f → f.origin.surface < n)
    (hc : ∀ surface, s = .spawnCheck surface → surface < n) : s.renumber ρ = s := by
  cases s with
  | plan => rfl
  | script f => simp only [Subscriber.renumber, f.renumber_of_lt hρ (hf f rfl)]
  | spawnCheck id => simp only [Subscriber.renumber, hρ id (hc id rfl)]

namespace World.Below

variable {w : World E} (hw : w.Below n)

include hw

theorem command_fixed (key : CommandKey) :
    (w.game.commands.find? key).map (Command.renumber ρ) = w.game.commands.find? key := by
  rcases hc : w.game.commands.find? key with _ | c
  · rfl
  · rw [Option.map_some, Command.renumber_of_lt hρ fun f => hw.commands key c f hc]

theorem rule_fixed (key : SpawnKey) (p : SpawnRule Float Owner → Bool) :
    ((w.spawns.rules.find? key).filter p).map (SpawnRule.renumber ρ) =
      (w.spawns.rules.find? key).filter p := by
  rcases hr : w.spawns.rules.find? key with _ | r
  · rfl
  · have hfix : r.renumber ρ = r :=
      SpawnRule.renumber_of_lt hρ fun surface => hw.rules key r surface hr
    cases hp : p r
    · rw [Option.filter_some_neg (by simp [hp])]
      rfl
    · rw [Option.filter_some_pos hp, Option.map_some, hfix]

omit hρ in
/-- A surface that gets its number now owns no rule that was there before. -/
theorem rule_unowned {surface : Nat} (hn : n ≤ surface) (key : SpawnKey)
    (p : SpawnRule Float Owner → Bool) :
    (((w.spawns.rules.find? key).filter p).filter fun r =>
      (some surface).map Owner.surface ≠ some r.owner) = (w.spawns.rules.find? key).filter p := by
  rcases hf : (w.spawns.rules.find? key).filter p with _ | r
  · rfl
  · have hr := (Option.filter_eq_some_iff.1 hf).1
    have hne : some (Owner.surface surface) ≠ some r.owner := by
      intro ho
      have hlt := hw.rules key r surface hr (Option.some.inj ho).symm
      omega
    exact Option.filter_some_pos (by simpa using hne)

theorem version_fixed (name : String) :
    (w.version? name).map (fun v => (ρ v.1, v.2)) = w.version? name := by
  rcases hv : w.version? name with _ | ⟨id, module⟩
  · rfl
  · have hlt : id < n := hw.current name id (by rw [surfaceId?_eq_version?, hv, Option.map_some])
    rw [Option.map_some, hρ id hlt]

theorem subscribers_fixed (name : String) (key : EventKey) :
    ((w.roster (.surface name)).listed key).map (fun m => m.content.renumber ρ) =
      ((w.roster (.surface name)).listed key).map Member.content := by
  refine List.map_congr_left fun m hm => ?_
  exact Subscriber.renumber_of_lt hρ (hw.scripts name key m hm) (hw.checks name key m hm)

theorem timers_fixed : w.timers.pending.map (Timer.renumbered ρ) =
    w.timers.pending.map Timer.work := by
  refine List.map_congr_left fun t ht => ?_
  rw [Timer.renumbered, Timer.work, Task.renumber_of_lt hρ (hw.tasks t ht)]

end World.Below

end Fixed

/-! ## What a script asks for under another number -/

theorem findSomeRev?_map {α β γ : Type*} (f : α → Option β) (g : β → γ) :
    ∀ l : List α, l.findSomeRev? (fun a => (f a).map g) = (l.findSomeRev? f).map g
  | [] => rfl
  | a :: l => by
    rw [List.findSomeRev?, findSomeRev?_map f g l, List.findSomeRev?]
    cases l.findSomeRev? f <;> rfl

namespace Request

variable {κ : Type} (o : Origin)

theorem command?_renumber (key : CommandKey) (rs : List (Request E.Callback)) :
    rs.findSomeRev? (command? (o.renumber ρ) key) =
      (rs.findSomeRev? (command? o key)).map (Command.renumber ρ) := by
  rw [← findSomeRev?_map]
  congr 1
  funext r
  cases r with
  | command key' description callback =>
    simp only [command?]
    split <;> rfl
  | _ => rfl

theorem rule?_renumber (key : SpawnKey) (rs : List (Request κ)) :
    rs.findSomeRev? (rule? (o.renumber ρ) key) =
      (rs.findSomeRev? (rule? o key)).map (SpawnRule.renumber ρ) := by
  rw [← findSomeRev?_map]
  congr 1
  funext r
  cases r with
  | item id template secs =>
    simp only [rule?]
    split <;> rfl
  | _ => rfl

theorem subscriber?_renumber (key : EventKey) (rs : List (Request E.Callback)) :
    rs.filterMap (subscriber? (o.renumber ρ) key) =
      (rs.filterMap (subscriber? o key)).map (Subscriber.renumber ρ) := by
  rw [List.map_filterMap]
  congr 1
  funext r
  cases r with
  | handler key' callback =>
    simp only [subscriber?]
    split <;> rfl
  | _ => rfl

theorem work?_renumber {w w' : World E} (hc : w'.clock = w.clock) (rs : List (Request E.Callback)) :
    rs.filterMap (work? (o.renumber ρ) w') =
      (rs.filterMap (work? o w)).map fun t => (t.1, t.2.1, t.2.2.renumber ρ) := by
  rw [List.map_filterMap]
  congr 1
  funext r
  cases r with
  | timeout delayMs callback =>
    simp only [work?, World.dueAfter, hc]
    rfl
  | _ => rfl

/-- Every rule that a script asks for belongs to its surface. -/
theorem rule?_owner {key : SpawnKey} {rs : List (Request κ)} {r : SpawnRule Float Owner}
    (h : rs.findSomeRev? (rule? o key) = some r) : r.owner = .surface o.surface := by
  rw [List.findSomeRev?_eq_findSome?_reverse] at h
  obtain ⟨q, -, hq⟩ := List.exists_of_findSome?_eq_some h
  cases q with
  | item id template secs =>
    simp only [rule?] at hq
    split at hq
    · cases hq
      rfl
    · cases hq
  | _ => cases hq

end Request

/-! ## Loads in another world -/

namespace World

variable {w w' : World E} {name : String}

theorem version?_congr (h : w'.surfaces.find? name = w.surfaces.find? name) :
    w'.version? name = w.version? name := by
  rw [version?, version?, h]

theorem surfaceId?_congr (h : w'.surfaces.find? name = w.surfaces.find? name) :
    w'.surfaceId? name = w.surfaceId? name := by
  rw [World.surfaceId?, World.surfaceId?, h]

theorem roster_congr (h : w'.surfaces.find? name = w.surfaces.find? name) :
    w'.roster (.surface name) = w.roster (.surface name) := by
  rw [roster, roster, h]

end World

namespace Site

open World

/-- What a load of a module makes of its own record and surface, and of what is neither its own nor
another module's. -/
structure Loaded (s s' : Site E) (module : String) (modified : FileTime) (source : String) :
    Prop where
  steady : Steady s.world s'.world
  record : s'.world.records.find? module =
    some ((s.world.openRecord module modified).close (E.load module source).failure)
  version : s'.world.version? module = some (s.world.nextId, module)
  state : s'.world.states.find? s.world.nextId = some (E.load module source).state
  flag : s'.world.game.defaultPrevented =
    (s.world.game.defaultPrevented || (E.load module source).requests.any Request.prevents)
  history : s'.world.game.history =
    ((E.load module source).notices module).foldl .push s.world.game.history
  bus : s'.world.game.bus =
    ((E.load module source).notices module).foldl .publish s.world.game.bus
  nextId : s.world.nextId < s'.world.nextId

theorem reload_loaded (s : Site E) (module : String) (modified : FileTime) (source : String) :
    Loaded s (s.reload module modified source) module modified source := by
  obtain ⟨journal, hw⟩ := s.reload_world module modified source
  obtain ⟨game, spawns, timers, surfaces, retired, nextId, journal', disk, hframe⟩ :=
    s.world.reload_frame module modified source
  obtain ⟨mid, failure, htold⟩ := reload_told (w := s.world) module modified source
  have hnext : s.world.nextId < (s.world.reload module modified source).nextId := by
    have := htold.nextId
    omega
  constructor
  case steady =>
    rw [hw, hframe]
    exact ⟨rfl, rfl, rfl, rfl, rfl, rfl, rfl⟩
  all_goals rw [hw]
  case record =>
    refine (reload_records module).trans ?_
    rw [if_pos rfl]
  case version =>
    refine (reload_version module).trans ?_
    rw [if_pos rfl]
  case state =>
    rw [hframe]
    exact Table.find?_insert_self _ _ _
  case flag => exact reload_flag
  case history => exact reload_notices.1
  case bus => exact reload_notices.2
  case nextId => exact hnext

theorem Loaded.surfaceId? {s s' : Site E} {module source : String} {modified : FileTime}
    (h : Loaded s s' module modified source) :
    s'.world.surfaceId? module = some s.world.nextId := by
  rw [surfaceId?_eq_version?, h.version, Option.map_some]

/-- A surface that is current after a load is the one that was made, or was current before. -/
theorem Loaded.current_cases {s s' : Site E} {module source : String} {modified : FileTime}
    {requests : List (Request E.Callback)} (h : Loaded s s' module modified source)
    (hi : Isolated s s' module requests) {name : String} {surface : Nat}
    (hs : s'.world.surfaceId? name = some surface) :
    surface = s.world.nextId ∧ name = module ∨
      s.world.surfaceId? name = some surface ∧ name ≠ module := by
  by_cases hn : name = module
  · rw [hn, h.surfaceId?, Option.some.injEq] at hs
    exact .inl ⟨hs.symm, hn⟩
  · rw [surfaceId?_congr (hi.surfaces name hn)] at hs
    exact .inr ⟨hs, hn⟩

/-- The subscriber lists of a module after loads under different numbers. -/
theorem subscribed_renumber {u v : Site E} {name : String} {ρ : Equiv.Perm Nat}
    {requests : List (Request E.Callback)} (hu : ρ u.world.nextId = v.world.nextId)
    (key : EventKey) {l l' : List (Member (Subscriber E))}
    (hl : l.map Member.content = (if key = .tick then [.spawnCheck u.world.nextId] else []) ++
      requests.filterMap (Request.subscriber? ⟨u.world.nextId, name⟩ key))
    (hl' : l'.map Member.content = (if key = .tick then [.spawnCheck v.world.nextId] else []) ++
      requests.filterMap (Request.subscriber? ⟨v.world.nextId, name⟩ key)) :
    l'.map Member.content = l.map fun m => m.content.renumber ρ := by
  have ho : (⟨v.world.nextId, name⟩ : Origin) = Origin.renumber ρ ⟨u.world.nextId, name⟩ := by
    rw [Origin.renumber, hu]
  have hmap := congrArg (List.map (Subscriber.renumber ρ)) hl
  rw [List.map_map, List.map_append] at hmap
  rw [hl', ho, Request.subscriber?_renumber]
  refine Eq.trans ?_ hmap.symm
  congr 1
  split
  · rw [List.map_singleton, Subscriber.renumber, hu]
  · rfl

end Site

end LiveModules
