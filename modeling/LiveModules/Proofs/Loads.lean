import LiveModules.Proofs.Requests
import LiveModules.Proofs.Runs

/-!
# What a load leaves

After a load every table holds what the script asked for and, under all other keys, what it held
before; of the spawn rules, those of the surface that was current are gone. A load that fails keeps
what was asked for before the failure: nothing here looks at how the run ended but the record, the
notices and the files that tell of the module.
-/

namespace LiveModules

attribute [local irreducible] lastOf

/-- The change of files that ends a load. -/
def closingWrite : Option String → ArtifactWrite
  | none => .clearError
  | some detail => .writeError detail

/-- The notices of how a load ended. -/
def outcomeNotices (module : String) : Option String → List Notice
  | none => [⟨.warn, "Reloaded world module: " ++ module⟩]
  | some detail =>
    [⟨.broadcast, "Oh no some one broke " ++ module ++ "!"⟩, World.loadError module detail]

namespace Run

variable {σ κ : Type}

/-- The changes of the files of a module when this run loads it. -/
def writes (r : Run σ κ) : List ArtifactWrite :=
  .truncateLog :: r.requests.filterMap Request.write? ++ [closingWrite r.failure]

/-- The notices when this run loads a module. -/
def notices (r : Run σ κ) (module : String) : List Notice :=
  r.requests.filterMap Request.notice? ++ outcomeNotices module r.failure

end Run

namespace World

variable {E : Engine} (w : World E) (module : String) (modified : FileTime) (source : String)

/-- The world when the text of a module has been run. -/
def afterRun : World E :=
  ((w.beginLoad module modified).write module .truncateLog).finishRun ⟨w.nextId, module⟩
    (E.load module source)

/-- Tells how a load ended. -/
def conclude : Option String → World E
  | none => ((w.note (.loaded module)).loadSucceeded module).closeRecord module none
  | some detail =>
    ((w.note (.failed module detail)).loadFailed module detail).closeRecord module (some detail)

theorem reload_eq : w.reload module modified source =
    (w.afterRun module modified source).conclude module (E.load module source).failure := by
  unfold reload evaluate conclude afterRun
  dsimp only
  cases (E.load module source).failure <;> rfl

theorem conclude_frame (failure : Option String) : ∃ journal, w.conclude module failure = { w with
    game := { w.game with
      history := (outcomeNotices module failure).foldl .push w.game.history
      bus := (outcomeNotices module failure).foldl .publish w.game.bus }
    records := w.records.modify module (·.close failure)
    disk := w.disk.push (module, closingWrite failure)
    journal } := by
  cases failure <;> exact ⟨_, rfl⟩

theorem afterRun_frame : ∃ game spawns timers surfaces retired nextId journal disk,
    w.afterRun module modified source = { w with
      game, spawns, timers, surfaces, retired, nextId, journal, disk
      records := w.records.insert module (w.openRecord module modified)
      states := w.states.insert w.nextId (E.load module source).state } := by
  obtain ⟨game, spawns, timers, surfaces, retired, nextId, journal, disk, h⟩ := grantAll_frame
    { (w.beginLoad module modified).write module .truncateLog with
      states := w.states.insert w.nextId (E.load module source).state } ⟨w.nextId, module⟩
    (E.load module source).requests
  exact ⟨game, spawns, timers, surfaces, retired, nextId, journal, disk, h⟩

/-- What a load cannot change. -/
theorem reload_frame : ∃ game spawns timers surfaces retired nextId journal disk,
    w.reload module modified source = { w with
      game, spawns, timers, surfaces, retired, nextId, journal, disk
      records := (w.records.insert module (w.openRecord module modified)).modify module
        (·.close (E.load module source).failure)
      states := w.states.insert w.nextId (E.load module source).state } := by
  obtain ⟨journal, h⟩ := (w.afterRun module modified source).conclude_frame module
    (E.load module source).failure
  obtain ⟨game, spawns, timers, surfaces, retired, nextId, journal', disk, h'⟩ :=
    afterRun_frame w module modified source
  rw [reload_eq, h, h']
  exact ⟨_, spawns, timers, surfaces, retired, nextId, journal, _, rfl⟩

variable {w module modified source}

/-! ## The tables -/

theorem reload_commands (key : CommandKey) :
    (w.reload module modified source).game.commands.find? key =
      ((E.load module source).requests.findSomeRev?
        (Request.command? ⟨w.nextId, module⟩ key)).or (w.game.commands.find? key) := by
  obtain ⟨journal, h⟩ := (w.afterRun module modified source).conclude_frame module
    (E.load module source).failure
  rw [reload_eq, h]
  exact grantAll_commands _ _ key

theorem reload_rooms (id : String) :
    (w.reload module modified source).game.rooms.find? id =
      ((E.load module source).requests.findSomeRev? (Request.room? id)).or
        (w.game.rooms.find? id) := by
  obtain ⟨journal, h⟩ := (w.afterRun module modified source).conclude_frame module
    (E.load module source).failure
  rw [reload_eq, h]
  exact grantAll_rooms _ _ id

theorem reload_players (name : String) :
    (w.reload module modified source).game.players.find? name =
      ((E.load module source).requests.findSomeRev? (Request.player? name)).or
        (w.game.players.find? name) := by
  obtain ⟨journal, h⟩ := (w.afterRun module modified source).conclude_frame module
    (E.load module source).failure
  rw [reload_eq, h]
  exact grantAll_players _ _ name

/-- The rules of the surface that was current are gone, unless the script asked for them again. -/
theorem reload_rules (key : SpawnKey) :
    (w.reload module modified source).spawns.rules.find? key =
      ((E.load module source).requests.findSomeRev?
        (Request.rule? ⟨w.nextId, module⟩ key)).or
      ((w.spawns.rules.find? key).filter fun r =>
        (w.surfaceId? module).map Owner.surface ≠ some r.owner) := by
  have hbegin : (w.beginLoad module modified).spawns.rules.find? key =
      (w.spawns.rules.find? key).filter fun r =>
        (w.surfaceId? module).map Owner.surface ≠ some r.owner := by
    unfold beginLoad replaceSurface surfaceId?
    dsimp only [note]
    rcases w.surfaces.find? module with _ | previous
    · rcases w.spawns.rules.find? key with _ | r <;> simp [Option.filter]
    · simp only [SpawnTable.release, Table.find?_filter, Option.map_some, ne_eq,
        Option.some.injEq, eq_comm (a := Owner.surface previous.id)]
  obtain ⟨journal, h⟩ := (w.afterRun module modified source).conclude_frame module
    (E.load module source).failure
  rw [reload_eq, h, ← hbegin]
  exact grantAll_rules _ _ key

theorem reload_flag : (w.reload module modified source).game.defaultPrevented =
    (w.game.defaultPrevented || (E.load module source).requests.any Request.prevents) := by
  obtain ⟨journal, h⟩ := (w.afterRun module modified source).conclude_frame module
    (E.load module source).failure
  rw [reload_eq, h]
  exact grantAll_flag _ _

theorem reload_notices :
    (w.reload module modified source).game.history =
        ((E.load module source).notices module).foldl .push w.game.history ∧
      (w.reload module modified source).game.bus =
        ((E.load module source).notices module).foldl .publish w.game.bus := by
  obtain ⟨journal, h⟩ := (w.afterRun module modified source).conclude_frame module
    (E.load module source).failure
  rw [reload_eq, h, Run.notices, List.foldl_append, List.foldl_append]
  have hrun : (w.afterRun module modified source).game.history =
        ((E.load module source).requests.filterMap Request.notice?).foldl .push w.game.history ∧
      (w.afterRun module modified source).game.bus =
        ((E.load module source).requests.filterMap Request.notice?).foldl .publish w.game.bus :=
    grantAll_notices _ _
  rw [hrun.1, hrun.2]
  exact ⟨rfl, rfl⟩

theorem reload_timers : ∃ batch,
    (w.reload module modified source).timers.pending = w.timers.pending ++ batch ∧
      batch.map Timer.work =
        (E.load module source).requests.filterMap (Request.work? ⟨w.nextId, module⟩ w) := by
  obtain ⟨journal, h⟩ := (w.afterRun module modified source).conclude_frame module
    (E.load module source).failure
  rw [reload_eq, h]
  exact grantAll_timers (o := ⟨w.nextId, module⟩) _
    { (w.beginLoad module modified).write module .truncateLog with
      states := w.states.insert w.nextId (E.load module source).state }

theorem reload_disk : (w.reload module modified source).disk.toList =
    w.disk.toList ++ (E.load module source).writes.map (Prod.mk module) := by
  obtain ⟨journal, h⟩ := (w.afterRun module modified source).conclude_frame module
    (E.load module source).failure
  have hrun : (w.afterRun module modified source).disk.toList =
      (w.disk.push (module, .truncateLog)).toList ++
        ((E.load module source).requests.filterMap Request.write?).map (Prod.mk module) :=
    grantAll_disk _ _
  rw [reload_eq, h, Array.toList_push, hrun, Array.toList_push]
  simp [Run.writes]

/-! ## Surfaces and records -/

theorem reload_records (name : String) :
    (w.reload module modified source).records.find? name =
      if name = module then
        some ((w.openRecord module modified).close (E.load module source).failure)
      else w.records.find? name := by
  obtain ⟨_, _, _, _, _, _, _, _, h⟩ :=
    reload_frame w module modified source
  rw [h]
  dsimp only
  split
  · rename_i hn
    rw [hn, Table.find?_modify_self, Table.find?_insert_self, Option.map_some]
  · rename_i hn
    rw [Table.find?_modify_of_ne _ hn, Table.find?_insert_of_ne _ hn]

theorem reload_surfaces : (w.reload module modified source).surfaces =
    (w.afterRun module modified source).surfaces := by
  obtain ⟨journal, h⟩ := (w.afterRun module modified source).conclude_frame module
    (E.load module source).failure
  rw [reload_eq, h]

theorem reload_version (name : String) : (w.reload module modified source).version? name =
    if name = module then some (w.nextId, module) else w.version? name := by
  obtain ⟨mid, failure, h⟩ := reload_told (w := w) module modified source
  exact h.surfaces name

/-- The current surface is the one that was made for the load: it checks its spawn rules, and the
subscribers that the script asked for come behind, in order. -/
theorem reload_listed (key : EventKey) :
    (((w.reload module modified source).roster (.surface module)).listed key).map Member.content =
      (if key = .tick then [.spawnCheck w.nextId] else []) ++
        (E.load module source).requests.filterMap
          (Request.subscriber? ⟨w.nextId, module⟩ key) := by
  have hcurrent : (w.beginLoad module modified).surfaceId? module = some w.nextId := by
    rw [surfaceId?_beginLoad, if_pos rfl]
  have hrun : ∃ new, ((w.afterRun module modified source).roster (.surface module)).listed key =
        ((w.beginLoad module modified).roster (.surface module)).listed key ++ new ∧
      new.map Member.content = (E.load module source).requests.filterMap
        (Request.subscriber? ⟨w.nextId, module⟩ key) := by
    refine grantAll_listed (o := ⟨w.nextId, module⟩) _ _ ?_ key
    exact hcurrent
  obtain ⟨new, hl, hn⟩ := hrun
  have hroster : (w.reload module modified source).roster (.surface module) =
      (w.afterRun module modified source).roster (.surface module) := by
    simp only [roster, reload_surfaces]
  have hbegin : (((w.beginLoad module modified).roster (.surface module)).listed key).map
      Member.content = if key = .tick then [.spawnCheck w.nextId] else [] := by
    rw [listed_beginLoad, if_pos rfl]
    split <;> rfl
  rw [hroster, hl, List.map_append, hbegin, hn]

end World

namespace Site

variable {E : Engine} {s : Site E}

/-- To make the changes that are asked for changes nothing else in the world; what was not possible
is noted. -/
theorem settle_world (s : Site E) :
    ∃ journal, s.settle.world = { s.world with disk := #[], journal } := by
  refine settle_keeps (P := fun t => ∃ journal, t.world = { s.world with disk := #[], journal })
    ⟨s.world.journal, rfl⟩ fun t change _ ⟨journal, h⟩ => ?_
  rcases t.makeChange_cases change with ⟨files, -, hc⟩ | ⟨e, hc⟩
  · exact ⟨journal, by rw [hc, ← h]⟩
  · exact ⟨_, by rw [hc, h, World.note]⟩

theorem reload_world (s : Site E) (module : String) (modified : FileTime) (source : String) :
    ∃ journal, (s.reload module modified source).world =
      { s.world.reload module modified source with disk := #[], journal } := by
  rw [reload_eq]
  exact settle_world { s with world := s.world.reload module modified source }

end Site

end LiveModules
