import LiveModules.Proofs.Fresh
import LiveModules.Proofs.Leaves
import LiveModules.Proofs.Loads
import LiveModules.Proofs.Rescans

/-!
# A load leaves the other modules alone

What a load changes is its own module's record and surface, the rules of the surface that it
replaces, and the entries that the script asked for (`reload_isolated`). How the run ended makes no
difference: a script that fails half-way has changed what it asked for until then. Of the files it
changes those of its own module, unless a link among them leads to those of another one
(`log_emptied_through_link`).
-/

namespace LiveModules

open Artifacts

attribute [local irreducible] lastOf

variable {E : Engine} {L : Licence} {C : FileTree → FileTree → Prop}

/-- What a load does with an entry that its script did not ask for: a rule of the surface that was
current is gone, and everything else is as it was. -/
def World.KeptAt (w w' : World E) (module : String) : Slot → Prop
  | .command key => w'.game.commands.find? key = w.game.commands.find? key
  | .room id => w'.game.rooms.find? id = w.game.rooms.find? id
  | .player name => w'.game.players.find? name = w.game.players.find? name
  | .rule key => w'.spawns.rules.find? key = w.spawns.rules.find? key ∨
      ∃ rule surface, w.spawns.rules.find? key = some rule ∧ w.surfaceId? module = some surface ∧
        rule.owner = .surface surface ∧ w'.spawns.rules.find? key = none

namespace Site

/-- What the load of a module changes, `requests` being what its script asks for before it ends. -/
structure Isolated (s s' : Site E) (module : String) (requests : List (Request E.Callback)) :
    Prop where
  records : ∀ name, name ≠ module →
    s'.world.records.find? name = s.world.records.find? name
  /-- Surfaces of others keep their subscribers, and all that were there before keep their state. -/
  surfaces : ∀ name, name ≠ module →
    s'.world.surfaces.find? name = s.world.surfaces.find? name
  states : ∀ surface, surface < s.world.nextId →
    s'.world.states.find? surface = s.world.states.find? surface
  subscribers : s'.world.hub = s.world.hub ∧ s'.world.emitter = s.world.emitter
  timers : ∃ batch, s'.world.timers.pending = s.world.timers.pending ++ batch ∧
    (∀ t ∈ batch, t.module = module) ∧ batch.map Timer.work =
      requests.filterMap (Request.work? ⟨s.world.nextId, module⟩ s.world)
  /-- Entries that the script did not ask for. -/
  kept : ∀ slot, slot ∉ requests.filterMap Request.slot? →
    s.world.KeptAt s'.world module slot
  /-- Entries that it did ask for: of two under one key the later stands. -/
  commands : ∀ key, s'.world.game.commands.find? key =
    (requests.findSomeRev? (Request.command? ⟨s.world.nextId, module⟩ key)).or
      (s.world.game.commands.find? key)
  rooms : ∀ id, s'.world.game.rooms.find? id =
    (requests.findSomeRev? (Request.room? id)).or (s.world.game.rooms.find? id)
  players : ∀ name, s'.world.game.players.find? name =
    (requests.findSomeRev? (Request.player? name)).or (s.world.game.players.find? name)
  rules : ∀ key, s'.world.spawns.rules.find? key =
    (requests.findSomeRev? (Request.rule? ⟨s.world.nextId, module⟩ key)).or
      ((s.world.spawns.rules.find? key).filter fun rule =>
        (s.world.surfaceId? module).map Owner.surface ≠ some rule.owner)
  /-- The new surface: its spawn check, then what the script subscribed, in order. -/
  subscribed : ∀ key,
    ((s'.world.roster (.surface module)).listed key).map Member.content =
      (if key = .tick then [.spawnCheck s.world.nextId] else []) ++
        requests.filterMap (Request.subscriber? ⟨s.world.nextId, module⟩ key)

theorem reload_files {s : Site E} (ho : s.world.disk = #[]) (module : String)
    (modified : FileTime) (source : String) :
    (s.reload module modified source).files = editAll s.world.root s.files
      ((E.load module source).writes.map (Prod.mk module)) := by
  have hroot : (s.world.reload module modified source).root = s.world.root := by
    obtain ⟨_, _, _, _, _, _, _, _, h⟩ := s.world.reload_frame module modified source
    rw [h]
  have hsettle := settle_files { s with world := s.world.reload module modified source }
  rw [World.reload_disk, ho, hroot] at hsettle
  rw [reload_eq]
  exact hsettle

/-- Between steps no change of files is due. -/
theorem Run.settled {s₀ s : Site E} (h : Run L C s₀ s) : s.world.disk = #[] := by
  refine h.induction (P := fun s => s.world.disk = #[]) (fun _ _ _ hs => hs ▸ rfl) ?_
  intro s s' _ ih hs
  cases hs with
  | change => exact ih
  | clock => exact ih
  | scan =>
    have h := s.scanned
    generalize s.scan = r at h
    cases h with
    | visited => exact visitAll_disk (s := s.opened) ih
    | _ => exact ih
  | reload => exact reload_settled ..
  | act fuel a r _ h =>
    obtain ⟨_, -, rfl⟩ := act_inv h
    exact settle_disk _
  | dispatch fuel module event n h =>
    obtain ⟨_, -, rfl⟩ := dispatch_inv h
    exact settle_disk _
  | checkSpawns fuel owner keys h =>
    obtain ⟨_, -, rfl⟩ := checkSpawns_inv h
    exact settle_disk _

end Site

namespace World

variable {w : World E} {module : String} {modified : FileTime} {source : String}

theorem reload_kept {slot : Slot}
    (h : slot ∉ (E.load module source).requests.filterMap Request.slot?) :
    w.KeptAt (w.reload module modified source) module slot := by
  cases slot with
  | command key =>
    show (w.reload module modified source).game.commands.find? key = _
    rw [reload_commands, Request.findSomeRev?_command _ key h, Option.none_or]
  | room id =>
    show (w.reload module modified source).game.rooms.find? id = _
    rw [reload_rooms, Request.findSomeRev?_room id h, Option.none_or]
  | player name =>
    show (w.reload module modified source).game.players.find? name = _
    rw [reload_players, Request.findSomeRev?_player name h, Option.none_or]
  | rule key =>
    have hrules := @reload_rules E w module modified source key
    rw [Request.findSomeRev?_rule _ key h, Option.none_or] at hrules
    rcases hr : w.spawns.rules.find? key with _ | rule
    · exact .inl (by rw [hrules, hr]; rfl)
    · rw [hr] at hrules
      by_cases ho : (w.surfaceId? module).map Owner.surface = some rule.owner
      · obtain ⟨surface, hs, howner⟩ := Option.map_eq_some_iff.1 ho
        refine .inr ⟨rule, surface, hr, hs, howner.symm, ?_⟩
        rw [hrules, Option.filter_some_neg (by simpa using ho)]
      · refine .inl ?_
        rw [hrules, Option.filter_some_pos (by simpa using ho), hr]

theorem reload_states {surface : Nat} (h : surface < w.nextId) :
    (w.reload module modified source).states.find? surface = w.states.find? surface := by
  obtain ⟨_, _, _, _, _, _, _, _, hw⟩ := w.reload_frame module modified source
  have hne : surface ≠ w.nextId := by omega
  rw [hw]
  exact Table.find?_insert_of_ne _ hne _

/-- Whatever a script puts off is work of its own module. -/
theorem module_of_work {o : Origin} {rs : List (Request E.Callback)}
    {batch : List (Timer (Task E))}
    (h : batch.map Timer.work = rs.filterMap (Request.work? o w)) :
    ∀ t ∈ batch, t.module = o.module := by
  intro t ht
  have hmem : t.work ∈ rs.filterMap (Request.work? o w) := h ▸ List.mem_map_of_mem ht
  obtain ⟨r, -, hr⟩ := List.mem_filterMap.1 hmem
  cases r with
  | timeout delayMs callback => exact (Prod.mk.inj (Option.some.inj hr)).1.symm
  | _ => cases hr

end World

namespace Site

open World

theorem isolated (s : Site E) (module : String) (modified : FileTime) (source : String) :
    Isolated s (s.reload module modified source) module (E.load module source).requests := by
  obtain ⟨journal, hw⟩ := s.reload_world module modified source
  obtain ⟨game, spawns, timers, surfaces, retired, nextId, journal', disk, hframe⟩ :=
    s.world.reload_frame module modified source
  constructor
  case records | surfaces =>
    intro name hne
    have hu := reload_untouched (w := s.world) hne modified source
    rw [hw]
    first | exact hu.record | exact hu.surface
  case states =>
    intro surface hlt
    rw [hw]
    exact reload_states hlt
  case subscribers =>
    rw [hw, hframe]
    exact ⟨rfl, rfl⟩
  case timers =>
    obtain ⟨batch, hp, hb⟩ := @reload_timers E s.world module modified source
    rw [hw]
    exact ⟨batch, hp, module_of_work hb, hb⟩
  case kept =>
    intro slot hs
    rw [hw]
    have hkept := @reload_kept E s.world module modified source slot hs
    cases slot <;> exact hkept
  all_goals intro key
  all_goals rw [hw]
  case commands => exact reload_commands key
  case rooms => exact reload_rooms key
  case players => exact reload_players key
  case rules => exact reload_rules key
  case subscribed => exact reload_listed key

theorem isEntry_writes {module : String} (hm : FileName.IsEntry module)
    (writes : List ArtifactWrite) :
    ∀ change ∈ writes.map (Prod.mk module), FileName.IsEntry change.1 := by
  intro change hc
  obtain ⟨write, -, rfl⟩ := List.mem_map.1 hc
  exact hm

/-- Where the directories hold no links, a load leaves the files that tell of other modules. -/
theorem reload_leaves_files {s : Site E} (ho : s.world.disk = #[])
    (htidy : Tidy s.files s.world.root) {module name : String} (hm : FileName.IsEntry module)
    (hn : FileName.IsEntry name) (hne : name ≠ module) (modified : FileTime) (source : String) :
    let s' := s.reload module modified source
    logContent? s'.files s.world.root name = logContent? s.files s.world.root name ∧
      errorContent? s'.files s.world.root name = errorContent? s.files s.world.root name := by
  intro s'
  rw [reload_files ho]
  refine content_editAll htidy (isEntry_writes hm _) hn fun change hc he => ?_
  obtain ⟨write, -, rfl⟩ := List.mem_map.1 hc
  exact hne he.symm

/-- A load leaves the records, surfaces, subscriptions and timers of every other module, and what
its script did not ask for, as they were; of the rules, those of the surface that it replaces are
gone. And where no link leads elsewhere, it leaves the files that tell of other modules. -/
theorem reload_isolated {s₀ s : Site E} (h : Run .all C s₀ s) (module : String)
    (modified : FileTime) (source : String) :
    Isolated s (s.reload module modified source) module (E.load module source).requests ∧
    (Tidy s.files s.world.root → FileName.IsEntry module →
      ∀ name, FileName.IsEntry name → name ≠ module →
        let s' := s.reload module modified source
        logContent? s'.files s.world.root name = logContent? s.files s.world.root name ∧
          errorContent? s'.files s.world.root name = errorContent? s.files s.world.root name) :=
  ⟨s.isolated module modified source, fun htidy hm _ hn hne =>
    reload_leaves_files h.settled htidy hm hn hne modified source⟩

theorem reload_root (s : Site E) (module : String) (modified : FileTime) (source : String) :
    (s.reload module modified source).world.root = s.world.root := by
  obtain ⟨journal, hw⟩ := s.reload_world module modified source
  obtain ⟨_, _, _, _, _, _, _, _, h⟩ := s.world.reload_frame module modified source
  rw [hw, h]

theorem reload_tidy {s : Site E} (ho : s.world.disk = #[]) (htidy : Tidy s.files s.world.root)
    {module : String} (hm : FileName.IsEntry module) (modified : FileTime) (source : String) :
    Tidy (s.reload module modified source).files s.world.root := by
  rw [reload_files ho]
  exact editAll_tidy _ htidy (isEntry_writes hm _)

end Site

/-- The text `smithy` makes a command and a rule, `garden` a room and two rules; any other text
makes a room, takes one of the rules and fails. -/
def builder : Engine :=
  .ofRuns (fun text =>
    if text = "smithy" then
      ([.command ⟨"forge", none⟩ "" 0, .item "plaza" ⟨"sword", []⟩ 5], none)
    else if text = "garden" then
      ([.room "park" ⟨"", ∅, []⟩, .item "park" ⟨"rose", []⟩ 2, .item "plaza" ⟨"torch", []⟩ 3], none)
    else ([.room "plaza" ⟨"", ∅, []⟩, .item "plaza" ⟨"torch", []⟩ 7], some "out of stone"))
    fun _ => ([], none)

/-- A version that fails half-way has made its room and taken a rule of the other module; the rule
of the version before is gone, its command is not, and all else of the other module is as it was,
its log too. -/
theorem broken_version_isolated :
    ∃ s : Site builder, Site.Run .all (fun _ _ => True) (.start "world" bareFiles none) s ∧
      Tidy s.files s.world.root ∧ FileName.IsEntry "a.lua" ∧ FileName.IsEntry "b.lua" ∧
      (s.reload "a.lua" ⟨300, 0⟩ "broken").world.stateOf "a.lua" = .errored ∧
      ((s.reload "a.lua" ⟨300, 0⟩ "broken").world.spawns.rules.entries.map fun e =>
        (e.1, e.2.owner)) =
          [(⟨"park", "rose"⟩, .surface 3), (⟨"plaza", "torch"⟩, .surface 5)] ∧
      (s.reload "a.lua" ⟨300, 0⟩ "broken").world.game.commands.keys = [⟨"forge", none⟩] ∧
      (s.reload "a.lua" ⟨300, 0⟩ "broken").world.game.rooms.keys = ["park", "plaza"] ∧
      Site.Isolated s (s.reload "a.lua" ⟨300, 0⟩ "broken") "a.lua"
        (builder.load "a.lua" "broken").requests ∧
      logContent? (s.reload "a.lua" ⟨300, 0⟩ "broken").files "world" "b.lua" =
        logContent? s.files "world" "b.lua" := by
  have ha : FileName.IsEntry "a.lua" := ⟨by decide, by decide, by decide, by decide⟩
  have hb : FileName.IsEntry "b.lua" := ⟨by decide, by decide, by decide, by decide⟩
  let s₀ : Site builder := .start "world" bareFiles none
  let s₁ := s₀.reload "a.lua" ⟨100, 0⟩ "smithy"
  let s := s₁.reload "b.lua" ⟨200, 0⟩ "garden"
  have hrun₁ : Site.Run .all (fun _ _ => True) s₀ s₁ :=
    (Site.Run.refl "world" bareFiles none).tail (.reload s₀ "a.lua" ⟨100, 0⟩ "smithy" trivial)
  have hrun : Site.Run .all (fun _ _ => True) s₀ s :=
    hrun₁.tail (.reload s₁ "b.lua" ⟨200, 0⟩ "garden" trivial)
  have hroot : s.world.root = "world" := by rw [Site.reload_root, Site.reload_root]; rfl
  have htidy₁ : Tidy s₁.files s₁.world.root := by
    rw [Site.reload_root]
    exact Site.reload_tidy rfl bareFiles_tidy ha _ _
  have htidy : Tidy s.files s.world.root := by
    rw [Site.reload_root]
    exact Site.reload_tidy hrun₁.settled htidy₁ hb _ _
  obtain ⟨hisolated, hfiles⟩ := Site.reload_isolated hrun "a.lua" ⟨300, 0⟩ "broken"
  have hlog := (hfiles htidy ha "b.lua" hb (by decide)).1
  rw [hroot] at hlog
  exact ⟨s, hrun, htidy, ha, hb, by decide +kernel, by decide +kernel, by decide +kernel,
    by decide +kernel, hisolated, hlog⟩

/-- The text `old` makes a command that logs a line and fails; any other text logs itself. -/
def scribe : Engine :=
  .ofRuns (fun text => (if text = "old" then [.log "first", .command ⟨"say", none⟩ "" 0]
    else [.log text], none)) fun _ => ([.log "spoken"], some "too loud")

/-- A watched directory in which the log of one module is a link to that of another. -/
def sharedLog : FileTree := bareFiles.put ["world", logsDir, "b.lua"] (.link "a.lua")

/-- Where a log is a link, the load of one module changes the log of another. -/
theorem log_emptied_through_link :
    ∃ s : Site scribe, Site.Run .all (fun _ _ => False) (.start "world" sharedLog none) s ∧
      FileName.IsEntry "a.lua" ∧ FileName.IsEntry "b.lua" ∧
      logContent? s.files "world" "a.lua" = some "x\n".toUTF8 ∧
      logContent? (s.reload "b.lua" ⟨100, 0⟩ "y").files "world" "a.lua" =
        some "y\n".toUTF8 ∧ "x\n".toUTF8 ≠ "y\n".toUTF8 := by
  let s₀ : Site scribe := .start "world" sharedLog none
  exact ⟨s₀.reload "a.lua" ⟨100, 0⟩ "x",
    (Site.Run.refl "world" sharedLog none).tail (.reload s₀ "a.lua" ⟨100, 0⟩ "x" trivial),
    ⟨by decide, by decide, by decide, by decide⟩, ⟨by decide, by decide, by decide, by decide⟩,
    by decide +kernel, by decide +kernel, by decide⟩

end LiveModules
