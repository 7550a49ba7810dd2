import LiveModules.Proofs.Overwrites
import LiveModules.Proofs.Renumbering

/-!
# A load that is repeated

To load a version again makes a new surface with the same subscribers, and registers the same
entries in the place of those that were there: but for the number of the surface, nothing is there
twice (`reload_idempotent`). The files come to the same, too, unless the way to the error file leads
over that file itself (`log_kept_second_time`).
-/

namespace LiveModules

open Artifacts World

attribute [local irreducible] lastOf

variable {E : Engine} {C : FileTree → FileTree → Prop}

namespace Site

/-- What the second of two loads of one version, which made `s₁` of `s` and then `s₂` of `s₁`,
brings about: surfaces are renumbered, the record counts one load more, the notices are given once
more, and what the script puts off is pending once more. -/
structure Repeats (ρ : Equiv.Perm Nat) (s s₁ s₂ : Site E) (module : String)
    (modified : FileTime) : Prop where
  renumbered : Renumbered ρ s.world.nextId s₁.world s₂.world
  records : s₂.world.records = s₁.world.records.modify module fun r =>
    { r with modified, generation := r.generation + 1 }
  notices : ∃ notices : List Notice,
    s₁.world.game.history = notices.foldl .push s.world.game.history ∧
    s₂.world.game.history = notices.foldl .push s₁.world.game.history ∧
    s₁.world.game.bus = notices.foldl .publish s.world.game.bus ∧
    s₂.world.game.bus = notices.foldl .publish s₁.world.game.bus
  timers : ∃ first second, s₁.world.timers.pending = s.world.timers.pending ++ first ∧
    s₂.world.timers.pending = s₁.world.timers.pending ++ second ∧
    second.map Timer.work = first.map (Timer.renumbered ρ)

section Twice

variable {s s₁ s₂ : Site E} {module source : String} {modified modified' : FileTime}
  (hbelow : s.world.Below s.world.nextId)
  (hi : Isolated s s₁ module (E.load module source).requests)
  (hl : Loaded s s₁ module modified source)
  (hi' : Isolated s₁ s₂ module (E.load module source).requests)
  (hl' : Loaded s₁ s₂ module modified' source)

include hbelow hi hl hi' hl' in
theorem renumbered_again : Renumbered (.swap s.world.nextId s₁.world.nextId) s.world.nextId
    s₁.world s₂.world := by
  have hρ (id : Nat) (h : id < s.world.nextId) :
      Equiv.swap s.world.nextId s₁.world.nextId id = id := by
    have := hl.nextId
    exact Equiv.swap_apply_of_ne_of_ne (by omega) (by omega)
  have hid := Equiv.swap_apply_left s.world.nextId s₁.world.nextId
  generalize Equiv.swap s.world.nextId s₁.world.nextId = ρ at hρ hid ⊢
  have ho := Origin.eq_renumber hid module
  constructor
  case toSteady => exact hl'.steady
  case commands =>
    refine Table.ext fun key => ?_
    rw [Table.find?_mapValues, hi'.commands, hi.commands, Option.map_or,
      hbelow.command_fixed hρ, ho, Request.command?_renumber]
    cases (E.load module source).requests.findSomeRev?
      (Request.command? ⟨s.world.nextId, module⟩ key) <;> rfl
  case rooms =>
    refine Table.ext fun id => ?_
    rw [hi'.rooms, hi.rooms]
    cases (E.load module source).requests.findSomeRev? (Request.room? id) <;> rfl
  case players =>
    refine Table.ext fun name => ?_
    rw [hi'.players, hi.players]
    cases (E.load module source).requests.findSomeRev? (Request.player? name) <;> rfl
  case flag =>
    rw [hl'.flag, hl.flag, Bool.or_assoc, Bool.or_self]
  case rules =>
    refine Table.ext fun key => ?_
    rw [Table.find?_mapValues, hi'.rules, hi.rules, Option.map_or, hbelow.rule_fixed hρ, ho,
      Request.rule?_renumber, hl.surfaceId?]
    cases (E.load module source).requests.findSomeRev?
      (Request.rule? ⟨s.world.nextId, module⟩ key) with
    | none => exact hbelow.rule_unowned (Nat.le_refl _) key _
    | some rule => rfl
  case surfaces =>
    intro name
    by_cases hn : name = module
    · rw [hn, hl'.version, hl.version, Option.map_some, hid]
    · rw [version?_congr (hi'.surfaces name hn), version?_congr (hi.surfaces name hn),
        hbelow.version_fixed hρ]
  case subscribers =>
    intro name key
    by_cases hn : name = module
    · rw [hn]
      exact subscribed_renumber hid key (hi.subscribed key) (hi'.subscribed key)
    · rw [roster_congr (hi'.surfaces name hn), roster_congr (hi.surfaces name hn),
        hbelow.subscribers_fixed hρ]
  case states =>
    have hold (surface : Nat) (hlt : surface < s.world.nextId) :
        s₂.world.states.find? (ρ surface) = s₁.world.states.find? surface := by
      rw [hρ surface hlt]
      exact hi'.states surface (Nat.lt_trans hlt hl.nextId)
    rintro surface (hlt | ⟨name, hcur⟩)
    · exact hold surface hlt
    · rcases hl.current_cases hi hcur with ⟨rfl, -⟩ | ⟨hcur, -⟩
      · rw [hid, hl'.state, hl.state]
      · exact hold surface (hbelow.current name surface hcur)

include hi hl hi' in
/-- Each time the same work is put off, by functions of the surface of that time. -/
theorem timers_again : ∃ first second,
    s₁.world.timers.pending = s.world.timers.pending ++ first ∧
    s₂.world.timers.pending = s₁.world.timers.pending ++ second ∧
    second.map Timer.work =
      first.map (Timer.renumbered (.swap s.world.nextId s₁.world.nextId)) := by
  obtain ⟨first, hp, -, hw⟩ := hi.timers
  obtain ⟨second, hp', -, hw'⟩ := hi'.timers
  refine ⟨first, second, hp, hp', ?_⟩
  have ho := Origin.eq_renumber (Equiv.swap_apply_left s.world.nextId s₁.world.nextId) module
  rw [hw', ho, Request.work?_renumber _ _ hl.steady.clock, ← hw, List.map_map]
  rfl

include hl hi' hl' in
theorem records_again : s₂.world.records = s₁.world.records.modify module fun r =>
    { r with modified := modified', generation := r.generation + 1 } := by
  refine Table.ext fun name => ?_
  by_cases hn : name = module
  · rw [hn, Table.find?_modify_self, hl'.record, openRecord, hl.record]
    rfl
  · rw [Table.find?_modify_of_ne _ hn, hi'.records name hn]

end Twice

variable {s : Site E}

theorem reload_repeats (hbelow : s.world.Below s.world.nextId) (module : String)
    (modified modified' : FileTime) (source : String) :
    ∃ ρ : Equiv.Perm Nat, (∀ id, id < s.world.nextId → ρ id = id) ∧
      Repeats ρ s (s.reload module modified source)
        ((s.reload module modified source).reload module modified' source) module modified' := by
  have hi := s.isolated module modified source
  have hi' := (s.reload module modified source).isolated module modified' source
  have hl := s.reload_loaded module modified source
  have hl' := (s.reload module modified source).reload_loaded module modified' source
  refine ⟨.swap s.world.nextId (s.reload module modified source).world.nextId, fun id hid => ?_,
    ?_, ?_, ?_, ?_⟩
  · have := hl.nextId
    exact Equiv.swap_apply_of_ne_of_ne (by omega) (by omega)
  · exact renumbered_again hbelow hi hl hi' hl'
  · exact records_again hl hi' hl'
  · exact ⟨(E.load module source).notices module, hl.history, hl'.history, hl.bus, hl'.bus⟩
  · exact timers_again hi hl hi'

/-- Loads a version once for each of the times. -/
def reloads (s : Site E) (module source : String) (times : List FileTime) : Site E :=
  times.foldl (fun s modified => s.reload module modified source) s

/-- However often a version is loaded again, there is no more than after its first load. -/
theorem reloads_renumbered {s₀ : Site E} (module source : String) :
    ∀ (times : List FileTime) {s : Site E} (modified : FileTime), Run .all C s₀ s →
      ∃ ρ : Equiv.Perm Nat, (∀ id, id < s.world.nextId → ρ id = id) ∧
        Renumbered ρ s.world.nextId (s.reload module modified source).world
          ((s.reload module modified source).reloads module source times).world
  | [], _, _, _ => ⟨.refl _, fun _ _ => rfl, .refl _ _⟩
  | modified' :: times, s, modified, h => by
    obtain ⟨ρ, hρ, hr⟩ := reload_repeats h.below module modified modified' source
    have hnext := (s.reload_loaded module modified source).nextId
    have h' : Run .all C s₀ (s.reload module modified source) :=
      h.tail (.reload s module modified source trivial)
    obtain ⟨ρ', hρ', hr'⟩ := reloads_renumbered module source times modified' h'
    refine ⟨ρ.trans ρ', fun id hid => ?_, hr.renumbered.trans hr' (by omega) hρ⟩
    rw [Equiv.trans_apply, hρ id hid, hρ' id (by omega)]

/-- Where a second load leaves the files as they are, so does every later one. -/
theorem reloads_files (hs : s.world.disk = #[]) {module source : String}
    (hc : (E.load module source).failure.isSome = true ∨ ClearWay s.files s.world.root module)
    (modified : FileTime) (times : List FileTime) :
    ((s.reload module modified source).reloads module source times).files =
      (s.reload module modified source).files := by
  have hload {t : Site E} (ho : t.world.disk = #[]) (hr : t.world.root = s.world.root)
      (hf : t.files = (s.reload module modified source).files) (time : FileTime) :
      (t.reload module time source).files = (s.reload module modified source).files := by
    rw [reload_files ho, hr, hf, reload_files hs]
    exact editAll_repeat _ hc
  refine (List.foldlRecOn times _ (motive := fun t : Site E => t.world.disk = #[] ∧
    t.world.root = s.world.root ∧ t.files = (s.reload module modified source).files) ?_ ?_).2.2
  · exact ⟨reload_settled .., reload_root .., rfl⟩
  · rintro t ⟨ho, hr, hf⟩ time -
    exact ⟨reload_settled .., (reload_root ..).trans hr, hload ho hr hf time⟩

/-- To load a version twice comes to the same as to load it once, but for the number of its surface,
the record of the load, the notices and what the script puts off; and so it does however often it is
loaded again. The files are the same, too, if the load fails or the way to the error file does not
lead over that file itself. -/
theorem reload_idempotent {s₀ : Site E} (h : Run .all C s₀ s) (module : String)
    (modified modified' : FileTime) (source : String) :
    let s₁ := s.reload module modified source
    (∃ ρ : Equiv.Perm Nat, (∀ id, id < s.world.nextId → ρ id = id) ∧
      Repeats ρ s s₁ (s₁.reload module modified' source) module modified') ∧
    (∀ times : List FileTime, ∃ ρ : Equiv.Perm Nat, (∀ id, id < s.world.nextId → ρ id = id) ∧
      Renumbered ρ s.world.nextId s₁.world (s₁.reloads module source times).world) ∧
    ((E.load module source).failure.isSome = true ∨ ClearWay s.files s.world.root module →
      (s₁.reload module modified' source).files = s₁.files ∧
      ∀ times : List FileTime, (s₁.reloads module source times).files = s₁.files) :=
  ⟨reload_repeats h.below module modified modified' source,
    fun times => reloads_renumbered module source times modified h,
    fun hc => ⟨reloads_files h.settled hc modified [modified'],
      reloads_files h.settled hc modified⟩⟩

end Site

/-- Every text makes a rule and a handler, puts work off, writes to its log, and then fails. -/
def watchman : Engine :=
  .ofRuns (fun _ => ([.item "plaza" ⟨"lamp", []⟩ 5, .handler .tick 0, .timeout 1000 1, .log "up"],
    some "too dark")) fun _ => ([], none)

/-- A version that fails half-way is loaded a second time: one rule, one handler and one line in the
log as before, and one more timer. -/
theorem broken_version_repeated :
    ∃ s : Site watchman, Site.Run .all (fun _ _ => True) (.start "world" bareFiles none) s ∧
      (watchman.load "a.lua" "v1").failure.isSome = true ∧
      let s₁ := s.reload "a.lua" ⟨100, 0⟩ "v1"
      let s₂ := s₁.reload "a.lua" ⟨200, 0⟩ "v1"
      (s₂.world.spawns.rules.keys = [⟨"plaza", "lamp"⟩] ∧
        (s₂.world.roster (.surface "a.lua")).count .tick = 2 ∧
        s₂.world.timers.pending.length = 2 ∧ s₂.world.generation "a.lua" = 2 ∧
        logContent? s₂.files "world" "a.lua" = some "up\n".toUTF8) ∧
      (∃ ρ : Equiv.Perm Nat, (∀ id, id < s.world.nextId → ρ id = id) ∧
        Site.Repeats ρ s s₁ s₂ "a.lua" ⟨200, 0⟩) ∧ s₂.files = s₁.files := by
  let s : Site watchman := .start "world" bareFiles none
  have hrun : Site.Run .all (fun _ _ => True) s s := Site.Run.refl "world" bareFiles none
  have hfails : (watchman.load "a.lua" "v1").failure.isSome = true := by decide +kernel
  obtain ⟨hrepeats, -, hfiles⟩ :=
    Site.reload_idempotent hrun "a.lua" ⟨100, 0⟩ ⟨200, 0⟩ "v1"
  exact ⟨s, hrun, hfails, by decide +kernel, hrepeats, (hfiles (.inl hfails)).1⟩

/-- A watched directory in which the error file of a module is a link to a directory, the way to
that file leads over the link, and the log of the module is at the same place. -/
def windingFiles : FileTree :=
  (((((FileTree.empty.put ["world"] .dir).put ["world", "d"] .dir).put ["world", "d", "e"] .dir).put
    ["world", "d", "a.lua"] (.link "e")).put ["world", errorsDir] (.link "d/a.lua/..")).put
      ["world", logsDir] (.link "d")

/-- Where the way to the error file leads over that file, nothing is logged by the first load, which
removes the link; and the log of the second one stays. -/
theorem log_kept_second_time :
    ∃ s : Site scribe, s = .start "world" windingFiles none ∧
      let s₁ := s.reload "a.lua" ⟨100, 0⟩ "x"
      let s₂ := s₁.reload "a.lua" ⟨100, 0⟩ "x"
      logContent? s₁.files "world" "a.lua" = none ∧
        logContent? s₂.files "world" "a.lua" = some "x\n".toUTF8 :=
  ⟨.start "world" windingFiles none, rfl, by decide +kernel, by decide +kernel⟩

end LiveModules
