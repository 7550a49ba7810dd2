import LiveModules.Proofs.Dispatches
import LiveModules.Proofs.Wiring

/-!
# Ticks and the spawn check

A surface is made with its spawn check on the list of the tick, before its script has run a line.
Whatever callbacks register and however many of them fail and are taken off, the check stays at the
head of that list and stands nowhere else (`World.Guarded`). So a tick that comes to a surface
checks the rules of the surface once, before any handler has its turn (`tick_checks_first`).
-/

namespace LiveModules

attribute [local irreducible] lastOf

variable {E : Engine} {L : Licence} {C : FileTree → FileTree → Prop}

/-- Everybody on a list is a function of the script of this surface. -/
def OfScript (origin : Origin) (members : List (Member (Subscriber E))) : Prop :=
  ∀ m ∈ members, ∃ f, m.content = .script f ∧ f.origin = origin

/-- The spawn check of a surface, under the number that it got when the surface was made. -/
def checkOf (E : Engine) (surface : Nat) : Member (Subscriber E) :=
  ⟨surface + 1, .spawnCheck surface⟩

namespace World

variable {v w w' : World E} {module : String} {surface : Nat} {args : List Json}
  {run : Performer E}

/-! ## The check is not lost -/

/-- The check of a current surface comes first on the list of the tick, and all others there are
functions of scripts. -/
def Guarded (w : World E) : Prop :=
  ∀ module surface, w.surfaceId? module = some surface →
    ∃ own, w.subscribers module .tick = checkOf E surface :: own ∧
      ∀ m ∈ own, ∃ f, m.content = .script f

/-- A pass supersedes the surface of a module, or it leaves the checks of the surface on the list
of the tick. -/
theorem checks_kept (h : Pass L w w') (module : String) :
    (∃ modified, w' = w.beginLoad module modified) ∨
      w'.surfaceId? module = w.surfaceId? module ∧
        ∀ surface, w.Checks module surface → w'.Checks module surface := by
  have same (hs : w'.surfaces = w.surfaces) : w'.surfaceId? module = w.surfaceId? module ∧
      ∀ surface, w.Checks module surface → w'.Checks module surface :=
    ⟨by rw [surfaceId?, hs, surfaceId?], fun surface => (checks_congr hs module surface).2⟩
  cases h with
  | turn h =>
    cases h with
    | move h =>
      cases h with
      | leave place id label event _ _ hleave =>
        exact .inr ⟨surfaceId?_updateRoster _ place module,
          fun surface => (checks_leave hleave module surface).2⟩
      | unlisten label =>
        obtain ⟨hub, he, -⟩ := w.unlisten_cases label
        exact .inr (same (by rw [he]))
      | unsubscribe key label =>
        obtain ⟨emitter, he, -⟩ := w.unsubscribe_cases key label
        exact .inr (same (by rw [he]))
      | grant origin r =>
        cases r with
        | handler key callback =>
          exact .inr ⟨surfaceId?_subscribeScript ⟨origin, callback⟩ key module,
            fun surface => (checks_subscribeScript ⟨origin, callback⟩ key module surface).2⟩
        | _ => exact .inr (same rfl)
      | _ => exact .inr (same rfl)
    | beginLoad module' modified =>
      by_cases hm : module = module'
      · exact .inl ⟨modified, by rw [hm]⟩
      · refine .inr ⟨by rw [surfaceId?_beginLoad, if_neg hm], fun surface hc => ?_⟩
        rwa [checks_beginLoad, if_neg hm]
    | _ => exact .inr (same rfl)
  | _ => exact .inr (same rfl)

namespace Guarded

theorem start (root : String) : (World.empty root : World E).attachRelay.Guarded := by
  intro module surface hs
  cases hs

/-- The surface that a load makes current is guarded from the start. -/
theorem fresh (w : World E) (module : String) (modified : FileTime) :
    (w.beginLoad module modified).subscribers module .tick = [checkOf E w.nextId] := by
  rw [subscribers, listed_beginLoad, if_pos rfl, if_pos rfl]
  rfl

/-- What is left of a list with the check at its head has the check at its head, if the check is
left at all. -/
theorem of_sublist {members own : List (Member (Subscriber E))}
    (hsub : members.Sublist (checkOf E surface :: own))
    (hown : ∀ m ∈ own, ∃ f, m.content = .script f)
    (hc : ∃ m ∈ members, m.content = .spawnCheck surface) :
    ∃ own', members = checkOf E surface :: own' ∧ ∀ m ∈ own', ∃ f, m.content = .script f := by
  cases hsub with
  | cons _ hsub =>
    obtain ⟨m, hm, hcheck⟩ := hc
    obtain ⟨f, hf⟩ := hown m (hsub.subset hm)
    rw [hcheck] at hf
    cases hf
  | cons_cons _ hsub => exact ⟨_, rfl, fun m hm => hown m (hsub.subset hm)⟩

theorem pass (h : w.Guarded) (hw : w.Wired) (ht : Pass L w w') : w'.Guarded := by
  intro module surface hs
  rcases checks_kept ht module with ⟨modified, rfl⟩ | ⟨hsame, hkept⟩
  · rw [surfaceId?_beginLoad, if_pos rfl] at hs
    cases hs
    exact ⟨[], fresh w module modified, fun _ hm => by cases hm⟩
  · obtain ⟨own, he, hown⟩ := h module surface (hsame ▸ hs)
    rcases subscribers_cases ht module with ⟨hs', -, -⟩ | ⟨-, hl⟩
    · -- no current surface has the next number
      have := hw.current module w.nextId (hsame.symm.trans hs')
      exact absurd this (Nat.lt_irrefl _)
    · rcases hl .tick with hsub | ⟨f, -, -, hadd⟩
      · rw [he] at hsub
        refine of_sublist hsub hown (hkept surface ⟨checkOf E surface, ?_, rfl⟩)
        show _ ∈ w.subscribers module .tick
        rw [he]
        exact List.mem_cons_self
      · refine ⟨own ++ [⟨w.nextId, .script f⟩], by rw [hadd, he, List.cons_append], ?_⟩
        intro m hm
        rcases List.mem_append.1 hm with hm | hm
        · exact hown m hm
        · rw [List.mem_singleton.1 hm]
          exact ⟨f, rfl⟩

end Guarded

/-! ## A tick -/

theorem callSubscriber_check (w : World E) (run : Performer E) (place : Place) (event : GameEvent)
    (surface : Nat) : w.callSubscriber run place event (checkOf E surface) =
      ((w.note (.heard place (surface + 1) none event)).spawnCheck run (.surface surface)).map
        fun r => (r.1, .keep) := by
  rw [Option.map_eq_bind]
  rfl

/-- When the check is at the head of the list it has the first turn: the rules of the surface are
checked, and then the others have theirs. -/
theorem takeTurns_check_iff {own : List (Member (Subscriber E))} {called : List Nat}
    (hl : w.subscribers module .tick = checkOf E surface :: own) :
    TakeTurns run (.surface module) ⟨.tick, args⟩ (checkOf E surface :: own) called w w' ↔
      ∃ v keys later,
        (w.note (.heard (.surface module) (surface + 1) none ⟨.tick, args⟩)).spawnCheck run
          (.surface surface) = some (v, keys) ∧
        TakeTurns run (.surface module) ⟨.tick, args⟩ own later v w' ∧
        called = (surface + 1) :: later := by
  have hc : (w.roster (.surface module)).contains .tick (surface + 1) := by
    have hl : (w.roster (.surface module)).listed .tick = checkOf E surface :: own := hl
    rw [Roster.contains, hl, List.any_cons]
    exact Bool.or_eq_true_iff.2 (.inl (beq_self_eq_true _))
  constructor
  · intro ht
    cases ht with
    | pass hn => exact absurd hc hn
    | @call _ _ later _ v _ outcome _ hv ht =>
      rw [callSubscriber_check] at hv
      obtain ⟨⟨v, keys⟩, hcheck, he⟩ := Option.map_eq_some_iff.1 hv
      cases he
      exact ⟨v, keys, later, hcheck, ht, rfl⟩
  · rintro ⟨v, keys, later, hcheck, ht, rfl⟩
    have hcall : w.callSubscriber run (.surface module) ⟨.tick, args⟩ (checkOf E surface) =
        some (v, .keep) := by
      rw [callSubscriber_check, hcheck]
      rfl
    exact .call hc hcall ht

/-- No callback supersedes a surface. -/
theorem dispatch_current {fuel n : Nat} {place : Place} {event : GameEvent} (hw : w.Numbered)
    (h : w.dispatch (perform fuel) place event = some (w', n)) (module : String) :
    w'.surfaceId? module = w.surfaceId? module := by
  have hcovers : Covers (perform fuel) (Evolves (E := E)) :=
    evolves_covers fun hr => evolves_pervades.perform fuel hr
  obtain ⟨_, he⟩ := hcovers.dispatch h hw
  exact he.current module

end World

theorem Site.Run.guarded {s₀ s : Site E} (h : Run L C s₀ s) {w : World E}
    (hw : Passes L s₀.world w) : w.Guarded :=
  (h.passed_induction (P := fun w => w.Wired ∧ w.Guarded)
    (fun root => ⟨.start root, .start root⟩)
    (fun _ _ hl hv ht => ⟨hv.1.pass hl.numbered ht, hv.2.pass hv.1 ht⟩) hw).2

/-- As long as a surface is current, whatever callbacks do, its check is the first on the list of
the tick, once, and all others on its lists are functions of its script. A tick that comes to it
checks the rules of the surface first; then the others that were on the list have their turns, and
the check has no second one. Afterwards it is at the head of the list again. -/
theorem tick_checks_first {s₀ s : Site E} (h : Site.Run L C s₀ s) {w : World E}
    (hw : Passes L s₀.world w) {module : String} {surface : Nat}
    (hs : w.surfaceId? module = some surface) :
    ∃ own, w.subscribers module .tick = checkOf E surface :: own ∧
      OfScript ⟨surface, module⟩ own ∧
      (∀ key, key ≠ .tick → OfScript ⟨surface, module⟩ (w.subscribers module key)) ∧
      ∀ fuel args w' n,
        w.dispatch (perform fuel) (.surface module) ⟨.tick, args⟩ = some (w', n) ↔
          ∃ v keys called,
            (w.note (.heard (.surface module) (surface + 1) none ⟨.tick, args⟩)).spawnCheck
              (perform fuel) (.surface surface) = some (v, keys) ∧
            World.TakeTurns (perform fuel) (.surface module) ⟨.tick, args⟩ own called v w' ∧
            World.Dispatched (.surface module) ⟨.tick, args⟩ ((surface + 1) :: called) w w' ∧
            n = called.length + 1 ∧ w'.surfaceId? module = some surface ∧
            ∃ own', w'.subscribers module .tick = checkOf E surface :: own' := by
  have hwired := h.wired hw
  have hlicensed := h.licensed hw
  have script (key : EventKey) (m : Member (Subscriber E)) (hm : m ∈ w.subscribers module key)
      (hcheck : ¬ (m.content = .spawnCheck surface ∧ key = .tick)) :
      ∃ f, m.content = .script f ∧ f.origin = ⟨surface, module⟩ := by
    obtain ⟨surface', hs', -, hm⟩ := hwired.own module key m hm
    cases hs.symm.trans hs'
    exact hm.resolve_left hcheck
  obtain ⟨own, hl, hown⟩ := h.guarded hw module surface hs
  refine ⟨own, hl, fun m hm => script .tick m ?_ ?_, fun key hk m hm => script key m hm fun hc =>
    hk hc.2, fun fuel args w' n => ?_⟩
  · rw [hl]
    exact List.mem_cons_of_mem _ hm
  · obtain ⟨f, hf⟩ := hown m hm
    rw [hf]
    exact fun hc => nomatch hc.1
  · have hl' : (w.roster (.surface module)).listed .tick = checkOf E surface :: own := hl
    constructor
    · intro hd
      obtain ⟨all, ht, hn⟩ := World.dispatch_iff.1 hd
      have hdispatched := ht.dispatched hlicensed (h.tidy hw)
      obtain ⟨v, keys, called, hcheck, hlater, rfl⟩ :=
        (World.takeTurns_check_iff hl).1 (hl' ▸ ht)
      have hw' := hw.trans (World.dispatch_moves (perform_moves fuel) hlicensed hd).turns.passes
      have hs' := (World.dispatch_current hlicensed.numbered hd module).trans hs
      obtain ⟨own', hown', -⟩ := h.guarded hw' module surface hs'
      exact ⟨v, keys, called, hcheck, hlater, hdispatched, hn, hs', own', hown'⟩
    · rintro ⟨v, keys, called, hcheck, hlater, -, hn, -⟩
      refine World.dispatch_iff.2 ⟨(surface + 1) :: called, ?_, hn⟩
      exact hl' ▸ (World.takeTurns_check_iff hl).2 ⟨v, keys, called, hcheck, hlater, rfl⟩

/-- The text digs a well again whenever it lacks, and hears ticks by a function that fails, but not
before it has brought in another one that fails. -/
def digger : Engine :=
  .ofRuns (fun _ => ([.room "yard" ⟨"", ∅, []⟩, .item "yard" ⟨"well", []⟩ 5, .handler .tick 0,
    .handler .tick 0], none)) fun callback =>
      (if callback = 0 then [.handler .tick 1] else [], some "the spade broke")

/-- When two ticks have rid a module of all its handlers, which were numbered from 3 to 6, the third
finds the check alone, and the well is dug again. -/
theorem check_outlasts_handlers :
    ∃ (s : Site digger) (w' : World digger),
      s.world.surfaceId? "a.lua" = some 1 ∧ s.world.nextId = 7 ∧
      s.world.subscribers "a.lua" .tick = [checkOf digger 1] ∧
      s.world.dispatch (perform 3) (.surface "a.lua") Site.tickEvent = some (w', 1) ∧
      (s.world.note (.heard (.surface "a.lua") 2 none Site.tickEvent)).spawnCheck (perform 3)
        (.surface 1) = some (w', [⟨"yard", "well"⟩]) ∧
      World.Dispatched (.surface "a.lua") Site.tickEvent [2] s.world w' := by
  let s₀ : Site digger := .start "world" .empty none
  let s₁ := s₀.reload "a.lua" ⟨100, 0⟩ ""
  have hrun : (s₁.actAll 9 [.setClock 60, .emit Site.tickEvent, .emit Site.tickEvent,
      .takeItem "yard" "well", .setClock 120]).bind (fun s =>
      (s.world.dispatch (perform 3) (.surface "a.lua") Site.tickEvent).bind fun r =>
        ((s.world.note (.heard (.surface "a.lua") 2 none Site.tickEvent)).spawnCheck (perform 3)
          (.surface 1)).map fun q => (s.world.surfaceId? "a.lua", s.world.nextId,
            (s.world.subscribers "a.lua" .tick).length, r.2, q.2)) =
      some (some 1, 7, 1, 1, [⟨"yard", "well"⟩]) := by
    decide +kernel
  obtain ⟨s, hs, hrun⟩ := Option.bind_eq_some_iff.1 hrun
  obtain ⟨⟨w', n⟩, hd, hrun⟩ := Option.bind_eq_some_iff.1 hrun
  obtain ⟨⟨v, keys⟩, hcheck, he⟩ := Option.map_eq_some_iff.1 hrun
  obtain ⟨hid, hnext, hlen, rfl, rfl⟩ : _ ∧ _ ∧ _ ∧ n = 1 ∧ keys = [⟨"yard", "well"⟩] := by
    simpa only [Prod.mk.injEq] using he
  have h : Site.Run .all (fun _ _ => True) s₀ s :=
    ((Site.Run.refl "world" .empty none).tail (.reload s₀ "a.lua" ⟨100, 0⟩ "" trivial)).actAll
      (fun _ _ => trivial) hs
  obtain ⟨own, hl, -, -, htick⟩ := tick_checks_first h h.passes hid
  obtain rfl : own = [] := by
    rw [hl, List.length_cons] at hlen
    exact List.length_eq_zero_iff.1 (Nat.succ.inj hlen)
  obtain ⟨v', keys', called, hcheck', ht, hdispatched, hn, -⟩ := (htick 3 [] w' 1).1 hd
  obtain rfl : called = [] := List.length_eq_zero_iff.1 (Nat.succ.inj hn).symm
  cases ht
  cases hcheck.symm.trans hcheck'
  exact ⟨s, _, hid, hnext, hl, hd, hcheck, hdispatched⟩

end LiveModules
