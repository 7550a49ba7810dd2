import LiveModules.Proofs.Records
import LiveModules.Proofs.Wiring

/-!
# Surface numbers in use

Whatever the world holds of a surface, its rules, commands, timers and subscribers, names a number
that was given out before. So the number that the next surface gets is new to all of them.
-/

namespace LiveModules

attribute [local irreducible] lastOf

variable {E : Engine} {L : Licence} {w w' : World E}

namespace World

/-- Surfaces that the journal tells of, and those that own rules, have numbers that were given
out. -/
structure Fresh (w : World E) : Prop where
  loading : ∀ module surface modified, .loading module surface modified ∈ w.journal.toList →
    surface < w.nextId
  owners : ∀ key surface, w.owner? key = some (.surface surface) → surface < w.nextId

end World

open World

theorem not_mem_of_loadsTold {entries : List Entry} {module : String}
    (h : loadsTold entries module = 0) (surface : Nat) (modified : FileTime) :
    .loading module surface modified ∉ entries := by
  intro hm
  have hpos : 0 < loadsTold entries module :=
    List.countP_pos_iff.2 ⟨_, hm, by simp [Entry.loads]⟩
  omega

/-- A load is told with the next number; nothing else is told as a load. -/
theorem Pass.loading_cases (h : Pass L w w') {module : String} {surface : Nat}
    {modified : FileTime} (hm : .loading module surface modified ∈ w'.journal.toList) :
    .loading module surface modified ∈ w.journal.toList ∨ surface < w'.nextId := by
  have push {e : Entry} (hj : w'.journal = w.journal.push e)
      (he : e ≠ .loading module surface modified) :
      .loading module surface modified ∈ w.journal.toList := by
    rw [hj, Array.toList_push] at hm
    rcases List.mem_append.1 hm with hm | hm
    · exact hm
    · exact absurd (List.mem_singleton.1 hm).symm he
  cases h with
  | turn h =>
    cases h with
    | move h =>
      obtain ⟨entries, hk⟩ := h.kept
      rw [hk.journal] at hm
      rcases List.mem_append.1 hm with hm | hm
      · exact .inl hm
      · exact absurd hm (not_mem_of_loadsTold (hk.silent module) surface modified)
    | beginLoad name time =>
      have hj : (w.beginLoad name time).journal.toList =
          w.journal.toList ++ [.loading name w.nextId time] := Array.toList_push
      rw [hj] at hm
      rcases List.mem_append.1 hm with hm | hm
      · exact .inl hm
      · cases List.mem_singleton.1 hm
        exact .inr (Nat.lt_add_of_pos_right Nat.two_pos)
    | load name => exact .inl (push rfl Entry.noConfusion)
    | _ => exact .inl hm
  | unwritten => exact .inl (push rfl Entry.noConfusion)
  | _ => exact .inl hm

/-- A rule that a surface owns was its own before, or a script of it just registered the rule. -/
theorem Pass.surface_owner (h : Pass L w w') {key : SpawnKey} {surface : Nat}
    (ho : w'.owner? key = some (.surface surface)) :
    w.owner? key = some (.surface surface) ∨
      ∃ o : Origin, o.Licensed L w.journal.toList ∧ o.surface = surface := by
  cases h with
  | turn h =>
    cases h with
    | move h =>
      cases h with
      | grant origin r hl =>
        cases r with
        | item room template secs =>
          have ho : (if key = ⟨room, template.name⟩ then some (Owner.surface origin.surface)
              else w.owner? key) = some (.surface surface) :=
            (owner?_register (w := w) secs key).symm.trans ho
          split at ho
          · cases ho
            exact .inr ⟨origin, hl, rfl⟩
          · exact .inl ho
        | handler key' callback =>
          rw [owner?, grant, subscribeScript_spawns] at ho
          exact .inl ho
        | _ => exact .inl ho
      | registerSpawn owner room template secs =>
        have ho : (if key = ⟨room, template.name⟩ then some (Owner.label owner)
            else w.owner? key) = some (.surface surface) :=
          (owner?_register (w := w) secs key).symm.trans ho
        split at ho
        · cases ho
        · exact .inl ho
      | releaseSpawns owner => exact .inl (owner?_release ho).1
      | stamp owner now => exact .inl ((owner?_stamp key).symm.trans ho)
      | leave place => exact .inl (by cases place <;> exact ho)
      | unlisten label =>
        obtain ⟨hub, he, -⟩ := w.unlisten_cases label
        rw [he] at ho
        exact .inl ho
      | unsubscribe key label =>
        obtain ⟨emitter, he, -⟩ := w.unsubscribe_cases key label
        rw [he] at ho
        exact .inl ho
      | _ => exact .inl ho
    | beginLoad module modified => exact .inl (owner?_beginLoad ho).1
    | _ => exact .inl ho
  | _ => exact .inl ho

namespace World

theorem Fresh.start (root : String) : (World.empty root : World E).attachRelay.Fresh where
  loading _ _ _ h := by cases h
  owners _ _ h := by cases h

theorem Fresh.pass (h : w.Fresh) (ht : Pass L w w') : w'.Fresh where
  loading module surface modified hm := by
    rcases ht.loading_cases hm with hm | hlt
    · exact Nat.lt_of_lt_of_le (h.loading module surface modified hm) ht.nextId_le
    · exact hlt
  owners key surface ho := by
    rcases ht.surface_owner ho with ho | ⟨o, ⟨-, modified, hl⟩, rfl⟩
    · exact Nat.lt_of_lt_of_le (h.owners key surface ho) ht.nextId_le
    · exact Nat.lt_of_lt_of_le (h.loading _ _ modified hl) ht.nextId_le

/-- Every surface number that the world holds is below `n`: those of functions, of rules and of
surfaces that are current. -/
structure Below (n : Nat) (w : World E) : Prop where
  commands : ∀ key c f, w.game.commands.find? key = some c → c.action = .script f →
    f.origin.surface < n
  tasks : ∀ t ∈ w.timers.pending, ∀ f, t.task = .script f → f.origin.surface < n
  rules : ∀ key rule surface, w.spawns.rules.find? key = some rule → rule.owner = .surface surface →
    surface < n
  current : ∀ module surface, w.surfaceId? module = some surface → surface < n
  scripts : ∀ module key, ∀ m ∈ (w.roster (.surface module)).listed key, ∀ f,
    m.content = .script f → f.origin.surface < n
  checks : ∀ module key, ∀ m ∈ (w.roster (.surface module)).listed key, ∀ surface,
    m.content = .spawnCheck surface → surface < n

end World

namespace Site

variable {C : FileTree → FileTree → Prop} {s₀ s : Site E}

theorem Run.fresh (h : Run L C s₀ s) : s.world.Fresh :=
  h.world_induction Fresh.start fun _ _ _ hv ht => hv.pass ht

/-- The next surface gets a number that nothing in the world names. -/
theorem Run.below (h : Run L C s₀ s) : s.world.Below s.world.nextId := by
  have hfresh := h.fresh
  have hlicensed := h.licensed h.passes
  have hwired := h.wired h.passes
  have hlt {o : Origin} (ho : o.Licensed L s.world.journal.toList) :
      o.surface < s.world.nextId := by
    obtain ⟨-, modified, hl⟩ := ho
    exact hfresh.loading _ _ modified hl
  refine ⟨?_, ?_, ?_, hwired.current, ?_, ?_⟩
  · intro key c f hc hf
    have hl := hlicensed.commands key c hc
    rw [hf] at hl
    exact hlt hl
  · intro t ht f hf
    have hl := hlicensed.tasks t ht
    rw [hf] at hl
    exact hlt hl
  · intro key rule surface hr ho
    refine hfresh.owners key surface ?_
    rw [owner?, hr, Option.map_some, ho]
  · intro module key m hm f hf
    have hl := hlicensed.subscribers (.surface module) key m hm
    rw [hf] at hl
    exact hlt hl
  · intro module key m hm surface hs
    obtain ⟨current, hcur, -, ⟨hc, -⟩ | ⟨f, hf, -⟩⟩ := hwired.own module key m hm
    · rw [hs, Subscriber.spawnCheck.injEq] at hc
      exact hc ▸ hwired.current module current hcur
    · rw [hs] at hf
      cases hf

end Site

end LiveModules
