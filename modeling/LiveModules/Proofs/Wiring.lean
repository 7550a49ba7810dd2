import LiveModules.Proofs.Surfaces

/-!
# How hub and surfaces are wired

In every world that is passed through, the relay stands first among those who hear all events, and
the lists of a surface hold nobody but its spawn check and functions of its own script, in the order
of their numbers (`World.Wired`). A number that was on a list of a superseded surface is smaller
than any on the lists of the current one.
-/

namespace LiveModules

attribute [local irreducible] lastOf

variable {E : Engine} {L : Licence}

namespace World

variable {v w w' : World E}

/-- The relay stands first among those who hear all events, and nowhere else; who is listed on a
surface came after it and is its spawn check or a function of its script. -/
structure Wired (w : World E) : Prop where
  nextId : 0 < w.nextId
  any : ∃ later, w.hub.any = ⟨0, .relay⟩ :: later ∧ ∀ m ∈ later, m.content ≠ .relay
  keyed : ∀ key, ∀ m ∈ w.hub.keyed.listed key, m.content ≠ .relay
  labels : ∀ label id, w.listenerIds.find? label = some id → 0 < id
  ordered : w.Ordered
  current : ∀ module surface, w.surfaceId? module = some surface → surface < w.nextId
  own : ∀ module key, ∀ m ∈ w.subscribers module key, ∃ surface,
    w.surfaceId? module = some surface ∧ surface < m.id ∧
      (m.content = .spawnCheck surface ∧ key = .tick ∨
        ∃ f, m.content = .script f ∧ f.origin = ⟨surface, module⟩)

/-- A pass changes the hub only where the host program registers or removes a listener. -/
theorem hub_cases (h : Pass L w w') : (w'.hub = w.hub ∧ w'.listenerIds = w.listenerIds) ∨
    (∃ key label react, w' = w.listen key label react) ∨ ∃ label, w' = (w.unlisten label).1 := by
  cases h with
  | turn h =>
    cases h with
    | move h =>
      cases h with
      | listen key label react => exact .inr (.inl ⟨key, label, react, rfl⟩)
      | unlisten label => exact .inr (.inr ⟨label, rfl⟩)
      | leave place => exact .inl (by cases place <;> exact ⟨rfl, rfl⟩)
      | unsubscribe key label =>
        obtain ⟨emitter, he, -⟩ := w.unsubscribe_cases key label
        exact .inl (by rw [he]; exact ⟨rfl, rfl⟩)
      | grant origin r =>
        cases r with
        | handler key callback =>
          refine .inl ⟨subscribeScript_hub _ _, ?_⟩
          rcases w.subscribeScript_cases ⟨origin, callback⟩ key with ⟨_, h⟩ | ⟨s, -, -, h⟩ <;>
            rw [grant, h]
          rfl
        | _ => exact .inl ⟨rfl, rfl⟩
      | _ => exact .inl ⟨rfl, rfl⟩
    | _ => exact .inl ⟨rfl, rfl⟩
  | _ => exact .inl ⟨rfl, rfl⟩

/-- A pass makes a fresh surface current, or it leaves the surface and takes from each list or adds
one function of the surface's script. -/
theorem subscribers_cases (h : Pass L w w') (module : String) :
    (w'.surfaceId? module = some w.nextId ∧ w.nextId < w'.nextId ∧
      ∀ key, w'.subscribers module key = [] ∨ key = .tick ∧
        w'.subscribers module key = [⟨w.nextId + 1, .spawnCheck w.nextId⟩]) ∨
    w'.surfaceId? module = w.surfaceId? module ∧
      ∀ key, (w'.subscribers module key).Sublist (w.subscribers module key) ∨
        ∃ f, w.surfaceId? module = some f.origin.surface ∧ f.origin.module = module ∧
          w'.subscribers module key = w.subscribers module key ++ [⟨w.nextId, .script f⟩] := by
  have same (hs : w'.surfaces = w.surfaces) : w'.surfaceId? module = w.surfaceId? module ∧
      ∀ key, (w'.subscribers module key).Sublist (w.subscribers module key) ∨
        ∃ f, w.surfaceId? module = some f.origin.surface ∧ f.origin.module = module ∧
          w'.subscribers module key = w.subscribers module key ++ [⟨w.nextId, .script f⟩] := by
    refine ⟨by rw [surfaceId?, hs, surfaceId?], fun key => .inl ?_⟩
    rw [subscribers, roster, hs]
    exact List.Sublist.refl _
  cases h with
  | turn h =>
    cases h with
    | move h =>
      cases h with
      | leave place id label event =>
        refine .inr ⟨surfaceId?_updateRoster _ place module, fun key => .inl ?_⟩
        rw [subscribers, listed_updateRoster_remove]
        split
        · exact List.filter_sublist
        · exact List.Sublist.refl _
      | unlisten label =>
        obtain ⟨hub, he, -⟩ := w.unlisten_cases label
        exact .inr (same (by rw [he]))
      | unsubscribe key label =>
        obtain ⟨emitter, he, -⟩ := w.unsubscribe_cases key label
        exact .inr (same (by rw [he]))
      | grant origin r =>
        cases r with
        | handler key callback =>
          refine .inr ⟨surfaceId?_subscribeScript ⟨origin, callback⟩ key module, fun key' => ?_⟩
          rcases w.subscribeScript_cases ⟨origin, callback⟩ key with ⟨_, h⟩ | ⟨s, hs, hid, h⟩ <;>
            rw [grant, h]
          · exact .inl (List.Sublist.refl _)
          · rw [subscribers, listed_updateRoster_add (w := { w with nextId := w.nextId + 1 }) hs]
            split
            · rename_i hk
              obtain ⟨hm, -⟩ := hk
              cases hm
              refine .inr ⟨⟨origin, callback⟩, ?_, rfl, rfl⟩
              rw [surfaceId?, hs, Option.map_some, hid]
            · exact .inl (List.Sublist.refl _)
        | _ => exact .inr (same rfl)
      | _ => exact .inr (same rfl)
    | beginLoad module' modified =>
      by_cases hm : module = module'
      · subst hm
        refine .inl ⟨by rw [surfaceId?_beginLoad, if_pos rfl], ?_, fun key => ?_⟩
        · exact Nat.lt_add_of_pos_right (Nat.succ_pos 1)
        · rw [subscribers, listed_beginLoad, if_pos rfl]
          split
          · rename_i hk
            exact .inr ⟨hk, rfl⟩
          · exact .inl rfl
      · refine .inr ⟨by rw [surfaceId?_beginLoad, if_neg hm], fun key => .inl ?_⟩
        rw [subscribers, listed_beginLoad, if_neg (by simpa using hm)]
        exact List.Sublist.refl _
    | _ => exact .inr (same rfl)
  | _ => exact .inr (same rfl)

namespace Wired

theorem start (root : String) : (World.empty root : World E).attachRelay.Wired where
  nextId := Nat.one_pos
  any := ⟨[], rfl, fun _ hm => (by cases hm)⟩
  keyed _ _ hm := by cases hm
  labels _ _ h := by cases h
  ordered _ _ := .nil
  current _ _ h := by cases h
  own _ _ _ hm := by cases hm

theorem hub (h : w.Wired) (ht : Pass L w w') :
    (∃ later, w'.hub.any = ⟨0, .relay⟩ :: later ∧ ∀ m ∈ later, m.content ≠ .relay) ∧
      (∀ key, ∀ m ∈ w'.hub.keyed.listed key, m.content ≠ .relay) ∧
      ∀ label id, w'.listenerIds.find? label = some id → 0 < id := by
  obtain ⟨later, ha, hl⟩ := h.any
  rcases hub_cases ht with ⟨hh, hi⟩ | ⟨key, label, react, rfl⟩ | ⟨label, rfl⟩
  · rw [hh, hi]
    exact ⟨⟨later, ha, hl⟩, h.keyed, h.labels⟩
  · refine ⟨?_, fun key' m hm => ?_, fun label' id hid => ?_⟩
    · cases key with
      | some key => exact ⟨later, ha, hl⟩
      | none =>
        refine ⟨later ++ [⟨w.nextId, .plan label react⟩], ?_, fun m hm => ?_⟩
        · show w.hub.any ++ _ = _
          rw [ha, List.cons_append]
        · rcases List.mem_append.1 hm with hm | hm
          · exact hl m hm
          · rw [List.mem_singleton.1 hm]
            exact Listener.noConfusion
    · cases key with
      | some key =>
        rcases Roster.mem_listed_add hm with hm | ⟨-, rfl⟩
        · exact h.keyed key' m hm
        · exact Listener.noConfusion
      | none => exact h.keyed key' m hm
    · simp only [listen, Table.find?_insert] at hid
      split at hid
      · exact Option.some.inj hid ▸ h.nextId
      · exact h.labels label' id hid
  · unfold unlisten
    split
    · exact ⟨⟨later, ha, hl⟩, h.keyed, h.labels⟩
    · rename_i id hid
      -- the number of a label is not that of the relay
      have hne : (0 != id) = true := bne_iff_ne.2 (Nat.ne_of_lt (h.labels label id hid))
      refine ⟨⟨later.filter (·.id != id), ?_, fun m hm => hl m (List.mem_filter.1 hm).1⟩,
        fun key m hm => ?_, h.labels⟩
      · show w.hub.any.filter _ = _
        rw [ha]
        exact List.filter_cons_of_pos hne
      · rw [Hub.off, Roster.listed_removeAll] at hm
        exact h.keyed key m (List.mem_filter.1 hm).1

theorem pass (h : w.Wired) (hn : w.Numbered) (ht : Pass L w w') : w'.Wired where
  nextId := Nat.lt_of_lt_of_le h.nextId ht.nextId_le
  any := (h.hub ht).1
  keyed := (h.hub ht).2.1
  labels := (h.hub ht).2.2
  ordered module key := by
    rcases subscribers_cases ht module with ⟨-, -, hl⟩ | ⟨-, hl⟩
    · rcases hl key with hl | ⟨-, hl⟩ <;> rw [hl]
      · exact .nil
      · exact List.pairwise_singleton _ _
    · rcases hl key with hl | ⟨f, -, -, hl⟩
      · exact (h.ordered module key).sublist hl
      · rw [hl]
        refine List.pairwise_append.2 ⟨h.ordered module key, List.pairwise_singleton _ _, ?_⟩
        intro a ha b hb
        rw [List.mem_singleton.1 hb]
        exact hn.lt (.surface module) key a ha
  current module surface hs := by
    rcases subscribers_cases ht module with ⟨hs', hlt, -⟩ | ⟨hs', -⟩
    · rw [hs'] at hs
      exact Option.some.inj hs ▸ hlt
    · rw [hs'] at hs
      exact Nat.lt_of_lt_of_le (h.current module surface hs) ht.nextId_le
  own module key m hm := by
    rcases subscribers_cases ht module with ⟨hs', -, hl⟩ | ⟨hs', hl⟩
    · rcases hl key with hl | ⟨hk, hl⟩ <;> rw [hl] at hm
      · cases hm
      · rw [List.mem_singleton.1 hm]
        exact ⟨w.nextId, hs', Nat.lt_succ_self _, .inl ⟨rfl, hk⟩⟩
    · rw [hs']
      rcases hl key with hl | ⟨f, hs, hmod, hl⟩
      · exact h.own module key m (hl.subset hm)
      · rw [hl] at hm
        rcases List.mem_append.1 hm with hm | hm
        · exact h.own module key m hm
        · rw [List.mem_singleton.1 hm]
          refine ⟨f.origin.surface, hs, h.current module _ hs, .inr ⟨f, rfl, ?_⟩⟩
          rw [← hmod]

end Wired

/-- Where a surface was superseded meanwhile, the current one has a number that was not given out
before. -/
theorem superseded_le (h : Passes L v w) (module : String) :
    w.surfaceId? module = v.surfaceId? module ∨
      ∃ surface, w.surfaceId? module = some surface ∧ v.nextId ≤ surface := by
  induction h with
  | refl => exact .inl rfl
  | tail h ht ih =>
    rcases subscribers_cases ht module with ⟨hs, -, -⟩ | ⟨hs, -⟩
    · exact .inr ⟨_, hs, Passes.nextId_le h⟩
    · rwa [hs]

end World

theorem Site.Run.wired {C : FileTree → FileTree → Prop} {s₀ s : Site E} (h : Run L C s₀ s)
    {w : World E} (hw : Passes L s₀.world w) : w.Wired :=
  h.passed_induction World.Wired.start (fun _ _ hl hv ht => hv.pass hl.numbered ht) hw

end LiveModules
