import LiveModules.Proofs.Roster
import LiveModules.World.Registry

/-!
# The rosters of a world

At each place there is a roster. Whatever happens, a list grows by one member at most, and a new
member has a number that nobody had before (`ListsGrow`); so a number is on one list at most
(`World.Numbered`).
-/

namespace LiveModules

namespace World

variable {E : Engine} {D : Type}

theorem listed_updateRoster_remove (w : World E D) (place q : Place) (key key' : EventKey)
    (id : Nat) :
    ((w.updateRoster (·.remove key id) place).roster q).listed key' =
      if q = place ∧ key' = key then ((w.roster q).listed key').filter (·.id != id)
      else (w.roster q).listed key' := by
  rcases place with _ | _ | module <;> rcases q with _ | _ | module' <;>
    simp only [roster, updateRoster, reduceCtorEq, false_and, true_and, ↓reduceIte,
      Roster.listed_empty, List.filter_nil, ite_self, Place.surface.injEq]
  · rw [Roster.listed_remove]
    split
    · rename_i hk
      rw [hk]
    · rfl
  · by_cases hm : module' = module
    · subst hm
      rw [Table.find?_modify_self]
      rcases w.surfaces.find? module' with _ | s
      · simp
      · simp only [Option.map_some, Option.getD_some, true_and, Roster.listed_remove]
        split
        · rename_i hk
          rw [hk]
        · rfl
    · simp [Table.find?_modify_of_ne _ hm, hm]

/-- Where the emitter of a module that is current gets a new subscriber. -/
theorem listed_updateRoster_add {w : World E D} {module : String} {s : Surface E}
    (h : w.surfaces.find? module = some s) (q : Place) (key key' : EventKey) (id : Nat)
    (content : Subscriber E) :
    ((w.updateRoster (·.add key id content) (.surface module)).roster q).listed key' =
      if q = .surface module ∧ key' = key then (w.roster q).listed key' ++ [⟨id, content⟩]
      else (w.roster q).listed key' := by
  rcases q with _ | _ | module' <;>
    simp only [roster, updateRoster, reduceCtorEq, false_and, ↓reduceIte, Place.surface.injEq]
  by_cases hm : module' = module
  · subst hm
    rw [Table.find?_modify_self, h]
    simp only [Option.map_some, Option.getD_some, true_and, Roster.listed_add]
    split
    · rename_i hk
      rw [hk]
    · rfl
  · simp [Table.find?_modify_of_ne _ hm, hm]

theorem isCurrent_iff {w : World E D} {origin : Origin} :
    w.isCurrent origin = true ↔
      ∃ s, w.surfaces.find? origin.module = some s ∧ s.id = origin.surface := by
  unfold isCurrent
  split
  · rename_i s hs
    simp [hs]
  · rename_i hs
    simp [hs]

/-- A script function is subscribed at the end of its list; where its surface was superseded, that
list is of no place. -/
theorem subscribeScript_cases (w : World E D) (f : ScriptFunction E) (key : EventKey) :
    (∃ retired, w.subscribeScript f key = { w with nextId := w.nextId + 1, retired }) ∨
      ∃ s, w.surfaces.find? f.origin.module = some s ∧ s.id = f.origin.surface ∧
        w.subscribeScript f key = { w with nextId := w.nextId + 1 }.updateRoster
          (·.add key w.nextId (.script f)) (.surface f.origin.module) := by
  unfold subscribeScript
  split_ifs with hc
  · obtain ⟨s, hs, hid⟩ := isCurrent_iff.1 hc
    exact .inr ⟨s, hs, hid, rfl⟩
  · exact .inl ⟨_, rfl⟩

theorem listed_beginLoad (w : World E) (module : String) (modified : FileTime) (q : Place)
    (key : EventKey) :
    ((w.beginLoad module modified).roster q).listed key =
      if q = .surface module then
        if key = .tick then [⟨w.nextId + 1, .spawnCheck w.nextId⟩] else []
      else (w.roster q).listed key := by
  rcases q with _ | _ | module' <;>
    simp only [roster, beginLoad, replaceSurface, reduceCtorEq, ↓reduceIte, Place.surface.injEq,
      Table.find?_insert]
  · rfl
  · split
    · simp only [freshSurface, Option.map_some, Option.getD_some, Roster.listed_add,
        Roster.listed_empty, List.nil_append]
      rfl
    · rfl

theorem unlisten_of_find? {w : World E} {label : String} {id : Nat}
    (h : w.listenerIds.find? label = some id) :
    w.unlisten label = ({ w with hub := w.hub.off id }, w.hub.contains id) := by
  simp only [unlisten, h, Hub.size_off_ne]

theorem unsubscribe_of_find? {w : World E} {key : EventKey} {label : String} {id : Nat}
    (h : w.subscriberIds.find? label = some id) :
    w.unsubscribe key label =
      ({ w with emitter := w.emitter.remove key id }, w.emitter.contains key id) := by
  simp only [unsubscribe, h, Roster.count_remove_ne]

theorem unlisten_cases (w : World E) (label : String) :
    ∃ hub, (w.unlisten label).1 = { w with hub } ∧
      ∀ key, ∀ m ∈ hub.hearers key, m ∈ w.hub.hearers key := by
  unfold unlisten
  split
  · exact ⟨w.hub, rfl, fun _ _ => id⟩
  · exact ⟨_, rfl, fun _ _ => Hub.mem_hearers_off⟩

theorem unsubscribe_cases (w : World E) (key : EventKey) (label : String) :
    ∃ emitter, (w.unsubscribe key label).1 = { w with emitter } ∧
      ∀ key', ∀ m ∈ emitter.listed key', m ∈ w.emitter.listed key' := by
  unfold unsubscribe
  split
  · exact ⟨w.emitter, rfl, fun _ _ => id⟩
  · exact ⟨_, rfl, fun _ _ => Roster.mem_listed_remove⟩

/-- Members have numbers that were given out, and a number is on one list at most. -/
structure Numbered (w : World E) : Prop where
  lt : ∀ place key, ∀ m ∈ (w.roster place).listed key, m.id < w.nextId
  unique : ∀ place key key', ∀ m ∈ (w.roster place).listed key,
    ∀ m' ∈ (w.roster place).listed key', m.id = m'.id → key = key' ∧ m = m'

/-- Lists grow by one member at most, and that one has a new number. -/
def ListsGrow (w w' : World E) : Prop :=
  ∃ place₀ key₀, ∃ m₀ : Member (Subscriber E), w.nextId ≤ m₀.id ∧
    ∀ place key, ∀ m ∈ (w'.roster place).listed key, m ∈ (w.roster place).listed key ∨
      (place = place₀ ∧ key = key₀ ∧ m = m₀ ∧ m₀.id < w'.nextId)

variable {w w' : World E}

namespace ListsGrow

theorem of_subset
    (h : ∀ place key, ∀ m ∈ (w'.roster place).listed key, m ∈ (w.roster place).listed key) :
    ListsGrow w w' :=
  ⟨.hub, .tick, ⟨w.nextId, .spawnCheck 0⟩, Nat.le_refl _,
    fun place key m hm => .inl (h place key m hm)⟩

theorem subscribe (key : EventKey) (label : String) (react : Nat → GameEvent → Plan) :
    ListsGrow w (w.subscribe key label react) := by
  refine ⟨.emitter, key, ⟨w.nextId, .plan label react⟩, Nat.le_refl _, fun q key' m hm => ?_⟩
  rcases q with _ | _ | module
  · exact .inl hm
  · rcases Roster.mem_listed_add hm with hm | ⟨hk, hm⟩
    · exact .inl hm
    · exact .inr ⟨rfl, hk, hm, Nat.lt_succ_self _⟩
  · exact .inl hm

theorem subscribeScript (f : ScriptFunction E) (key : EventKey) :
    ListsGrow w (w.subscribeScript f key) := by
  rcases w.subscribeScript_cases f key with ⟨_, h⟩ | ⟨s, hs, -, h⟩
  · rw [h]
    exact .of_subset fun _ _ _ => id
  · refine ⟨.surface f.origin.module, key, ⟨w.nextId, .script f⟩, Nat.le_refl _,
      fun q key' m hm => ?_⟩
    rw [h] at hm ⊢
    rw [listed_updateRoster_add (w := { w with nextId := w.nextId + 1 }) hs] at hm
    split at hm
    · rename_i hq
      rcases List.mem_append.1 hm with hm | hm
      · exact .inl hm
      · exact .inr ⟨hq.1, hq.2, List.mem_singleton.1 hm, Nat.lt_succ_self _⟩
    · exact .inl hm

theorem beginLoad (module : String) (modified : FileTime) :
    ListsGrow w (w.beginLoad module modified) := by
  refine ⟨.surface module, .tick, ⟨w.nextId + 1, .spawnCheck w.nextId⟩, Nat.le_succ _,
    fun q key m hm => ?_⟩
  rw [listed_beginLoad] at hm
  split at hm
  · rename_i hq
    split at hm
    · rename_i hk
      exact .inr ⟨hq, hk, List.mem_singleton.1 hm, Nat.lt_succ_self _⟩
    · cases hm
  · exact .inl hm

end ListsGrow

theorem Numbered.grow (h : w.Numbered) (hn : w.nextId ≤ w'.nextId) (hl : ListsGrow w w') :
    w'.Numbered := by
  obtain ⟨place₀, key₀, m₀, hm₀, hl⟩ := hl
  refine ⟨fun place key m hm => ?_, fun place key key' m hm m' hm' hid => ?_⟩
  · rcases hl place key m hm with hm | ⟨-, -, rfl, hlt⟩
    · exact Nat.lt_of_lt_of_le (h.lt place key m hm) hn
    · exact hlt
  · rcases hl place key m hm with hm | ⟨-, rfl, rfl, -⟩ <;>
      rcases hl place key' m' hm' with hm' | ⟨-, rfl, rfl, -⟩
    · exact h.unique place key key' m hm m' hm' hid
    · exact absurd (h.lt place key m hm) (by omega)
    · exact absurd (h.lt place key' m' hm') (by omega)
    · exact ⟨rfl, rfl⟩

end World

end LiveModules
