import LiveModules.Proofs.Runs

/-!
# Tidy rosters

No list of a roster is empty, numbers ascend along each list, and nobody is on two lists
(`Roster.Tidy`). To take members off keeps a roster tidy, and so does to add one with a new number:
every roster of a world that is passed through is tidy (`Site.Run.tidy`).
-/

namespace LiveModules

attribute [local irreducible] lastOf

namespace Roster

variable {α : Type}

/-- Every list has members, each with a number of their own below `bound`, in ascending order. -/
structure Tidy (r : Roster α) (bound : Nat) : Prop where
  inhabited : ∀ key, r.lists.find? key ≠ some []
  ascending : ∀ key, (r.listed key).Pairwise fun a b => a.id < b.id
  below : ∀ key, ∀ m ∈ r.listed key, m.id < bound
  unique : ∀ key key', ∀ m ∈ r.listed key, ∀ m' ∈ r.listed key', m.id = m'.id →
    key = key' ∧ m = m'

namespace Tidy

variable {r : Roster α} {n n' : Nat}

theorem empty (n : Nat) : (Roster.empty : Roster α).Tidy n := by
  refine ⟨fun key h => ?_, fun _ => .nil, fun _ _ hm => ?_, fun _ _ _ hm => ?_⟩
  · cases h
  · cases hm
  · cases hm

theorem mono (h : r.Tidy n) (hn : n ≤ n') : r.Tidy n' :=
  ⟨h.inhabited, h.ascending, fun key m hm => Nat.lt_of_lt_of_le (h.below key m hm) hn, h.unique⟩

theorem keep (h : r.Tidy n) (p : EventKey → Member α → Bool) : (r.keep p).Tidy n := by
  have hmem {key : EventKey} {m : Member α} (hm : m ∈ (r.keep p).listed key) : m ∈ r.listed key :=
    (List.mem_filter.1 (listed_keep r p key ▸ hm)).1
  refine ⟨fun key hf => ?_, fun key => ?_, fun key m hm => h.below key m (hmem hm),
    fun key key' m hm m' hm' => h.unique key key' m (hmem hm) m' (hmem hm')⟩
  · rw [find?_keep] at hf
    have := (Option.filter_eq_some_iff.1 hf).2
    simp at this
  · rw [listed_keep]
    exact (h.ascending key).filter _

theorem remove (h : r.Tidy n) (key : EventKey) (id : Nat) : (r.remove key id).Tidy n := h.keep _

/-- Somebody new comes last. -/
theorem add (h : r.Tidy n) (key : EventKey) {id : Nat} (hid : n ≤ id) (hn : id < n') (content : α) :
    (r.add key id content).Tidy n' := by
  have hlt : n < n' := Nat.lt_of_le_of_lt hid hn
  have hold (key' : EventKey) (m : Member α) (hm : m ∈ r.listed key') : m.id < id :=
    Nat.lt_of_lt_of_le (h.below key' m hm) hid
  refine ⟨fun key' hf => ?_, fun key' => ?_, fun key' m hm => ?_,
    fun key₁ key₂ m hm m' hm' he => ?_⟩
  · rw [Roster.add, Table.find?_insert] at hf
    split at hf
    · simp at hf
    · exact h.inhabited key' hf
  · rw [listed_add]
    split
    · refine List.pairwise_append.2 ⟨h.ascending key, List.pairwise_singleton _ _, ?_⟩
      intro m hm m' hm'
      rw [List.mem_singleton.1 hm']
      exact hold key m hm
    · exact h.ascending key'
  · rcases mem_listed_add hm with hm | ⟨-, rfl⟩
    · exact Nat.lt_trans (h.below key' m hm) hlt
    · exact hn
  · rcases mem_listed_add hm with hm | ⟨rfl, rfl⟩ <;>
      rcases mem_listed_add hm' with hm' | ⟨rfl, rfl⟩
    · exact h.unique key₁ key₂ m hm m' hm' he
    · exact absurd he (Nat.ne_of_lt (hold key₁ m ‹_›))
    · exact absurd he (Nat.ne_of_gt (hold key₂ m' ‹_›))
    · exact ⟨rfl, rfl⟩

end Tidy

end Roster

variable {E : Engine} {L : Licence} {w w' : World E}

namespace World

/-- The roster of every place is tidy. -/
def Tidy (w : World E) : Prop := ∀ place, (w.roster place).Tidy w.nextId

theorem roster_updateRoster (w : World E) (f : Roster (Subscriber E) → Roster (Subscriber E))
    (place q : Place) : (w.updateRoster f place).roster q = w.roster q ∨
      (w.updateRoster f place).roster q = f (w.roster q) := by
  rcases place with _ | _ | module <;> rcases q with _ | _ | module'
  case surface.surface =>
    simp only [roster, updateRoster]
    by_cases hm : module' = module
    · subst hm
      rw [Table.find?_modify_self]
      rcases w.surfaces.find? module' with _ | s
      · exact .inl rfl
      · exact .inr rfl
    · rw [Table.find?_modify_of_ne _ hm]
      exact .inl rfl
  all_goals first | exact .inl rfl | exact .inr rfl

theorem Tidy.of_rosters (h : w.Tidy) (hr : w'.roster = w.roster) (hn : w.nextId ≤ w'.nextId) :
    w'.Tidy := fun place => hr ▸ (h place).mono hn

/-- What keeps each roster tidy may be done to any of them. -/
theorem tidy_updateRoster {f : Roster (Subscriber E) → Roster (Subscriber E)} {n : Nat}
    (h : ∀ place, (w.roster place).Tidy n) (hf : ∀ place, (f (w.roster place)).Tidy n)
    (place q : Place) : ((w.updateRoster f place).roster q).Tidy n := by
  rcases w.roster_updateRoster f place q with hq | hq <;> rw [hq]
  · exact h q
  · exact hf q

theorem roster_beginLoad (w : World E) (module : String) (modified : FileTime) (place : Place) :
    (w.beginLoad module modified).roster place =
      if place = .surface module then (w.freshSurface module).emitter else w.roster place := by
  rcases place with _ | _ | module'
  · rfl
  · rfl
  · simp only [roster, beginLoad, replaceSurface, note, Place.surface.injEq, Table.find?_insert]
    split <;> rfl

theorem Tidy.subscribeScript (h : w.Tidy) (f : ScriptFunction E) (key : EventKey) :
    (w.subscribeScript f key).Tidy := by
  rcases w.subscribeScript_cases f key with ⟨_, he⟩ | ⟨s, hs, -, he⟩ <;> rw [he]
  · exact h.of_rosters rfl (Nat.le_succ _)
  · refine tidy_updateRoster (w := { w with nextId := w.nextId + 1 })
      (fun q => (h q).mono (Nat.le_succ _)) (fun q => ?_) (.surface f.origin.module)
    exact (h q).add key (Nat.le_refl _) (Nat.lt_succ_self _) _

end World

theorem Pass.tidy (ht : Pass L w w') (h : w.Tidy) : w'.Tidy := by
  cases ht with
  | turn ht =>
    cases ht with
    | beginLoad module modified =>
      intro place
      rw [World.roster_beginLoad]
      split
      · exact (Roster.Tidy.empty w.nextId).add .tick (Nat.le_succ _) (Nat.lt_succ_self _) _
      · exact (h place).mono (Nat.le_add_right _ 2)
    | move ht =>
      cases ht with
      | leave place id label event =>
        intro q
        have hn : ((w.note (.left place id)).updateRoster (·.remove event.key id) place).nextId =
            w.nextId := by cases place <;> rfl
        rw [hn]
        exact World.tidy_updateRoster (w := w.note _) h (fun q => (h q).remove event.key id) place q
      | subscribe key label react =>
        rintro (_ | _ | module)
        · exact (h .hub).mono (Nat.le_succ _)
        · exact (h .emitter).add key (Nat.le_refl _) (Nat.lt_succ_self _) _
        · exact (h (.surface module)).mono (Nat.le_succ _)
      | unsubscribe key label =>
        unfold World.unsubscribe
        split
        · exact h
        · rintro (_ | _ | module)
          · exact h .hub
          · exact (h .emitter).remove key _
          · exact h (.surface module)
      | clear =>
        rintro (_ | _ | module)
        · exact h .hub
        · exact .empty _
        · exact h (.surface module)
      | grant origin r =>
        cases r with
        | handler key callback => exact h.subscribeScript ⟨origin, callback⟩ key
        | _ => exact h.of_rosters rfl (Nat.le_refl _)
      | unlisten label =>
        obtain ⟨hub, he, -⟩ := w.unlisten_cases label
        rw [he]
        exact h.of_rosters rfl (Nat.le_refl _)
      | createCommand | listen => exact h.of_rosters rfl (Nat.le_succ _)
      | _ => exact h.of_rosters rfl (Nat.le_refl _)
    | _ => exact h.of_rosters rfl (Nat.le_refl _)
  | _ => exact h.of_rosters rfl (Nat.le_refl _)

/-- Every roster of a world that is passed through is tidy. -/
theorem Site.Run.tidy {C : FileTree → FileTree → Prop} {s₀ s : Site E} (h : Site.Run L C s₀ s)
    (hw : Passes L s₀.world w) : w.Tidy := by
  refine h.passed_induction (P := World.Tidy) (fun root place => ?_) (fun _ _ _ hv hp => hp.tidy hv)
    hw
  cases place <;> exact .empty _

end LiveModules
