import LiveModules.Proofs.Table
import LiveModules.Roster

/-!
# What the lists of a roster hold

To add somebody puts them at the end of one list (`listed_add`), to take somebody off leaves all
others in their order (`listed_remove`, `listed_removeAll`).
-/

namespace LiveModules

variable {α : Type}

namespace Roster

@[simp] theorem listed_empty (key : EventKey) : (empty : Roster α).listed key = [] := rfl

theorem listed_add (r : Roster α) (key key' : EventKey) (id : Nat) (content : α) :
    (r.add key id content).listed key' =
      if key' = key then r.listed key ++ [⟨id, content⟩] else r.listed key' := by
  simp only [listed, add, Table.find?_insert]
  split <;> simp

theorem listed_keep (r : Roster α) (p : EventKey → Member α → Bool) (key : EventKey) :
    (r.keep p).listed key = (r.listed key).filter (p key) := by
  simp only [listed, keep, Table.find?_filter, Table.find?_mapValues]
  rcases r.lists.find? key with _ | members
  · rfl
  · rcases h : members.filter (p key) with _ | ⟨m, rest⟩ <;> simp [h, Option.filter]

theorem listed_remove (r : Roster α) (key key' : EventKey) (id : Nat) :
    (r.remove key id).listed key' =
      if key' = key then (r.listed key).filter (·.id != id) else r.listed key' := by
  rw [remove, listed_keep]
  split
  · rename_i h
    simp [h]
  · rename_i h
    simp [h]

theorem listed_removeAll (r : Roster α) (key : EventKey) (id : Nat) :
    (r.removeAll id).listed key = (r.listed key).filter (·.id != id) :=
  listed_keep r _ key

theorem find?_keep (r : Roster α) (p : EventKey → Member α → Bool) (key : EventKey) :
    (r.keep p).lists.find? key =
      ((r.lists.find? key).map fun members => members.filter (p key)).filter (!·.isEmpty) := by
  rw [keep, Table.find?_filter, Table.find?_mapValues]

theorem keep_comm (r : Roster α) (p q : EventKey → Member α → Bool) :
    (r.keep p).keep q = (r.keep q).keep p := by
  have hlists : ((r.keep p).keep q).lists = ((r.keep q).keep p).lists := by
    ext1 key
    simp only [find?_keep]
    rcases r.lists.find? key with _ | members
    · rfl
    · have hpq : (members.filter (p key)).filter (q key) =
          (members.filter (q key)).filter (p key) := by simp [List.filter_filter, Bool.and_comm]
      rcases hp : members.filter (p key) with _ | ⟨a, as⟩ <;>
        rcases hq : members.filter (q key) with _ | ⟨b, bs⟩
      · simp [hp, hq, Option.filter]
      · rw [hp, hq] at hpq
        simp [hp, hq, Option.filter, ← hpq]
      · rw [hp, hq] at hpq
        simp [hp, hq, Option.filter, hpq]
      · rw [hp, hq] at hpq
        simp [hp, hq, Option.filter, hpq]
  exact congrArg Roster.mk hlists

/-- Somebody with another number may as well come after a leave as before it. -/
theorem remove_add (r : Roster α) (key key' : EventKey) {id id' : Nat} (h : id' ≠ id)
    (content : α) :
    (r.add key' id' content).remove key id = (r.remove key id).add key' id' content := by
  have hlists : ((r.add key' id' content).remove key id).lists =
      ((r.remove key id).add key' id' content).lists := by
    ext1 k
    simp only [remove, add, find?_keep, Table.find?_insert, listed_keep]
    split
    · rename_i hk
      subst hk
      simp [h, Option.filter]
    · rfl
  exact congrArg Roster.mk hlists

theorem contains_iff {r : Roster α} {key : EventKey} {id : Nat} :
    r.contains key id = true ↔ ∃ m ∈ r.listed key, m.id = id := by
  simp [contains]

/-- To take a number off a list makes it shorter exactly if it was on it. -/
theorem count_remove_ne (r : Roster α) (key : EventKey) (id : Nat) :
    decide ((r.remove key id).count key ≠ r.count key) = r.contains key id := by
  rw [Bool.eq_iff_iff, decide_eq_true_iff, count, count, listed_remove, if_pos rfl, ne_eq,
    List.length_filter_eq_length_iff, contains_iff]
  simp

theorem members_removeAll (r : Roster α) (id : Nat) :
    (r.removeAll id).members = r.members.filter (·.id != id) := by
  have hlists (entries : List (EventKey × List (Member α))) :
      (((entries.map fun e => (e.1, e.2.filter (·.id != id))).filter (!·.2.isEmpty)).map
        (·.2)).flatten = (entries.map (·.2)).flatten.filter (·.id != id) := by
    induction entries with
    | nil => rfl
    | cons e rest ih =>
      rcases he : e.2.filter (·.id != id) with _ | ⟨m, ms⟩ <;> simp_all
  exact hlists r.lists.entries

theorem mentions_iff_members {r : Roster α} {id : Nat} :
    r.mentions id = true ↔ ∃ m ∈ r.members, m.id = id := by
  simp only [mentions, members, List.any_eq_true, List.mem_flatten, beq_iff_eq]
  exact ⟨fun ⟨l, hl, m, hm, hid⟩ => ⟨m, ⟨l, hl, hm⟩, hid⟩,
    fun ⟨m, ⟨l, hl, hm⟩, hid⟩ => ⟨l, hl, m, hm, hid⟩⟩

theorem mem_listed_add {r : Roster α} {key key' : EventKey} {id : Nat} {content : α} {m : Member α}
    (h : m ∈ (r.add key id content).listed key') :
    m ∈ r.listed key' ∨ (key' = key ∧ m = ⟨id, content⟩) := by
  rw [listed_add] at h
  split at h
  · rename_i hk
    rcases List.mem_append.1 h with h | h
    · exact .inl (hk ▸ h)
    · exact .inr ⟨hk, by simpa using h⟩
  · exact .inl h

theorem mem_listed_remove {r : Roster α} {key key' : EventKey} {id : Nat} {m : Member α}
    (h : m ∈ (r.remove key id).listed key') : m ∈ r.listed key' := by
  rw [listed_remove] at h
  split at h
  · rename_i hk
    exact hk ▸ (List.mem_filter.1 h).1
  · exact h

end Roster

namespace Hub

theorem mem_hearers {h : Hub α} {key : EventKey} {m : Member α} :
    m ∈ h.hearers key ↔ m ∈ h.keyed.listed key ∨ m ∈ h.any := by
  simp [hearers]

theorem mem_hearers_on {h : Hub α} {key key' : EventKey} {id : Nat} {content : α} {m : Member α}
    (hm : m ∈ (h.on key id content).hearers key') :
    m ∈ h.hearers key' ∨ m = ⟨id, content⟩ := by
  rcases mem_hearers.1 hm with hm | hm
  · rcases Roster.mem_listed_add hm with hm | ⟨-, hm⟩
    · exact .inl (mem_hearers.2 (.inl hm))
    · exact .inr hm
  · exact .inl (mem_hearers.2 (.inr hm))

theorem mem_hearers_onAny {h : Hub α} {key : EventKey} {id : Nat} {content : α} {m : Member α}
    (hm : m ∈ (h.onAny id content).hearers key) : m ∈ h.hearers key ∨ m = ⟨id, content⟩ := by
  simpa [hearers, onAny, or_assoc] using hm

theorem mem_hearers_off {h : Hub α} {key : EventKey} {id : Nat} {m : Member α}
    (hm : m ∈ (h.off id).hearers key) : m ∈ h.hearers key := by
  rcases mem_hearers.1 hm with hm | hm
  · rw [off, Roster.listed_removeAll] at hm
    exact mem_hearers.2 (.inl (List.mem_filter.1 hm).1)
  · exact mem_hearers.2 (.inr (List.mem_filter.1 hm).1)

/-- To take a number off leaves fewer exactly if it was there. -/
theorem size_off_ne (h : Hub α) (id : Nat) :
    decide ((h.off id).size ≠ h.size) = h.contains id := by
  have hany := List.length_filter_le (·.id != id) h.any
  have hkeyed := List.length_filter_le (·.id != id) h.keyed.members
  have hany' := List.length_filter_eq_length_iff (p := (·.id != id)) (l := h.any)
  have hkeyed' := List.length_filter_eq_length_iff (p := (·.id != id)) (l := h.keyed.members)
  have hsize : (h.off id).size = h.size ↔
      (∀ m ∈ h.any, (m.id != id) = true) ∧ ∀ m ∈ h.keyed.members, (m.id != id) = true := by
    rw [← hany', ← hkeyed', size, size, off, Roster.members_removeAll]
    dsimp only
    omega
  rw [Bool.eq_iff_iff, decide_eq_true_iff, ne_eq, hsize, contains, Bool.or_eq_true,
    Roster.mentions_iff_members]
  simp only [List.any_eq_true, bne_iff_ne, beq_iff_eq, not_and_or, not_forall, not_not,
    exists_prop]

end Hub

end LiveModules
