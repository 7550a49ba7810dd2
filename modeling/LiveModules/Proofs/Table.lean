import LiveModules.Table
import Mathlib.Data.List.Basic
import Mathlib.Data.List.Nodup

/-!
# What look-ups in a table answer

Each operation is known by what a look-up answers after it, one lemma an operation, so nothing that
comes later goes into the lists. The listings of a table name each key once.
-/

namespace LiveModules

namespace Assoc

variable {κ : Type _} {α : Type _} [Ord κ] [Std.LawfulEqOrd κ]

theorem find?_map {β : Type _} (k : κ) (f : κ → α → β) :
    ∀ entries : List (κ × α),
      find? k (entries.map fun e => (e.1, f e.1 e.2)) = (find? k entries).map (f k)
  | [] => rfl
  | (k', a) :: rest => by
    simp only [List.map_cons, find?]
    split
    · rename_i h
      rw [Std.LawfulEqOrd.eq_of_compare h, Option.map_some]
    · exact find?_map k f rest

theorem eq_of_find?_eq_some {k : κ} {a : α} :
    ∀ {entries : List (κ × α)}, find? k entries = some a → (k, a) ∈ entries
  | [], h => by simp [find?] at h
  | (k', a') :: rest, h => by
    simp only [find?] at h
    split at h
    · rename_i hk
      rw [Std.LawfulEqOrd.eq_of_compare hk, ← Option.some.inj h]
      exact List.mem_cons_self
    · exact List.mem_cons_of_mem _ (eq_of_find?_eq_some h)

theorem find?_insert_self (k : κ) (a : α) :
    ∀ entries : List (κ × α), find? k (insert k a entries) = some a
  | [] => by simp [insert, find?]
  | (k', a') :: rest => by
    simp only [insert]
    split
    · simp [find?]
    · simp [find?]
    · rename_i h
      simp only [find?, h, reduceCtorEq, ↓reduceIte]
      exact find?_insert_self k a rest

theorem find?_insert_of_ne {k k' : κ} (hk : k' ≠ k) (a : α) :
    ∀ entries : List (κ × α), find? k' (insert k a entries) = find? k' entries
  | [] => by simp [insert, find?, hk]
  | (k₀, a₀) :: rest => by
    simp only [insert]
    split
    · simp [find?, hk]
    · rename_i h
      rw [Std.LawfulEqOrd.eq_of_compare h] at hk
      simp [find?, hk, Std.LawfulEqOrd.eq_of_compare h]
    · simp only [find?]
      rw [find?_insert_of_ne hk a rest]

/-- An entry of a list in ascending order is what its key is found to have. -/
theorem find?_eq_some_of_mem {k : κ} {a : α} :
    ∀ {entries : List (κ × α)}, Ascending entries → (k, a) ∈ entries → find? k entries = some a
  | [], _, h => by simp at h
  | (k', a') :: rest, hs, h => by
    simp only [find?]
    rcases List.mem_cons.1 h with h | h
    · cases h
      simp
    · have hlt : compare k' k = .lt := (List.pairwise_cons.1 hs).1 _ h
      have hne : compare k k' ≠ .eq := by
        intro he
        rw [Std.LawfulEqOrd.eq_of_compare he] at hlt
        simp at hlt
      rw [if_neg hne]
      exact find?_eq_some_of_mem (List.pairwise_cons.1 hs).2 h

theorem find?_filter {entries : List (κ × α)} (hs : Ascending entries) (p : κ → α → Bool) (k : κ) :
    find? k (entries.filter fun e => p e.1 e.2) = (find? k entries).filter (p k) := by
  rcases hf : find? k entries with _ | a
  · rcases hg : find? k (entries.filter fun e => p e.1 e.2) with _ | a
    · rfl
    · have := (List.mem_filter.1 (eq_of_find?_eq_some hg)).1
      rw [find?_eq_some_of_mem hs this] at hf
      cases hf
  · by_cases hp : p k a
    · rw [Option.filter_some_pos hp]
      refine find?_eq_some_of_mem (hs.filter _) (List.mem_filter.2 ⟨eq_of_find?_eq_some hf, ?_⟩)
      exact hp
    · rw [Option.filter_some_neg (by simpa using hp)]
      rcases hg : find? k (entries.filter fun e => p e.1 e.2) with _ | b
      · rfl
      · obtain ⟨hm, hb⟩ := List.mem_filter.1 (eq_of_find?_eq_some hg)
        rw [find?_eq_some_of_mem hs hm, Option.some.injEq] at hf
        exact absurd (hf ▸ hb) hp

section Building

omit [Std.LawfulEqOrd κ]

theorem mem_of_mem_ofList {entries : List (κ × α)} {e : κ × α} (h : e ∈ ofList entries) :
    e ∈ entries := by
  suffices ∀ rest acc : List (κ × α), e ∈ rest.foldl (fun acc e => insert e.1 e.2 acc) acc →
      e ∈ acc ∨ e ∈ rest from (this entries [] h).resolve_left List.not_mem_nil
  intro rest
  induction rest with
  | nil => exact fun acc h => .inl h
  | cons e' rest ih =>
    intro acc h
    rcases ih _ h with h | h
    · rcases mem_insert h with rfl | h
      · exact .inr List.mem_cons_self
      · exact .inl h
    · exact .inr (List.mem_cons_of_mem _ h)

variable [Std.TransOrd κ]

theorem insert_of_last {k : κ} {a : α} : ∀ {entries : List (κ × α)},
    (∀ e ∈ entries, compare e.1 k = .lt) → insert k a entries = entries ++ [(k, a)]
  | [], _ => rfl
  | (k', a') :: rest, h => by
    have hgt : compare k k' = .gt := Std.OrientedCmp.gt_iff_lt.2 (h _ List.mem_cons_self)
    simp only [insert, hgt, List.cons_append,
      insert_of_last fun e he => h e (List.mem_cons_of_mem _ he)]

/-- Entries in ascending order make up the list that they are. -/
theorem ofList_of_ascending {entries : List (κ × α)} (h : Ascending entries) :
    ofList entries = entries := by
  suffices ∀ rest acc : List (κ × α), Ascending (acc ++ rest) →
      rest.foldl (fun acc e => insert e.1 e.2 acc) acc = acc ++ rest from this entries [] h
  intro rest
  induction rest with
  | nil => exact fun acc _ => (List.append_nil acc).symm
  | cons e rest ih =>
    intro acc hacc
    have hlast : ∀ e' ∈ acc, compare e'.1 e.1 = .lt := fun e' he =>
      (List.pairwise_append.1 hacc).2.2 e' he e List.mem_cons_self
    rw [List.foldl_cons, insert_of_last hlast,
      ih _ (by rwa [List.append_assoc, List.singleton_append]), List.append_assoc,
      List.singleton_append]

end Building

end Assoc

namespace Table

variable {κ : Type} {α : Type _} [Ord κ]

section Lawful

variable [Std.LawfulEqOrd κ]

@[simp] theorem find?_mapValues {β : Type _} (t : Table κ α) (f : κ → α → β) (k : κ) :
    (t.mapValues f).find? k = (t.find? k).map (f k) :=
  Assoc.find?_map k f t.entries

@[simp] theorem find?_modify_self (t : Table κ α) (k : κ) (f : α → α) :
    (t.modify k f).find? k = (t.find? k).map f := by
  simp [modify]

theorem find?_modify_of_ne {k k' : κ} (t : Table κ α) (hk : k' ≠ k) (f : α → α) :
    (t.modify k f).find? k' = t.find? k' := by
  have hc : compare k k' ≠ .eq := fun h => hk (Std.LawfulEqOrd.eq_of_compare h).symm
  simp [modify, hc]

omit [Std.LawfulEqOrd κ] in
theorem keys_modify (t : Table κ α) (k : κ) (f : α → α) : (t.modify k f).keys = t.keys := by
  simp [keys, modify, mapValues]

omit [Std.LawfulEqOrd κ] in
theorem keys_ascending (t : Table κ α) : t.keys.Pairwise fun a b => compare a b = .lt :=
  List.pairwise_map.2 t.ascending

theorem mem_entries_of_find? {t : Table κ α} {k : κ} {a : α} (h : t.find? k = some a) :
    (k, a) ∈ t.entries :=
  Assoc.eq_of_find?_eq_some h

theorem keys_nodup (t : Table κ α) : t.keys.Nodup := by
  refine t.keys_ascending.imp fun {a b} h he => ?_
  rw [he] at h
  simp at h

@[simp] theorem find?_filter (t : Table κ α) (p : κ → α → Bool) (k : κ) :
    (t.filter p).find? k = (t.find? k).filter (p k) :=
  Assoc.find?_filter t.ascending p k

theorem find?_erase_self (t : Table κ α) (k : κ) : (t.erase k).find? k = none := by
  have h : (t.erase k).find? k = (t.find? k).filter fun _ => compare k k ≠ .eq :=
    find?_filter t (fun k' _ => compare k k' ≠ .eq) k
  simp [h]

theorem find?_erase_of_ne {k k' : κ} (t : Table κ α) (hk : k' ≠ k) :
    (t.erase k).find? k' = t.find? k' := by
  have hc : compare k k' ≠ .eq := fun h => hk (Std.LawfulEqOrd.eq_of_compare h).symm
  have h : (t.erase k).find? k' = (t.find? k').filter fun _ => compare k k' ≠ .eq :=
    find?_filter t (fun k' _ => compare k k' ≠ .eq) k'
  rw [h]
  cases t.find? k' <;> simp [hc]

theorem find?_eq_some_iff {t : Table κ α} {k : κ} {a : α} :
    t.find? k = some a ↔ (k, a) ∈ t.entries :=
  ⟨mem_entries_of_find?, Assoc.find?_eq_some_of_mem t.ascending⟩

theorem mem_keys_iff {t : Table κ α} {k : κ} : k ∈ t.keys ↔ ∃ a, t.find? k = some a := by
  simp only [keys, List.mem_map, Prod.exists, exists_and_right, exists_eq_right,
    find?_eq_some_iff]

variable [Std.TransOrd κ]

/-- Two tables that answer every look-up alike are equal. -/
@[ext] theorem ext {t t' : Table κ α} (h : ∀ k, t.find? k = t'.find? k) : t = t' := by
  have hmem (e : κ × α) : e ∈ t.entries ↔ e ∈ t'.entries := by
    rw [← find?_eq_some_iff, ← find?_eq_some_iff, h]
  have hperm : t.entries.Perm t'.entries :=
    (List.perm_ext_iff_of_nodup (.of_map _ t.keys_nodup) (.of_map _ t'.keys_nodup)).2 hmem
  have hentries : t.entries = t'.entries := by
    refine hperm.eq_of_pairwise (fun a b _ _ hab hba => ?_) t.ascending t'.ascending
    have hlt : compare a.1 a.1 = .lt := Std.TransCmp.lt_trans hab hba
    simp at hlt
  obtain ⟨entries, ascending⟩ := t
  cases hentries
  rfl

@[simp] theorem find?_insert_self (t : Table κ α) (k : κ) (a : α) :
    (t.insert k a).find? k = some a :=
  Assoc.find?_insert_self k a t.entries

theorem find?_insert_of_ne {k k' : κ} (t : Table κ α) (hk : k' ≠ k) (a : α) :
    (t.insert k a).find? k' = t.find? k' :=
  Assoc.find?_insert_of_ne hk a t.entries

/-- Changes that commute on values commute on entries. -/
theorem modify_comm {k k' : κ} (t : Table κ α) {f g : α → α}
    (h : k = k' → ∀ a, f (g a) = g (f a)) :
    (t.modify k f).modify k' g = (t.modify k' g).modify k f := by
  ext1 k₀
  by_cases h₁ : k₀ = k
  · subst h₁
    by_cases h₂ : k₀ = k'
    · subst h₂
      rcases hf : t.find? k₀ with _ | a
      · simp [hf]
      · simp [hf, h rfl]
    · rw [find?_modify_of_ne _ h₂, find?_modify_self, find?_modify_self, find?_modify_of_ne _ h₂]
  · by_cases h₂ : k₀ = k'
    · subst h₂
      rw [find?_modify_self, find?_modify_of_ne _ h₁, find?_modify_of_ne _ h₁, find?_modify_self]
    · rw [find?_modify_of_ne _ h₂, find?_modify_of_ne _ h₁, find?_modify_of_ne _ h₁,
        find?_modify_of_ne _ h₂]

theorem find?_insert [DecidableEq κ] (t : Table κ α) (k k' : κ) (a : α) :
    (t.insert k a).find? k' = if k' = k then some a else t.find? k' := by
  split
  · rename_i h
    rw [h, find?_insert_self]
  · rename_i h
    exact find?_insert_of_ne t h a

theorem insert_insert [DecidableEq κ] (t : Table κ α) (k : κ) (a b : α) :
    (t.insert k a).insert k b = t.insert k b := by
  ext1 k'
  simp only [find?_insert]
  split <;> rfl

theorem insert_of_find? [DecidableEq κ] {t : Table κ α} {k : κ} {a : α} (h : t.find? k = some a) :
    t.insert k a = t := by
  ext1 k'
  rw [find?_insert]
  split_ifs with hk
  · rw [hk, h]
  · rfl

theorem insert_comm [DecidableEq κ] (t : Table κ α) {k k' : κ} (h : k ≠ k') (a b : α) :
    (t.insert k a).insert k' b = (t.insert k' b).insert k a := by
  ext1 k₀
  simp only [find?_insert]
  split_ifs with h₁ h₂
  · exact absurd (h₂.symm.trans h₁) h
  · rfl
  · rfl
  · rfl

end Lawful

end Table

end LiveModules
