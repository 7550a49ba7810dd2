import LiveModules.Script.Capability
import LiveModules.Script.Library.All
import Mathlib.Tactic.SplitIfs

/-!
# The globals of a surface

What a table has under a text is what was put there last (`field_setField`). So before its script
runs a surface has every capability under its name (`install_field`), and the library's functions
under theirs unless a capability has the same name.
-/

namespace LiveModules.Script

theorem Value.eq_nil_of_isNil {v : Value} (h : v.isNil = true) : v = .nil := by
  cases v with
  | nil => rfl
  | _ => cases h

/-! ## Tables -/

namespace TableObject

variable {t : TableObject} {k : Key} {v : Value}

/-- The place of a key is that of its value. -/
def Tidy (t : TableObject) : Prop :=
  ∀ (k : Key) (p : Nat), t.places[k]? = some p → ∃ v : Value, t.slots[p]? = some (k, v)

theorem tidy_empty : TableObject.empty.Tidy := fun k p h => by
  simp [TableObject.empty] at h

theorem setSlot_of_place {p : Nat} (hp : t.places[k]? = some p) :
    t.setSlot k v = { t with slots := t.slots.setIfInBounds p (k, v) } := by
  rw [setSlot, hp]

theorem setSlot_of_none (hp : t.places[k]? = none) : t.setSlot k v = if v.isNil then t else
    { t with slots := t.slots.push (k, v), places := t.places.insert k t.slots.size } := by
  rw [setSlot, hp]

theorem Tidy.lt (h : t.Tidy) {p : Nat} (hp : t.places[k]? = some p) : p < t.slots.size := by
  obtain ⟨v, hv⟩ := h k p hp
  exact (Array.getElem?_eq_some_iff.1 hv).1

theorem Tidy.inj (h : t.Tidy) {k' : Key} {p : Nat} (hp : t.places[k]? = some p)
    (hp' : t.places[k']? = some p) : k = k' := by
  obtain ⟨v, hv⟩ := h k p hp
  obtain ⟨v', hv'⟩ := h k' p hp'
  cases hv.symm.trans hv'
  rfl

theorem Tidy.setSlot (h : t.Tidy) (k : Key) (v : Value) : (t.setSlot k v).Tidy := by
  cases hp : t.places[k]? with
  | some p =>
    rw [setSlot_of_place hp]
    intro k' p' hp'
    by_cases he : p = p'
    · subst he
      cases h.inj hp hp'
      exact ⟨v, by rw [Array.getElem?_setIfInBounds_self_of_lt (h.lt hp)]⟩
    · dsimp only
      rw [Array.getElem?_setIfInBounds_ne he]
      exact h k' p' hp'
  | none =>
    rw [setSlot_of_none hp]
    split
    · exact h
    · intro k' p' hp'
      dsimp only at hp' ⊢
      rw [Std.HashMap.getElem?_insert] at hp'
      split at hp'
      · rename_i he
        cases hp'
        cases beq_iff_eq.1 he
        exact ⟨v, Array.getElem?_push_size⟩
      · obtain ⟨v', hv'⟩ := h k' p' hp'
        refine ⟨v', ?_⟩
        rw [Array.getElem?_push_lt (h.lt hp'), ← hv', Array.getElem?_eq_getElem]

theorem slot_setSlot (h : t.Tidy) (k k' : Key) (v : Value) :
    (t.setSlot k v).slot k' = if k = k' then v else t.slot k' := by
  cases hp : t.places[k]? with
  | some p =>
    rw [setSlot_of_place hp]
    unfold slot
    dsimp only
    split_ifs with he
    · subst he
      rw [hp]
      dsimp only
      rw [Array.getElem?_setIfInBounds_self_of_lt (h.lt hp)]
      rfl
    · cases hp' : t.places[k']? with
      | none => rfl
      | some p' =>
        have hne : p ≠ p' := fun hpp => he (h.inj hp (hpp ▸ hp'))
        dsimp only
        rw [Array.getElem?_setIfInBounds_ne hne]
  | none =>
    rw [setSlot_of_none hp]
    split_ifs with hv he he
    · subst he
      rw [Value.eq_nil_of_isNil hv, slot, hp]
    · rfl
    · subst he
      unfold slot
      dsimp only
      rw [Std.HashMap.getElem?_insert_self]
      dsimp only
      rw [Array.getElem?_push_size]
      rfl
    · unfold slot
      dsimp only
      rw [Std.HashMap.getElem?_insert, if_neg (by rwa [beq_iff_eq])]
      cases hp' : t.places[k']? with
      | none => rfl
      | some p' =>
        dsimp only
        rw [Array.getElem?_push_lt (h.lt hp'), Array.getElem?_eq_getElem (h.lt hp')]

end TableObject

/-! ## Fields -/

namespace Heap

variable {h : Heap}

/-- Every table is tidy, and those that are always there are. -/
structure Sound (h : Heap) : Prop where
  size : stringMeta < h.tables.size
  tidy : ∀ id, (h.table id).Tidy

theorem table_modifyTable (h : Heap) (id id' : Nat) (f : TableObject → TableObject)
    (hid : id < h.tables.size) :
    (h.modifyTable id f).table id' = if id = id' then f (h.table id) else h.table id' := by
  unfold table modifyTable
  dsimp only
  rw [Array.getElem?_modify]
  split_ifs with he
  · subst he
    rw [Array.getElem?_eq_getElem hid]
    rfl
  · rfl

theorem field_setField (hs : h.Sound) {id : Nat} (hid : id < h.tables.size) (name : String)
    (v : Value) (id' : Nat) (name' : String) : (h.setField id name v).field id' name' =
      if id = id' ∧ name = name' then v else h.field id' name' := by
  unfold setField rawSet field
  rw [table_modifyTable h id id' _ hid]
  by_cases he : id = id'
  · subst he
    rw [if_pos rfl]
    refine (TableObject.slot_setSlot (hs.tidy id) _ _ v).trans ?_
    by_cases hname : name = name'
    · rw [if_pos (by rw [hname]), if_pos ⟨rfl, hname⟩]
    · rw [if_neg, if_neg fun h => hname h.2]
      · rfl
      · exact fun hkey => hname (String.toByteArray_inj.1 (Key.str.inj hkey))
  · rw [if_neg he, if_neg fun h => he h.1]

theorem size_setField (h : Heap) (id : Nat) (name : String) (v : Value) :
    (h.setField id name v).tables.size = h.tables.size := Array.size_modify

theorem Sound.setField (hs : h.Sound) {id : Nat} (hid : id < h.tables.size) (name : String)
    (v : Value) : (h.setField id name v).Sound := by
  refine ⟨by rw [size_setField]; exact hs.size, fun id' => ?_⟩
  unfold Heap.setField rawSet
  rw [table_modifyTable h id id' _ hid]
  split_ifs
  · exact (hs.tidy id).setSlot _ _
  · exact hs.tidy id'

theorem table_newTable (h : Heap) (id : Nat) : (h.newTable .empty).2.table id = h.table id := by
  unfold newTable table
  dsimp only
  rw [Array.getElem?_push]
  split_ifs with he
  · rw [he, Array.getElem?_eq_none (Nat.le_refl _)]
    rfl
  · rfl

theorem Sound.newTable (hs : h.Sound) : (h.newTable .empty).2.Sound :=
  ⟨Nat.lt_of_lt_of_le hs.size (by simp [Heap.newTable]), fun id => by
    rw [table_newTable]
    exact hs.tidy id⟩

section Fills

variable {α : Type} (name : α → String) (value : α → Value) {id : Nat}

theorem Sound.foldl_setField (hs : h.Sound) (hid : id < h.tables.size) (l : List α) :
    (l.foldl (fun h e => h.setField id (name e) (value e)) h).Sound :=
  (List.foldlRecOn (motive := fun g : Heap => g.Sound ∧ g.tables.size = h.tables.size) l _ ⟨hs, rfl⟩
    fun _ hg _ _ => ⟨hg.1.setField (hg.2 ▸ hid) _ _, (size_setField ..).trans hg.2⟩).1

theorem field_foldl_setField (id' : Nat) (name' : String) : ∀ (l : List α) {h : Heap}, h.Sound →
    id < h.tables.size →
    (l.foldl (fun h e => h.setField id (name e) (value e)) h).field id' name' =
      (l.findSomeRev? fun e =>
        if id = id' ∧ name e = name' then some (value e) else none).getD (h.field id' name')
  | [], _, _, _ => rfl
  | e :: l, h, hs, hid => by
    have ih := field_foldl_setField id' name' l (hs.setField hid (name e) (value e))
      (by rwa [size_setField])
    rw [List.foldl_cons, ih, field_setField hs hid, List.findSomeRev?]
    cases l.findSomeRev? _ with
    | some v => rfl
    | none =>
      dsimp only
      split_ifs <;> rfl

end Fills

end Heap

/-! ## Surfaces -/

theorem Capability.install_field {h : Heap} (hs : h.Sound) : ∀ e ∈ names,
    (install h).field Heap.globals e.1 = .builtin (.capability e.2) := by
  have hid : Heap.globals < h.tables.size := Nat.lt_of_le_of_lt (Nat.zero_le _) hs.size
  have hfield (name : String) := Heap.field_foldl_setField (fun e : String × Capability => e.1)
    (fun e => .builtin (.capability e.2)) Heap.globals name names hs hid
  intro e he
  refine (hfield e.1).trans ?_
  simp only [names, List.mem_cons, List.not_mem_nil, or_false] at he
  rcases he with rfl | rfl | rfl | rfl | rfl | rfl | rfl | rfl | rfl | rfl | rfl | rfl <;> rfl

/-- Values, and errors that are texts, are displayed as the library does it. -/
structure Heap.Plain (h : Heap) : Prop where
  sound : h.Sound
  tostring : h.field globals "tostring" = .builtin (.native .tostring)
  errors : h.field stringMeta "__tostring" = .nil

namespace Heap

variable {h : Heap} {id : Nat} {name : String}

theorem Plain.setField (hp : h.Plain) (hid : id < h.tables.size) (v : Value)
    (hname : id = globals → name ≠ "tostring") (hmeta : id = stringMeta → name ≠ "__tostring") :
    (h.setField id name v).Plain := by
  refine ⟨hp.sound.setField hid _ _, ?_, ?_⟩
  · rw [field_setField hp.sound hid, if_neg fun he => hname he.1 he.2]
    exact hp.tostring
  · rw [field_setField hp.sound hid, if_neg fun he => hmeta he.1 he.2]
    exact hp.errors

theorem Plain.newTable (hp : h.Plain) : (h.newTable .empty).2.Plain := by
  have hfield (id : Nat) (name : String) : (h.newTable .empty).2.field id name = h.field id name :=
    congrArg (TableObject.get · _) (table_newTable h id)
  exact ⟨hp.sound.newTable, (hfield _ _).trans hp.tostring, (hfield _ _).trans hp.errors⟩

/-- A table is filled that is neither the globals nor what strings have in common. -/
theorem Plain.fillTable (hp : h.Plain) (hid : id < h.tables.size) (hglobals : id ≠ globals)
    (hmeta : id ≠ stringMeta) (name : String) : (Library.fillTable name id h).Plain := by
  let P (g : Heap) := g.Plain ∧ id < g.tables.size
  have hstep {g : Heap} (hg : P g) (name : String) (v : Value) : P (g.setField id name v) :=
    ⟨hg.1.setField hg.2 v (fun he => absurd he hglobals) (fun he => absurd he hmeta), by
      rw [size_setField]
      exact hg.2⟩
  exact (List.foldlRecOn (motive := P) _ _
    (List.foldlRecOn (motive := P) _ _ ⟨hp, hid⟩ fun g hg e _ => hstep hg _ _)
    fun g hg e _ => hstep hg _ _).1

theorem Plain.addTable (hp : h.Plain) (hname : name ≠ "tostring") :
    (Library.addTable h name).Plain := by
  have hglobals : globals < h.tables.size := Nat.lt_of_le_of_lt (Nat.zero_le _) hp.sound.size
  unfold Library.addTable
  split
  · have hset := hp.setField hglobals (.table strings) (fun _ => hname) nofun
    exact hset.fillTable (by rw [size_setField]; exact Nat.lt_trans (by decide) hp.sound.size)
      (by decide) (by decide) name
  · have hsize : (h.newTable .empty).2.tables.size = h.tables.size + 1 := Array.size_push ..
    have hset : ((h.newTable .empty).2.setField globals name (h.newTable .empty).1).Plain :=
      hp.newTable.setField (by rw [hsize]; exact Nat.lt_succ_of_lt hglobals) _ (fun _ => hname)
        nofun
    refine hset.fillTable ?_ (Nat.ne_of_gt hglobals) (Nat.ne_of_gt hp.sound.size) name
    rw [size_setField, hsize]
    exact Nat.lt_succ_self _

theorem sound_empty : Heap.empty.Sound := by
  refine ⟨by decide, fun id => ?_⟩
  have htable : Heap.empty.table id = .empty := by
    unfold table
    rcases id with _ | _ | _ | id <;> rfl
  rw [htable]
  exact TableObject.tidy_empty

theorem plain_fresh : Library.fresh.Plain := by
  have hid : globals < Heap.empty.tables.size := by decide
  let functions := Library.entries.filter fun e => e.1 == ""
  let name (e : String × String × Native) := e.2.1
  let value (e : String × String × Native) := Value.builtin (.native e.2.2)
  have hfunctions : (functions.foldl (fun h e => h.setField globals (name e) (value e))
      Heap.empty).Plain := by
    refine ⟨sound_empty.foldl_setField name value hid functions, ?_, ?_⟩
    · rw [field_foldl_setField name value _ _ functions sound_empty hid]
      rfl
    · rw [field_foldl_setField name value _ _ functions sound_empty hid]
      change TableObject.empty.slot (.str "__tostring".toUTF8) = .nil
      simp [TableObject.slot, TableObject.empty]
  have hglobals : (Library.fillTable "" globals .empty).Plain := by
    refine (List.foldlRecOn (motive := fun h : Heap => h.Plain ∧ globals < h.tables.size) _ _
      ⟨hfunctions, Nat.lt_of_le_of_lt (Nat.zero_le _) hfunctions.sound.size⟩ ?_).1
    rintro h ⟨hp, hid⟩ e he
    have hname : ∀ e ∈ Library.constants.filter (fun e => e.1 == ""), e.2.1 ≠ "tostring" := by
      simp [Library.constants]
    exact ⟨hp.setField hid _ (fun _ => hname e he) nofun, by rwa [size_setField]⟩
  have htables : (Library.tables.foldl Library.addTable
      (Library.fillTable "" globals .empty)).Plain := by
    refine List.foldlRecOn (motive := Plain) _ _ hglobals fun h hp name hname => ?_
    exact hp.addTable fun he => absurd (he ▸ hname) (by decide)
  exact htables.setField htables.sound.size _ nofun fun _ => by decide

theorem Plain.install (hp : h.Plain) : (Capability.install h).Plain := by
  refine (List.foldlRecOn (motive := fun h : Heap => h.Plain ∧ globals < h.tables.size)
    Capability.names _ ⟨hp, Nat.lt_of_le_of_lt (Nat.zero_le _) hp.sound.size⟩ ?_).1
  rintro h ⟨hp, hid⟩ e he
  have hname : ∀ e ∈ Capability.names, e.1 ≠ "tostring" := by decide
  exact ⟨hp.setField hid _ (fun _ => hname e he) nofun, by rwa [size_setField]⟩

end Heap

end LiveModules.Script
