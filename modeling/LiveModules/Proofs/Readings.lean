import LiveModules.Json.Decode
import LiveModules.Proofs.Results
import LiveModules.Proofs.Table

/-!
# Readings that succeed

What a typed reading gives when it gives anything, as equivalences: of a whole text and of one field
of a record. A record is read when each of its members is a field that accepts its draft.
-/

namespace LiveModules

namespace Json

variable {α : Type} {fields : List (String × Draft)} {name : String}
  {read : Draft → Except Fault α} {a x : α}

theorem orStop_eq_ok_iff {stop : Option Fault} : orStop stop a = .ok x ↔ stop = none ∧ a = x := by
  cases stop <;> simp [orStop]

theorem readWhole_eq_ok_iff {shape : Shape} {text : String} :
    readWhole shape read text = .ok a ↔
      ∃ d, Draft.ofText shape text = (d, none) ∧ read d = .ok a := by
  unfold readWhole
  obtain ⟨d, behind⟩ := Draft.ofText shape text
  constructor
  · intro h
    obtain ⟨b, hread, hstop⟩ := Except.bind_eq_ok_iff.1 h
    obtain ⟨rfl, rfl⟩ := orStop_eq_ok_iff.1 hstop
    exact ⟨d, rfl, hread⟩
  · rintro ⟨_, ⟨rfl, rfl⟩, hread⟩
    exact Except.bind_eq_ok_iff.2 ⟨a, hread, rfl⟩

/-- What the fields say of `name`: nothing if none has that name. -/
def given (fields : List (String × Draft)) (name : String) (read : Draft → Except Fault α) :
    Except Fault (Option α) :=
  fieldOr fields name (fun d => (read d).map some) (.ok none)

theorem fieldOr_default_iff :
    fieldOr fields name read (.ok a) = .ok x ↔
      ∃ g, given fields name read = .ok g ∧ g.getD a = x := by
  unfold given fieldOr
  split
  · simp only [Except.map_eq_ok_iff]
    exact ⟨fun h => ⟨some x, ⟨x, h, rfl⟩, rfl⟩, fun ⟨_, ⟨b, h, rfl⟩, hb⟩ => hb ▸ h⟩
  · simp

theorem fieldOr_required_iff {f : Fault} :
    fieldOr fields name read (.error f) = .ok x ↔ given fields name read = .ok (some x) := by
  unfold given fieldOr
  split
  · simp [Except.map_eq_ok_iff]
  · simp

/-- What a field gives was read from a member, or stands for its absence. -/
theorem of_fieldOr {absent : Except Fault α} (h : fieldOr fields name read absent = .ok x) :
    (∃ m ∈ fields, read m.2 = .ok x) ∨ absent = .ok x := by
  unfold fieldOr at h
  split at h
  · rename_i m hm
    exact .inl ⟨m, List.mem_of_find?_eq_some hm, h⟩
  · exact .inr h

/-! ## Records -/

section Forms

variable {form : Form}

theorem spelled_of_toMembers {d : Draft} : ∀ {ds : List (String × Draft)} {members : Members},
    Draft.toMembers ds = .ok members → (name, d) ∈ ds → ∃ v, d.toJson = .ok v
  | (_, _) :: ds, members, h, hm => by
    rw [Draft.toMembers] at h
    obtain ⟨w, hw, h⟩ := Except.bind_eq_ok_iff.1 h
    obtain ⟨ws, hws, -⟩ := Except.bind_eq_ok_iff.1 h
    rcases List.mem_cons.1 hm with hm | hm
    · cases hm
      exact ⟨w, hw⟩
    · exact spelled_of_toMembers hws hm

/-- The member is a field, and its draft passes the check. -/
def Form.Accepts (form : Form) (m : String × Draft) : Prop :=
  ∃ f, form.field? m.1 = some f ∧ f.check m.2 = .ok ()

theorem Form.checkMembers_of_accepts {unnamed : Draft → Except Fault Unit} :
    ∀ (members : List (String × Draft)) (seen : List String),
      (∀ m ∈ members, form.Accepts m ∨ form.field? m.1 = none ∧ unnamed m.2 = .ok ()) →
      (members.map (·.1)).Nodup → (∀ m ∈ members, m.1 ∉ seen) →
      form.checkMembers unnamed seen members = .ok ()
  | [], _, _, _, _ => by rw [checkMembers]
  | (key, d) :: members, seen, hall, hkeys, hseen => by
    rw [List.map_cons, List.nodup_cons] at hkeys
    have hrest := fun m hm => hall m (List.mem_cons_of_mem _ hm)
    rw [checkMembers]
    rcases hall _ List.mem_cons_self with ⟨f, hf, hd⟩ | ⟨hf, hd⟩
    · have hnew : seen.contains key = false := by
        simpa using hseen _ List.mem_cons_self
      have hmore : ∀ m ∈ members, m.1 ∉ key :: seen := fun m hm hmem => by
        rcases List.mem_cons.1 hmem with h | h
        · exact hkeys.1 (List.mem_map.2 ⟨m, hm, h⟩)
        · exact hseen m (List.mem_cons_of_mem _ hm) h
      simp only [hf, hnew, hd]
      exact checkMembers_of_accepts members _ hrest hkeys.2 hmore
    · simp only [hf, hd]
      exact checkMembers_of_accepts members _ hrest hkeys.2
        fun m hm => hseen m (List.mem_cons_of_mem _ hm)

theorem Form.read_of_accepts {members : List (String × Draft)}
    (h : ∀ m ∈ members, form.Accepts m) (hkeys : (members.map (·.1)).Nodup)
    (hpresent : form.checkPresent members = .ok ()) :
    form.read (.object members none) = .ok members := by
  have hall : members.filter (fun m => (form.field? m.1).isSome) = members :=
    List.filter_eq_self.2 fun m hm => by
      obtain ⟨f, hf, -⟩ := h m hm
      rw [hf]
      rfl
  refine Except.bind_eq_ok_iff.2 ⟨(), checkMembers_of_accepts members [] (fun m hm => .inl (h m hm))
    hkeys fun _ _ => List.not_mem_nil, ?_⟩
  exact Except.bind_eq_ok_iff.2 ⟨(), hpresent, congrArg Except.ok hall⟩

theorem Form.readFlattened_of_accepts {named others : List (String × Draft)} {properties : Members}
    (hnamed : ∀ m ∈ named, form.Accepts m) (hothers : ∀ m ∈ others, form.field? m.1 = none)
    (hspell : Draft.toMembers others = .ok properties) (hkeys : (named.map (·.1)).Nodup)
    (hkeys' : (others.map (·.1)).Nodup) (ha : Assoc.Ascending properties)
    (hpresent : form.checkPresent (named ++ others) = .ok ()) :
    form.readFlattened (.object (named ++ others) none) = .ok (named, properties) := by
  have hall : ((named ++ others).map (·.1)).Nodup := by
    rw [List.map_append]
    refine List.nodup_append.2 ⟨hkeys, hkeys', fun key hk key' hk' he => ?_⟩
    obtain ⟨m, hm, rfl⟩ := List.mem_map.1 hk
    obtain ⟨m', hm', rfl⟩ := List.mem_map.1 hk'
    obtain ⟨f, hf, -⟩ := hnamed m hm
    rw [he, hothers m' hm'] at hf
    cases hf
  have hsome : ∀ m ∈ named, (form.field? m.1).isSome = true := fun m hm => by
    obtain ⟨f, hf, -⟩ := hnamed m hm
    rw [hf]
    rfl
  have hfields : (named ++ others).filter (fun m => (form.field? m.1).isSome) = named := by
    rw [List.filter_append, List.filter_eq_self.2 hsome,
      List.filter_eq_nil_iff.2 fun m hm => by simp [hothers m hm], List.append_nil]
  have hrest : (named ++ others).filter (fun m => (form.field? m.1).isNone) = others := by
    rw [List.filter_append, List.filter_eq_nil_iff.2 fun m hm => by
        simpa [← Option.isSome_iff_ne_none] using hsome m hm,
      List.filter_eq_self.2 fun m hm => by simp [hothers m hm], List.nil_append]
  refine Except.bind_eq_ok_iff.2 ⟨(), checkMembers_of_accepts _ [] (fun m hm => ?_) hall
    fun _ _ => List.not_mem_nil, ?_⟩
  · rcases List.mem_append.1 hm with hm | hm
    · exact .inl (hnamed m hm)
    · obtain ⟨v, hv⟩ := spelled_of_toMembers hspell hm
      exact .inr ⟨hothers m hm, by rw [hv]; rfl⟩
  refine Except.bind_eq_ok_iff.2 ⟨(), hpresent, ?_⟩
  refine Except.bind_eq_ok_iff.2 ⟨properties, by rw [hrest]; exact hspell, ?_⟩
  rw [hfields, Assoc.ofList_of_ascending ha]
  rfl

end Forms

end Json

end LiveModules
