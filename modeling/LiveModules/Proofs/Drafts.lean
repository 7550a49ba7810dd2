import LiveModules.Proofs.Rereading

/-!
# What a text can spell

A draft that was read from a text nests less deep than the limit, and its integers fit 64 bits
(`ofText_within`). So a value that it spells is legible again, if it has no floats
(`Draft.Within.legible`).
-/

namespace LiveModules.Json

/-- At most `n` brackets stand inside one another, and integers fit 64 bits. -/
inductive Draft.Within : Nat → Draft → Prop where
  | null {n : Nat} : Within n .null
  | bool {n : Nat} {b : Bool} : Within n (.bool b)
  | int {n : Nat} {i : Int} (h : Kept i) : Within n (.number (.int i))
  | float {n : Nat} {x : Float} : Within n (.number (.float x))
  | string {n : Nat} {s : String} : Within n (.string s)
  | array {n : Nat} {items : List Draft} {stop : Option Fault} (h : ∀ d ∈ items, Within n d) :
    Within (n + 1) (.array items stop)
  | object {n : Nat} {members : List (String × Draft)} {stop : Option Fault}
    (h : ∀ m ∈ members, Within n m.2) : Within (n + 1) (.object members stop)
  | broken {n : Nat} {f : Fault} : Within n (.broken f)

variable {fuel depth n : Nat} {shape : Shape} {rest : List Char}

theorem readLiteral_within {word : String} {d : Draft} (h : d.Within n) :
    (readBegun.readLiteral word d rest).1.Within n := by
  unfold readBegun.readLiteral
  split
  · exact .broken
  · exact h

theorem readNumberDraft_within {negative : Bool} :
    (readBegun.readNumberDraft negative rest).1.Within n := by
  unfold readBegun.readNumberDraft
  split
  · exact .broken
  · rename_i number rest' h
    cases number with
    | int i => exact .int (kept_of_readNumber h)
    | float x => exact .float

/-- What all readers give with some fuel is within the brackets that may be opened. -/
structure ReadersWithin (fuel : Nat) : Prop where
  draft : ∀ depth shape cs, (readDraft fuel depth shape cs).1.Within (depth - 1)
  begun : ∀ depth shape c cs, (readBegun fuel depth shape c cs).1.Within (depth - 1)
  items : ∀ depth shapes seen cs, (∀ d ∈ seen, Draft.Within (depth - 1) d) →
    (readItems fuel depth shapes seen cs).1.Within (depth - 1 + 1)
  item : ∀ depth shapes seen cs, (∀ d ∈ seen, Draft.Within (depth - 1) d) →
    (readItem fuel depth shapes seen cs).1.Within (depth - 1 + 1)
  members : ∀ depth shape seen cs, (∀ m ∈ seen, Draft.Within (depth - 1) m.2) →
    (readMembers fuel depth shape seen cs).1.Within (depth - 1 + 1)
  member : ∀ depth shape seen cs, (∀ m ∈ seen, Draft.Within (depth - 1) m.2) →
    (readMember fuel depth shape seen cs).1.Within (depth - 1 + 1)

section Steps

variable {seenItems : List Draft} {seenMembers : List (String × Draft)} {stop : Option Fault}

theorem within_items (h : ∀ d ∈ seenItems, Draft.Within n d) :
    (Draft.array seenItems.reverse stop).Within (n + 1) :=
  .array fun d hd => h d (List.mem_reverse.1 hd)

theorem within_members (h : ∀ m ∈ seenMembers, Draft.Within n m.2) :
    (Draft.object seenMembers.reverse stop).Within (n + 1) :=
  .object fun m hm => h m (List.mem_reverse.1 hm)

variable (ih : ReadersWithin fuel)

include ih

theorem readDraft_within (cs : List Char) :
    (readDraft (fuel + 1) depth shape cs).1.Within (depth - 1) := by
  rw [readDraft]
  split
  · exact .broken
  split
  · exact ih.begun depth shape _ _
  · exact .broken

theorem readBegun_within (c : Char) (cs : List Char) :
    (readBegun (fuel + 1) depth shape c cs).1.Within (depth - 1) := by
  rw [readBegun.eq_def]
  dsimp only
  split
  · exact readLiteral_within .null
  · exact readLiteral_within .bool
  · exact readLiteral_within .bool
  · split
    · exact .broken
    · exact .string
  · exact readNumberDraft_within
  · split
    · exact .broken
    · have := ih.items (depth - 1) shape.items [] cs (List.forall_mem_nil _)
      rwa [show depth - 1 - 1 + 1 = depth - 1 by omega] at this
  · split
    · exact .broken
    · have := ih.members (depth - 1) shape [] cs (List.forall_mem_nil _)
      rwa [show depth - 1 - 1 + 1 = depth - 1 by omega] at this
  · split
    · exact readNumberDraft_within
    · exact .broken

theorem readItems_within (shapes : List Shape) (cs : List Char)
    (h : ∀ d ∈ seenItems, Draft.Within (depth - 1) d) :
    (readItems (fuel + 1) depth shapes seenItems cs).1.Within (depth - 1 + 1) := by
  rw [readItems]
  split
  · exact within_items h
  · exact within_items h
  split
  · exact ih.item depth shapes _ _ h
  split
  · exact within_items h
  split
  · exact within_items h
  · exact within_items h
  · exact ih.item depth shapes _ _ h

theorem readItem_within (shapes : List Shape) (cs : List Char)
    (h : ∀ d ∈ seenItems, Draft.Within (depth - 1) d) :
    (readItem (fuel + 1) depth shapes seenItems cs).1.Within (depth - 1 + 1) := by
  have hd := List.forall_mem_cons.2 ⟨ih.draft depth (shapes.headD .any) cs, h⟩
  rw [readItem]
  dsimp only
  split
  · exact within_items hd
  · exact ih.items depth shapes.tail _ _ hd

theorem readMembers_within (cs : List Char)
    (h : ∀ m ∈ seenMembers, Draft.Within (depth - 1) m.2) :
    (readMembers (fuel + 1) depth shape seenMembers cs).1.Within (depth - 1 + 1) := by
  rw [readMembers]
  split
  · exact within_members h
  · exact within_members h
  split
  · split
    · exact ih.member depth shape _ _ h
    · exact within_members h
  split
  · exact within_members h
  split
  · exact within_members h
  · exact within_members h
  · exact ih.member depth shape _ _ h
  · exact within_members h

theorem readMember_within (cs : List Char)
    (h : ∀ m ∈ seenMembers, Draft.Within (depth - 1) m.2) :
    (readMember (fuel + 1) depth shape seenMembers cs).1.Within (depth - 1 + 1) := by
  have hmore (key : String) {d : Draft} (hd : d.Within (depth - 1)) :
      ∀ m ∈ (key, d) :: seenMembers, Draft.Within (depth - 1) m.2 :=
    List.forall_mem_cons.2 ⟨hd, h⟩
  rw [readMember]
  split
  · exact within_members h
  rename_i key cs' _
  dsimp only
  split
  · exact within_members (hmore key .broken)
  · split
    · split
      · exact within_members (hmore key .broken)
      · exact ih.members depth shape _ _ (hmore key .null)
    · rename_i rest' _ _ inner _
      have hd := hmore key (ih.draft depth inner rest')
      split
      · exact within_members hd
      · exact ih.members depth shape _ _ hd
  · exact within_members (hmore key .broken)

end Steps

theorem readersWithin (fuel : Nat) : ReadersWithin fuel := by
  induction fuel with
  | zero =>
    refine ⟨fun _ _ _ => ?_, fun _ _ _ _ => ?_, fun _ _ _ _ h => ?_, fun _ _ _ _ h => ?_,
      fun _ _ _ _ h => ?_, fun _ _ _ _ h => ?_⟩
    · rw [readDraft]
      exact .broken
    · rw [readBegun]
      exact .broken
    · rw [readItems]
      exact within_items h
    · rw [readItem]
      exact within_items h
    · rw [readMembers]
      exact within_members h
    · rw [readMember]
      exact within_members h
  | succ fuel ih =>
    exact ⟨fun _ _ => readDraft_within ih, fun _ _ => readBegun_within ih,
      fun _ _ _ _ h => readItems_within ih _ _ h, fun _ _ _ _ h => readItem_within ih _ _ h,
      fun _ _ _ _ h => readMembers_within ih _ h, fun _ _ _ _ h => readMember_within ih _ h⟩

/-- The draft of a text is within the limit. -/
theorem ofText_within (shape : Shape) (text : String) :
    (Draft.ofText shape text).1.Within (depthLimit - 1) :=
  (readersWithin _).draft depthLimit shape text.toList

/-! ## What a draft spells -/

/-- Without floats. -/
inductive Integral : Json → Prop where
  | null : Integral .null
  | bool {b : Bool} : Integral (.bool b)
  | int {i : Int} : Integral (.number (.int i))
  | string {s : String} : Integral (.string s)
  | array {items : List Json} (h : ∀ v ∈ items, Integral v) : Integral (.array items)
  | object {members : Members} (h : ∀ m ∈ members, Integral m.2) : Integral (.object members)

theorem mem_of_toItems : ∀ {ds : List Draft} {items : List Json}, Draft.toItems ds = .ok items →
    ∀ v ∈ items, ∃ d ∈ ds, d.toJson = .ok v
  | [], _, h, v, hv => by
    cases h
    cases hv
  | d :: ds, items, h, v, hv => by
    rw [Draft.toItems] at h
    obtain ⟨w, hw, h⟩ := Except.bind_eq_ok_iff.1 h
    obtain ⟨ws, hws, h⟩ := Except.bind_eq_ok_iff.1 h
    cases h
    rcases List.mem_cons.1 hv with rfl | hv
    · exact ⟨d, List.mem_cons_self, hw⟩
    · obtain ⟨d', hd', hv'⟩ := mem_of_toItems hws v hv
      exact ⟨d', List.mem_cons_of_mem _ hd', hv'⟩

theorem mem_of_toMembers : ∀ {ds : List (String × Draft)} {members : Members},
    Draft.toMembers ds = .ok members → ∀ m ∈ members, ∃ d, (m.1, d) ∈ ds ∧ d.toJson = .ok m.2
  | [], _, h, m, hm => by
    cases h
    cases hm
  | (k, d) :: ds, members, h, m, hm => by
    rw [Draft.toMembers] at h
    obtain ⟨w, hw, h⟩ := Except.bind_eq_ok_iff.1 h
    obtain ⟨ws, hws, h⟩ := Except.bind_eq_ok_iff.1 h
    cases h
    rcases List.mem_cons.1 hm with rfl | hm
    · exact ⟨d, List.mem_cons_self, hw⟩
    · obtain ⟨d', hd', hm'⟩ := mem_of_toMembers hws m hm
      exact ⟨d', List.mem_cons_of_mem _ hd', hm'⟩

theorem toJson_array_iff {ds : List Draft} {stop : Option Fault} {v : Json} :
    (Draft.array ds stop).toJson = .ok v ↔
      ∃ items, Draft.toItems ds = .ok items ∧ stop = none ∧ v = .array items := by
  rw [Draft.toJson, Except.bind_eq_ok_iff]
  refine exists_congr fun items => and_congr_right fun _ => ?_
  cases stop <;> simp [eq_comm]

theorem toJson_object_iff {ds : List (String × Draft)} {stop : Option Fault} {v : Json} :
    (Draft.object ds stop).toJson = .ok v ↔
      ∃ members, Draft.toMembers ds = .ok members ∧ stop = none ∧ v = Json.ofMembers members := by
  rw [Draft.toJson, Except.bind_eq_ok_iff]
  refine exists_congr fun items => and_congr_right fun _ => ?_
  cases stop <;> simp [eq_comm]

/-- What a draft spells is legible, floats apart. -/
theorem Draft.Within.legible {d : Draft} {v : Json} (h : d.Within n) (hd : d.toJson = .ok v)
    (hv : v.Integral) : Legible n v := by
  induction h generalizing v with
  | null => cases hd; exact .null
  | bool => cases hd; exact .bool
  | int h => cases hd; exact .int h
  | float => cases hd; cases hv
  | string => cases hd; exact .string
  | broken => cases hd
  | array _ ih =>
    obtain ⟨items, hitems, -, rfl⟩ := toJson_array_iff.1 hd
    cases hv with
    | array hv =>
      refine .array fun v hmem => ?_
      obtain ⟨d, hd, hspells⟩ := mem_of_toItems hitems v hmem
      exact ih d hd hspells (hv v hmem)
  | object _ ih =>
    obtain ⟨members, hmembers, -, rfl⟩ := toJson_object_iff.1 hd
    cases hv with
    | object hv =>
      refine .object (.ofList members) fun m hmem => ?_
      obtain ⟨d, hd, hspells⟩ := mem_of_toMembers hmembers m (Assoc.mem_of_mem_ofList hmem)
      exact ih (m.1, d) hd hspells (hv m hmem)

/-! ## The fields of a draft -/

theorem mem_of_takeItems {form : Form} {stop : Option Fault} :
    ∀ (fields : List Field) (index : Nat) (ds : List Draft) {taken : List (String × Draft)},
      form.takeItems stop index fields ds = .ok taken → ∀ m ∈ taken, m.2 ∈ ds
  | [], index, ds, taken, h, m, hm => by
    rw [Form.takeItems] at h
    obtain ⟨_, -, rfl⟩ := Except.map_eq_ok_iff.1 h
    cases hm
  | field :: fields, index, d :: ds, taken, h, m, hm => by
    rw [Form.takeItems] at h
    obtain ⟨-, -, h⟩ := Except.bind_eq_ok_iff.1 h
    obtain ⟨more, hmore, h⟩ := Except.bind_eq_ok_iff.1 h
    cases h
    rcases List.mem_cons.1 hm with rfl | hm
    · exact List.mem_cons_self
    · exact List.mem_cons_of_mem _ (mem_of_takeItems fields (index + 1) ds hmore m hm)
  | field :: fields, index, [], taken, h, m, hm => by
    cases stop with
    | some f =>
      rw [Form.takeItems] at h
      cases h
    | none =>
      rw [Form.takeItems] at h
      · split at h
        · cases h
        · exact mem_of_takeItems fields (index + 1) [] h m hm
      · exact nofun

theorem Form.fields_of_read {form : Form} {members fields : List (String × Draft)}
    {stop : Option Fault} (h : form.read (.object members stop) = .ok fields) :
    fields = members.filter fun m => (form.field? m.1).isSome := by
  unfold Form.read at h
  obtain ⟨-, -, h⟩ := Except.bind_eq_ok_iff.1 h
  cases stop with
  | some f => cases h
  | none =>
    obtain ⟨-, -, h⟩ := Except.bind_eq_ok_iff.1 h
    cases h
    rfl

theorem Form.read_within {form : Form} {d : Draft} {fields : List (String × Draft)}
    (hd : d.Within (n + 1)) (h : form.read d = .ok fields) : ∀ m ∈ fields, m.2.Within n := by
  cases hd with
  | object hd =>
    rw [Form.fields_of_read h]
    exact fun m hm => hd m (List.mem_filter.1 hm).1
  | array hd => exact fun m hm => hd m.2 (mem_of_takeItems _ _ _ h m hm)
  | _ => cases h

/-- The members that a flattened record has besides its fields. -/
theorem Form.of_readFlattened {form : Form} {d : Draft} {fields : List (String × Draft)}
    {others : Members} (hd : d.Within (n + 1)) (h : form.readFlattened d = .ok (fields, others)) :
    Assoc.Ascending others ∧ (∀ m ∈ others, form.field? m.1 = none) ∧
      ∀ m ∈ others, m.2.Integral → Legible n m.2 := by
  cases hd with
  | @object _ members stop hd =>
    unfold Form.readFlattened at h
    obtain ⟨-, -, h⟩ := Except.bind_eq_ok_iff.1 h
    cases stop with
    | some f => cases h
    | none =>
      obtain ⟨-, -, h⟩ := Except.bind_eq_ok_iff.1 h
      obtain ⟨read, hread, h⟩ := Except.bind_eq_ok_iff.1 h
      cases h
      have hspelled : ∀ m ∈ Assoc.ofList read, ∃ d, (m.1, d) ∈ members ∧
          form.field? m.1 = none ∧ d.toJson = .ok m.2 := fun m hm => by
        obtain ⟨d, hmem, hspells⟩ := mem_of_toMembers hread m (Assoc.mem_of_mem_ofList hm)
        obtain ⟨hmem, hnone⟩ := List.mem_filter.1 hmem
        exact ⟨d, hmem, Option.isNone_iff_eq_none.1 hnone, hspells⟩
      refine ⟨.ofList read, fun m hm => ?_, fun m hm hi => ?_⟩
      · obtain ⟨-, -, hnone, -⟩ := hspelled m hm
        exact hnone
      · obtain ⟨d, hmem, -, hspells⟩ := hspelled m hm
        exact (hd _ hmem).legible hspells hi
  | _ => cases h

end LiveModules.Json
