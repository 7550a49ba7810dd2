import LiveModules.Event
import LiveModules.Game.Item
import LiveModules.Notice
import LiveModules.Proofs.Drafts
import LiveModules.Proofs.Merging

/-!
# What is written returns

Event keys, events, notices, items, rooms and configurations are written as objects. Whatever text
such a value was read from, its own text is read as the same value again
(`written_forms_return`): each record is put together from its members, each of which is read back,
and a flattened record from its fields and the members that no field is called like.
-/

namespace LiveModules

namespace Json

/-- How values of a type are read from a draft, and written as the members of an object. -/
structure Format (α : Type) where
  shape : Shape
  read : Draft → Except Fault α
  members : α → Members

namespace Format

variable {α : Type} (F : Format α)

def decode (text : String) : Except Fault α := readWhole F.shape F.read text

def encode (a : α) : String := write (.object (F.members a))

/-- The text of a value is read as that value, so what is read has the same text. -/
structure Returns (a : α) : Prop where
  value : F.decode (F.encode a) = .ok a
  text : (F.decode (F.encode a)).map F.encode = .ok (F.encode a)

variable {F} {a : α} {n : Nat}

theorem returns_of (hs : F.shape.admits '\x7b' = true) (hn : n + 1 < depthLimit)
    (hmembers : ∀ m ∈ F.members a, MemberReadsBack F.shape n m)
    (hread : F.read (Draft.ofJson (.object (F.members a))) = .ok a) : F.Returns a := by
  have hvalue : F.decode (F.encode a) = .ok a :=
    readWhole_eq_ok_iff.2 ⟨_, ofText_write (readsBack_object hs hmembers) hn, hread⟩
  exact ⟨hvalue, by rw [hvalue]; rfl⟩

theorem draft_of_decode {text : String} (h : F.decode text = .ok a) :
    ∃ d : Draft, d.Within 127 ∧ F.read d = .ok a := by
  obtain ⟨d, htext, hread⟩ := readWhole_eq_ok_iff.1 h
  have hd := ofText_within F.shape text
  rw [htext] at hd
  exact ⟨d, hd, hread⟩

end Format

/-! ## Readings -/

section Readings

variable {d : Draft} {n : Nat}

theorem readList_ofJson {items : List Json} (h : ∀ v ∈ items, Legible n v) :
    readList (Draft.ofJson (.array items)) = .ok items := by
  rw [Draft.ofJson, ofItems_eq_map]
  exact Except.bind_eq_ok_iff.2 ⟨items, toItems_of_forall fun v hv => (h v hv).toJson, rfl⟩

theorem legible_of_readList {items : List Json} (hd : d.Within (n + 1))
    (h : readList d = .ok items) (hi : ∀ v ∈ items, v.Integral) : ∀ v ∈ items, Legible n v := by
  cases hd with
  | array hd =>
    obtain ⟨read, hread, h⟩ := Except.bind_eq_ok_iff.1 h
    obtain ⟨-, rfl⟩ := orStop_eq_ok_iff.1 h
    intro v hv
    obtain ⟨d, hmem, hspells⟩ := mem_of_toItems hread v hv
    exact (hd d hmem).legible hspells (hi v hv)
  | _ => cases h

theorem kept_nat {k : Nat} (h : k ≤ largestUnsigned) : Kept k := ⟨by omega, Int.ofNat_le.2 h⟩

theorem le_of_readUnsigned {k : Nat} (hd : d.Within n) (h : readUnsigned d = .ok k) :
    k ≤ largestUnsigned := by
  cases hd with
  | int hi =>
    unfold readUnsigned at h
    dsimp only at h
    split_ifs at h
    cases h
    have := hi.2
    omega
  | _ => cases h

theorem le_of_readOption {k : Option Nat} (hd : d.Within n)
    (h : readOption readUnsigned d = .ok k) : ∀ ms ∈ k, ms ≤ largestUnsigned := by
  unfold readOption at h
  split at h
  · cases h
    exact nofun
  · obtain ⟨ms, hms, rfl⟩ := Except.map_eq_ok_iff.1 h
    rintro _ ⟨⟩
    exact le_of_readUnsigned hd hms

/-- A flattened record is read back from its fields and the members besides. -/
theorem Form.readFlattened_members {form : Form} {named : List (String × Draft)}
    {others : Members} (hnamed : ∀ m ∈ named, form.Accepts m) (hkeys : (named.map (·.1)).Nodup)
    (ha : Assoc.Ascending others) (hothers : ∀ m ∈ others, form.field? m.1 = none)
    (hl : ∀ m ∈ others, Legible n m.2)
    (hpresent : form.checkPresent (named ++ Draft.ofMembers others) = .ok ()) :
    form.readFlattened (.object (named ++ Draft.ofMembers others) none) = .ok (named, others) := by
  rw [ofMembers_eq_map] at hpresent ⊢
  refine readFlattened_of_accepts hnamed (List.forall_mem_map.2 hothers)
    (toMembers_of_forall fun m hm => (hl m hm).toJson) hkeys ?_ ha hpresent
  rw [List.map_map]
  exact Table.keys_nodup ⟨others, ha⟩

end Readings

end Json

open Json (Format Legible MemberReadsBack readsBack_object readsBack_string readsBack_int)

/-! ## Records -/

section Records

variable {n : Nat}

namespace EventKey

def format : Format EventKey := ⟨form.shape, read, members⟩

theorem members_readBack (k : EventKey) : ∀ m ∈ k.members, MemberReadsBack form.shape n m := by
  have hname : MemberReadsBack form.shape n ("name", .string k.name) :=
    ⟨.any, rfl, readsBack_string _ rfl⟩
  have hsubject (s : String) : MemberReadsBack form.shape n ("subject", .string s) :=
    ⟨.any, rfl, readsBack_string _ rfl⟩
  unfold members
  cases k.subject with
  | none => exact List.forall_mem_cons.2 ⟨hname, nofun⟩
  | some s => exact List.forall_mem_cons.2 ⟨hname, List.forall_mem_cons.2 ⟨hsubject s, nofun⟩⟩

theorem read_members (k : EventKey) : read (Json.Draft.ofJson (.object k.members)) = .ok k := by
  obtain ⟨name, subject⟩ := k
  cases subject <;> rfl

theorem returns (k : EventKey) : format.Returns k :=
  Json.Format.returns_of (n := 0) rfl (by decide) k.members_readBack k.read_members

end EventKey

namespace GameEvent

def format : Format GameEvent := ⟨form.shape, read, members⟩

theorem read_members {e : GameEvent} {n : Nat} (h : ∀ v ∈ e.args, Legible n v) :
    read (Json.Draft.ofJson (.object e.members)) = .ok e := by
  have hargs := Json.readList_ofJson h
  have hform : form.read (Json.Draft.ofJson (.object e.members)) =
      .ok [("key", .ofJson (.object e.key.members)), ("args", .ofJson (.array e.args))] := by
    refine Json.Form.read_of_accepts (List.forall_mem_cons.2 ⟨⟨_, rfl, ?_⟩,
      List.forall_mem_cons.2 ⟨⟨_, rfl, ?_⟩, nofun⟩⟩) (by decide : ["key", "args"].Nodup) rfl
    · exact Except.map_eq_ok_iff.2 ⟨_, e.key.read_members, rfl⟩
    · exact Except.map_eq_ok_iff.2 ⟨_, hargs, rfl⟩
  refine Except.bind_eq_ok_iff.2 ⟨_, hform, ?_⟩
  refine Except.bind_eq_ok_iff.2 ⟨_, e.key.read_members, ?_⟩
  exact Except.bind_eq_ok_iff.2 ⟨_, hargs, rfl⟩

theorem returns {e : GameEvent} (h : ∀ v ∈ e.args, Legible 125 v) : format.Returns e := by
  have hargs : Legible 126 (.array e.args) := .array h
  refine Json.Format.returns_of (n := 126) rfl (by decide) ?_ (read_members h)
  refine List.forall_mem_cons.2 ⟨⟨EventKey.form.shape, rfl, ?_⟩,
    List.forall_mem_cons.2 ⟨⟨.any, rfl, hargs.readsBack⟩, nofun⟩⟩
  exact readsBack_object rfl e.key.members_readBack

theorem legible_of_decode {text : String} {e : GameEvent} (h : format.decode text = .ok e)
    (hi : ∀ v ∈ e.args, v.Integral) : ∀ v ∈ e.args, Legible 125 v := by
  obtain ⟨d, hd, h⟩ := Json.Format.draft_of_decode h
  obtain ⟨fields, hfields, h⟩ := Except.bind_eq_ok_iff.1 h
  obtain ⟨key, -, h⟩ := Except.bind_eq_ok_iff.1 h
  obtain ⟨args, hargs, h⟩ := Except.bind_eq_ok_iff.1 h
  cases h
  rcases Json.of_fieldOr hargs with ⟨m, hm, hread⟩ | habsent
  · exact Json.legible_of_readList (Json.Form.read_within hd hfields m hm) hread hi
  · cases habsent
    exact nofun

end GameEvent

namespace Notice

def format : Format Notice := ⟨form.shape, read, members⟩

theorem returns (n : Notice) : format.Returns n := by
  refine Json.Format.returns_of (n := 0) rfl (by decide) ?_ ?_
  · refine List.forall_mem_cons.2 ⟨⟨.choice, rfl, readsBack_string _ rfl⟩,
      List.forall_mem_cons.2 ⟨⟨.any, rfl, readsBack_string _ rfl⟩, nofun⟩⟩
  · obtain ⟨level, message⟩ := n
    cases level <;> rfl

end Notice

namespace Config

def format : Format Config := ⟨form.shape, read, members⟩

/-- The numbers fit 64 bits. -/
structure Fits (c : Config) : Prop where
  poll : c.pollIntervalMs ≤ Json.largestUnsigned
  tick : c.tickIntervalMs ≤ Json.largestUnsigned
  timeout : ∀ ms ∈ c.evalTimeoutMs, ms ≤ Json.largestUnsigned

theorem returns {c : Config} (h : c.Fits) : format.Returns c := by
  refine Json.Format.returns_of (n := 0) rfl (by decide) ?_ ?_
  · have hroot : MemberReadsBack form.shape 0 ("root", .string c.root) :=
      ⟨.any, rfl, readsBack_string _ rfl⟩
    have hpoll : MemberReadsBack form.shape 0 ("poll_interval_ms", .nat c.pollIntervalMs) :=
      ⟨.any, rfl, readsBack_int (Json.kept_nat h.poll)⟩
    have htick : MemberReadsBack form.shape 0 ("tick_interval_ms", .nat c.tickIntervalMs) :=
      ⟨.any, rfl, readsBack_int (Json.kept_nat h.tick)⟩
    have htimeout : ∀ ms ∈ c.evalTimeoutMs,
        MemberReadsBack form.shape 0 ("eval_timeout_ms", .nat ms) := fun ms hms =>
      ⟨.any, rfl, readsBack_int (Json.kept_nat (h.timeout ms hms))⟩
    have hextension : MemberReadsBack form.shape 0
        ("extension", (c.extension.map Json.string).getD .null) := by
      refine ⟨.any, rfl, ?_⟩
      cases c.extension with
      | none => exact Json.readsBack_null
      | some e => exact readsBack_string e rfl
    refine List.forall_mem_append.2 ⟨?_, List.forall_mem_cons.2 ⟨hextension, nofun⟩⟩
    refine List.forall_mem_cons.2 ⟨hroot, List.forall_mem_cons.2 ⟨hpoll,
      List.forall_mem_cons.2 ⟨htick, fun m hm => ?_⟩⟩⟩
    obtain ⟨ms, hms, rfl⟩ := Option.map_eq_some_iff.1 (Option.mem_toList.1 hm)
    exact htimeout ms hms
  · obtain ⟨root, poll, tick, timeout, extension⟩ := c
    cases timeout <;> cases extension <;> rfl

theorem fits_of_decode {text : String} {c : Config} (h : format.decode text = .ok c) : c.Fits := by
  obtain ⟨d, hd, h⟩ := Json.Format.draft_of_decode h
  obtain ⟨fields, hfields, h⟩ := Except.bind_eq_ok_iff.1 h
  have hwithin := Json.Form.read_within hd hfields
  have hms {name : String} {ms absent : Nat} (habsent : absent ≤ Json.largestUnsigned)
      (h : Json.fieldOr fields name Json.readUnsigned (.ok absent) = .ok ms) :
      ms ≤ Json.largestUnsigned := by
    rcases Json.of_fieldOr h with ⟨m, hm, hread⟩ | habs
    · exact Json.le_of_readUnsigned (hwithin m hm) hread
    · cases habs
      exact habsent
  obtain ⟨root, -, h⟩ := Except.bind_eq_ok_iff.1 h
  obtain ⟨poll, hpoll, h⟩ := Except.bind_eq_ok_iff.1 h
  obtain ⟨tick, htick, h⟩ := Except.bind_eq_ok_iff.1 h
  obtain ⟨timeout, htimeout, h⟩ := Except.bind_eq_ok_iff.1 h
  obtain ⟨extension, -, h⟩ := Except.bind_eq_ok_iff.1 h
  cases h
  refine ⟨hms (by decide) hpoll, hms (by decide) htick, ?_⟩
  rcases Json.of_fieldOr htimeout with ⟨m, hm, hread⟩ | habsent
  · exact Json.le_of_readOption (hwithin m hm) hread
  · cases habsent
    exact nofun

end Config

end Records

/-! ## Flattened records -/

namespace Item

/-- Items are read without regard to which members are known. -/
def format : Format Item := ⟨.any, read, members⟩

theorem field?_eq_none_iff {key : String} : form.field? key = none ↔ key ≠ "name" := by
  rw [Json.Form.field?, List.find?_eq_none]
  simp [form, Json.Field.of, @eq_comm _ key]

variable {i : Item} {n : Nat}

theorem read_members (ha : Assoc.Ascending i.properties)
    (hothers : ∀ m ∈ i.properties, form.field? m.1 = none)
    (h : ∀ m ∈ i.properties, Legible n m.2) :
    read (Json.Draft.ofJson (.object i.members)) = .ok i := by
  let named : List (String × Json.Draft) := [("name", .string i.name)]
  have hread : form.readFlattened (.object (named ++ Json.Draft.ofMembers i.properties) none) =
      .ok (named, i.properties) :=
    Json.Form.readFlattened_members (List.forall_mem_cons.2 ⟨⟨_, rfl, rfl⟩, nofun⟩)
      (by decide : ["name"].Nodup) ha hothers h rfl
  exact Except.bind_eq_ok_iff.2 ⟨_, hread, rfl⟩

theorem returns (ha : Assoc.Ascending i.properties)
    (hothers : ∀ m ∈ i.properties, form.field? m.1 = none)
    (h : ∀ m ∈ i.properties, Legible 126 m.2) : format.Returns i := by
  refine Json.Format.returns_of (n := 126) rfl (by decide) ?_ (read_members ha hothers h)
  exact List.forall_mem_cons.2 ⟨⟨.any, rfl, readsBack_string _ rfl⟩,
    fun m hm => ⟨.any, rfl, (h m hm).readsBack⟩⟩

theorem properties_of_decode {text : String} (h : format.decode text = .ok i) :
    Assoc.Ascending i.properties ∧ (∀ m ∈ i.properties, form.field? m.1 = none) ∧
      ∀ m ∈ i.properties, m.2.Integral → Legible 126 m.2 := by
  obtain ⟨d, hd, h⟩ := Json.Format.draft_of_decode h
  obtain ⟨⟨fields, properties⟩, hread, h⟩ := Except.bind_eq_ok_iff.1 h
  obtain ⟨name, -, h⟩ := Except.bind_eq_ok_iff.1 h
  cases h
  exact Json.Form.of_readFlattened hd hread

end Item

namespace RoomSpec

def format : Format RoomSpec := ⟨.any, read, members⟩

theorem field?_eq_none_iff {key : String} :
    form.field? key = none ↔ key ≠ "description" ∧ key ≠ "exits" := by
  rw [Json.Form.field?, List.find?_eq_none]
  simp [form, Json.Field.of, @eq_comm _ key]

theorem readTextMap_exitMembers (exits : Table String String) :
    Json.readTextMap (Json.Draft.ofJson (.object (exitMembers exits))) = .ok exits := by
  have hentries : ∀ entries : List (String × String),
      (entries.map fun e => (e.1, Json.Draft.string e.2)).mapM (fun m =>
        (Json.readText "a string" m.2).map (m.1, ·)) = .ok entries := by
    intro entries
    induction entries with
    | nil => rfl
    | cons e entries ih =>
      rw [List.map_cons, List.mapM_cons, ih]
      rfl
  have hdraft : Json.Draft.ofJson (.object (exitMembers exits)) =
      .object (exits.entries.map fun e => (e.1, .string e.2)) none := by
    rw [Json.Draft.ofJson, Json.ofMembers_eq_map, exitMembers, List.map_map]
    rfl
  have htable : Table.ofList exits.entries = exits := by
    rw [Table.ofList]
    congr 1
    exact Assoc.ofList_of_ascending exits.ascending
  rw [hdraft]
  exact Except.bind_eq_ok_iff.2 ⟨_, hentries exits.entries, by rw [htable]; rfl⟩

variable {s : RoomSpec} {n : Nat}

theorem read_members (ha : Assoc.Ascending s.properties)
    (hothers : ∀ m ∈ s.properties, form.field? m.1 = none)
    (h : ∀ m ∈ s.properties, Legible n m.2) :
    read (Json.Draft.ofJson (.object s.members)) = .ok s := by
  have hexits := readTextMap_exitMembers s.exits
  let named : List (String × Json.Draft) := [("description", .string s.description),
    ("exits", .ofJson (.object (exitMembers s.exits)))]
  have hread : form.readFlattened (.object (named ++ Json.Draft.ofMembers s.properties) none) =
      .ok (named, s.properties) :=
    Json.Form.readFlattened_members (List.forall_mem_cons.2 ⟨⟨_, rfl, rfl⟩,
      List.forall_mem_cons.2 ⟨⟨_, rfl, Except.map_eq_ok_iff.2 ⟨_, hexits, rfl⟩⟩, nofun⟩⟩)
      (by decide : ["description", "exits"].Nodup) ha hothers h rfl
  refine Except.bind_eq_ok_iff.2 ⟨_, hread, ?_⟩
  exact Except.bind_eq_ok_iff.2 ⟨_, rfl, Except.bind_eq_ok_iff.2 ⟨_, hexits, rfl⟩⟩

theorem returns (ha : Assoc.Ascending s.properties)
    (hothers : ∀ m ∈ s.properties, form.field? m.1 = none)
    (h : ∀ m ∈ s.properties, Legible 126 m.2) : format.Returns s := by
  have hexits : Json.ReadsBack .any 126 (.object (exitMembers s.exits)) :=
    readsBack_object rfl (List.forall_mem_map.2 fun e _ => ⟨.any, rfl, readsBack_string _ rfl⟩)
  refine Json.Format.returns_of (n := 126) rfl (by decide) ?_ (read_members ha hothers h)
  exact List.forall_mem_cons.2 ⟨⟨.any, rfl, readsBack_string _ rfl⟩,
    List.forall_mem_cons.2 ⟨⟨.any, rfl, hexits⟩, fun m hm => ⟨.any, rfl, (h m hm).readsBack⟩⟩⟩

theorem properties_of_decode {text : String} (h : format.decode text = .ok s) :
    Assoc.Ascending s.properties ∧ (∀ m ∈ s.properties, form.field? m.1 = none) ∧
      ∀ m ∈ s.properties, m.2.Integral → Legible 126 m.2 := by
  obtain ⟨d, hd, h⟩ := Json.Format.draft_of_decode h
  obtain ⟨⟨fields, properties⟩, hread, h⟩ := Except.bind_eq_ok_iff.1 h
  obtain ⟨description, -, h⟩ := Except.bind_eq_ok_iff.1 h
  obtain ⟨exits, -, h⟩ := Except.bind_eq_ok_iff.1 h
  cases h
  exact Json.Form.of_readFlattened hd hread

end RoomSpec

/-! ## All of them -/

/-- What any text is read as returns: its own text is read as the same value again, floats apart.
The properties of items and rooms are never called like a field. A valid configuration, whatever it
came from, is read back from its text as a valid one. -/
theorem written_forms_return :
    (∀ text k, EventKey.format.decode text = .ok k → EventKey.format.Returns k) ∧
    (∀ text e, GameEvent.format.decode text = .ok e → (∀ v ∈ e.args, v.Integral) →
      GameEvent.format.Returns e) ∧
    (∀ text n, Notice.format.decode text = .ok n → Notice.format.Returns n) ∧
    (∀ text i, Item.format.decode text = .ok i → (∀ m ∈ i.properties, m.1 ≠ "name") ∧
      ((∀ m ∈ i.properties, m.2.Integral) → Item.format.Returns i)) ∧
    (∀ text s, RoomSpec.format.decode text = .ok s →
      (∀ m ∈ s.properties, m.1 ≠ "description" ∧ m.1 ≠ "exits") ∧
      ((∀ m ∈ s.properties, m.2.Integral) → RoomSpec.format.Returns s)) ∧
    (∀ text c, Config.format.decode text = .ok c → Config.format.Returns c) ∧
    ∀ c : Config, c.Valid → c.Fits → Config.ofText (Config.format.encode c) = .ok c := by
  refine ⟨fun _ k _ => k.returns, fun _ e h hi => ?_, fun _ n _ => n.returns, fun _ i h => ?_,
    fun _ s h => ?_, fun _ c h => Config.returns (Config.fits_of_decode h), fun c hv hfits => ?_⟩
  · exact GameEvent.returns (GameEvent.legible_of_decode h hi)
  · obtain ⟨ha, hothers, hl⟩ := Item.properties_of_decode h
    exact ⟨fun m hm => Item.field?_eq_none_iff.1 (hothers m hm),
      fun hi => Item.returns ha hothers fun m hm => hl m hm (hi m hm)⟩
  · obtain ⟨ha, hothers, hl⟩ := RoomSpec.properties_of_decode h
    exact ⟨fun m hm => RoomSpec.field?_eq_none_iff.1 (hothers m hm),
      fun hi => RoomSpec.returns ha hothers fun m hm => hl m hm (hi m hm)⟩
  · exact Config.ofText_eq_ok_iff.2 ⟨(Config.returns hfits).value, hv⟩

/-! ### An item -/

/-- The text of an item whose name stands among its properties. -/
def lampText : String :=
  "\x7b\"seen\":[1,-2,\x7b\x7d],\"name\":\"lamp \\\"1\\\"\",\"exits\":null\x7d"

def lamp : Item :=
  ⟨"lamp \"1\"", [("exits", .null), ("seen", .array [.int 1, .int (-2), .object []])]⟩

theorem lamp_returns : Item.format.decode lampText = .ok lamp ∧
    Item.format.encode lamp ≠ lampText ∧ Item.format.Returns lamp ∧
    EventKey.format.Returns ⟨"spawn", none⟩ ∧ GameEvent.format.Returns ⟨.tick, [.int 1]⟩ ∧
    Notice.format.Returns ⟨.warn, "low"⟩ ∧
    RoomSpec.format.Returns ⟨"A hall", ∅, [("lit", .bool true)]⟩ ∧
    Config.format.Returns ⟨"", 0, 1000, none, none⟩ ∧
    Config.ofText (Config.format.encode ⟨"/srv", 1, 2, some 3, none⟩) =
      .ok ⟨"/srv", 1, 2, some 3, none⟩ := by
  have hone : Json.Kept 1 := ⟨by decide, by decide⟩
  have htwo : Json.Kept (-2) := ⟨by decide, by decide⟩
  have hseen : Legible 2 (.array [.int 1, .int (-2), .object []]) :=
    .array (List.forall_mem_cons.2 ⟨.int hone, List.forall_mem_cons.2 ⟨.int htwo,
      List.forall_mem_cons.2 ⟨.object .nil nofun, nofun⟩⟩⟩)
  have htext : lampText = Json.write (.object
      [("seen", .array [.int 1, .int (-2), .object []]), ("name", .string "lamp \"1\""),
        ("exits", .null)]) := by decide +kernel
  have hreads : Item.format.decode lampText = .ok lamp := by
    rw [htext]
    refine Json.readWhole_eq_ok_iff.2 ⟨_, Json.ofText_write (readsBack_object rfl ?_)
      (by decide : 3 < 128), rfl⟩
    exact List.forall_mem_cons.2 ⟨⟨.any, rfl, hseen.readsBack⟩, List.forall_mem_cons.2
      ⟨⟨.any, rfl, readsBack_string _ rfl⟩, List.forall_mem_cons.2
      ⟨⟨.any, rfl, Json.readsBack_null⟩, nofun⟩⟩⟩
  have hintegral : ∀ m ∈ lamp.properties, m.2.Integral :=
    List.forall_mem_cons.2 ⟨.null, List.forall_mem_cons.2 ⟨.array (List.forall_mem_cons.2 ⟨.int,
      List.forall_mem_cons.2 ⟨.int, List.forall_mem_cons.2 ⟨.object nofun, nofun⟩⟩⟩), nofun⟩⟩
  have hevent : GameEvent.format.Returns ⟨.tick, [.int 1]⟩ :=
    GameEvent.returns (List.forall_mem_cons.2 ⟨.int hone, nofun⟩)
  have hhall : RoomSpec.format.Returns ⟨"A hall", ∅, [("lit", .bool true)]⟩ :=
    RoomSpec.returns (List.pairwise_singleton ..) (List.forall_mem_cons.2 ⟨rfl, nofun⟩)
      (List.forall_mem_cons.2 ⟨.bool, nofun⟩)
  obtain ⟨hkeys, hevents, hnotices, hitems, hrooms, hconfigs, hvalid⟩ := written_forms_return
  refine ⟨hreads, by decide +kernel, (hitems lampText lamp hreads).2 hintegral,
    hkeys "[\"spawn\",null]" _ (by decide +kernel),
    hevents _ _ hevent.value (List.forall_mem_cons.2 ⟨.int, nofun⟩),
    hnotices "[\x7b\"Warn\":null\x7d,\"low\"]" _ (by decide +kernel),
    (hrooms _ _ hhall.value).2 (List.forall_mem_cons.2 ⟨.bool, nofun⟩),
    hconfigs "[\"\",0,1000,null,null]" _ (by decide +kernel), ?_⟩
  exact hvalid _ ⟨by decide, by decide, by decide, by decide, nofun⟩
    ⟨by decide, by decide, by rintro _ ⟨⟩; decide⟩

end LiveModules
