import LiveModules.Proofs.Lockstep
import LiveModules.Proofs.Runs
import Mathlib.Data.List.Count
import Mathlib.Data.List.Nodup

/-!
# What a check of spawn rules does

A check has three parts that do not overlap: the rules that are due are stamped, their items are put
where they lack, and what was put is told of. Every rule stands under the key that its template has
(`SpawnTable.Registered`), so no item that is put makes up for the lack of another, and the second
part can be read off the rooms as they were (`World.placeDue_eq`). Listeners run in the third part
only, when it is settled what is told and what is answered (`spawnCheck_restocks`).
-/

namespace LiveModules

attribute [local irreducible] lastOf

/-! ## Tables of rules -/

namespace Assoc

variable {κ α : Type} [Ord κ] [Std.LawfulEqOrd κ]

theorem find?_foldl_insert (k : κ) {entries : List (κ × α)} (h : Ascending entries) :
    ∀ acc : List (κ × α), find? k (entries.foldl (fun acc e => insert e.1 e.2 acc) acc) =
      (find? k entries).or (find? k acc) := by
  induction entries with
  | nil => exact fun _ => rfl
  | cons e rest ih =>
    intro acc
    obtain ⟨k', a⟩ := e
    rw [List.foldl_cons, ih (List.pairwise_cons.1 h).2]
    by_cases hk : k = k'
    · subst hk
      have hrest : find? k rest = none := by
        rcases hf : find? k rest with _ | b
        · rfl
        · have := (List.pairwise_cons.1 h).1 _ (eq_of_find?_eq_some hf)
          simp at this
      simp [find?, hrest, find?_insert_self]
    · have hc : compare k k' ≠ .eq := fun he => hk (Std.LawfulEqOrd.eq_of_compare he)
      rw [find?_insert_of_ne hk, find?, if_neg hc]

theorem find?_erase_self {k : κ} {entries : List (κ × α)} (h : Ascending entries) :
    find? k (erase k entries) = none := by
  rw [erase, find?_filter h fun k' _ => compare k k' ≠ .eq]
  simp

end Assoc

theorem SpawnKey.ne_of_lt {key key' : SpawnKey} (h : compare key key' = .lt) : key ≠ key' := by
  rintro rfl
  simp at h

namespace SpawnTable

variable {τ ω : Type}

/-- A rule is made from a name and properties and stands under its key. -/
structure Fitting (key : SpawnKey) (r : SpawnRule τ ω) : Prop where
  here : r.key = key
  name : r.template.name = key.item
  ascending : Assoc.Ascending r.template.properties
  nameless : Assoc.find? "name" r.template.properties = none

/-- Every rule stands under its own key. -/
def Keyed (t : SpawnTable τ ω) : Prop :=
  ∀ key rule, t.rules.find? key = some rule → rule.key = key

variable [Sub τ] [LT τ] [DecidableLT τ] [DecidableEq ω] {t : SpawnTable τ ω}

theorem Keyed.mem_due (h : t.Keyed) {owner : ω} {now : τ} {r : SpawnRule τ ω} :
    r ∈ t.due owner now ↔ t.rules.find? r.key = some r ∧ isDue owner now r := by
  rw [due, List.mem_filter, Table.values, List.mem_map]
  refine and_congr_left fun _ => ⟨?_, fun hr => ⟨_, Table.mem_entries_of_find? hr, rfl⟩⟩
  rintro ⟨⟨key, r'⟩, he, rfl⟩
  have hr := Table.find?_eq_some_iff.2 he
  rwa [h key r' hr]

theorem find?_stamp (t : SpawnTable τ ω) (owner : ω) (now : τ) (key : SpawnKey) :
    (t.stamp owner now).rules.find? key = (t.rules.find? key).map fun r =>
      if isDue owner now r then { r with lastSpawn := now } else r :=
  Table.find?_mapValues ..

variable [OfNat τ 0]

/-- Tables that come about by registering items made from properties, by dropping rules and by
checks. -/
inductive Registered : SpawnTable τ ω → Prop
  | empty : Registered .empty
  | register {t : SpawnTable τ ω} (h : Registered t) (owner : ω) (room name : String)
      {properties : Members} (hp : Assoc.Ascending properties) (respawnSecs : τ) :
      Registered (t.register owner room (.ofProperties name properties) respawnSecs)
  | release {t : SpawnTable τ ω} (h : Registered t) (owner : ω) : Registered (t.release owner)
  | stamp {t : SpawnTable τ ω} (h : Registered t) (owner : ω) (now : τ) :
      Registered (t.stamp owner now)

theorem Registered.fitting (h : t.Registered) {key : SpawnKey} {r : SpawnRule τ ω}
    (hr : t.rules.find? key = some r) : Fitting key r := by
  induction h generalizing r with
  | empty => cases hr
  | @register t _ owner room name properties hp secs ih =>
    rw [SpawnTable.register, Table.find?_insert] at hr
    split at hr
    · rename_i hkey
      cases hr
      subst hkey
      exact ⟨rfl, rfl, hp.filter _, Assoc.find?_erase_self hp⟩
    · exact ih hr
  | @release t _ owner ih =>
    rw [SpawnTable.release, Table.find?_filter] at hr
    exact ih (Option.filter_eq_some_iff.1 hr).1
  | @stamp t _ owner now ih =>
    rw [find?_stamp] at hr
    obtain ⟨r', hr', rfl⟩ := Option.map_eq_some_iff.1 hr
    have hf := ih hr'
    split
    · exact ⟨hf.here, hf.name, hf.ascending, hf.nameless⟩
    · exact hf

theorem Registered.keyed (h : t.Registered) : t.Keyed := fun _ _ hr => (h.fitting hr).here

theorem Registered.mem_due (h : t.Registered) {owner : ω} {now : τ} {r : SpawnRule τ ω} :
    r ∈ t.due owner now ↔ t.rules.find? r.key = some r ∧ isDue owner now r :=
  h.keyed.mem_due

theorem Registered.due_sorted (h : t.Registered) (owner : ω) (now : τ) :
    (t.due owner now).Pairwise fun r r' => compare r.key r'.key = .lt := by
  refine (List.pairwise_map.2 (t.rules.ascending.imp_of_mem ?_)).filter _
  intro e e' he he' hlt
  have hr := h.fitting (Table.find?_eq_some_iff.2 he)
  have hr' := h.fitting (Table.find?_eq_some_iff.2 he')
  rwa [hr.here, hr'.here]

end SpawnTable

/-! ## Putting items into rooms -/

def Room.count (r : Room) (name : String) : Nat := r.items.countP (·.name == name)

namespace World

variable {E : Engine}

/-- The item of a rule lacks: its room is there, and the item is not in it. -/
def Lacks (w : World E) (r : SpawnRule Float Owner) : Bool :=
  (w.game.rooms.find? r.key.room).any fun room => (room.getItem? r.key.item).isNone

def stock (w : World E) (placed : List (SpawnKey × Item)) : World E :=
  { w with game := { w.game with
      rooms := placed.foldl (fun rooms p => rooms.modify p.1.room (·.addItem p.2)) w.game.rooms } }

def lacking (w : World E) (rules : List (SpawnRule Float Owner)) : List (SpawnKey × Item) :=
  (rules.filter w.Lacks).map fun r => (r.key, r.template)

theorem placeRule_eq (w : World E) (placed : List (SpawnKey × Item))
    (r : SpawnRule Float Owner) :
    placeRule (w, placed) r =
      if w.Lacks r then (w.stock [(r.key, r.template)], placed ++ [(r.key, r.template)])
      else (w, placed) := by
  unfold placeRule Lacks
  rcases hroom : w.game.rooms.find? r.key.room with _ | room
  · simp [hroom]
  · rcases hitem : room.getItem? r.key.item with _ | i
    · simp [hroom, hitem, stock, Game.updateRoom]
    · simp [hroom, hitem]

theorem stock_one (w : World E) (p : SpawnKey × Item) (id : String) :
    (w.stock [p]).game.rooms.find? id =
      if id = p.1.room then (w.game.rooms.find? id).map (·.addItem p.2)
      else w.game.rooms.find? id := by
  show (w.game.rooms.modify p.1.room (·.addItem p.2)).find? id = _
  split
  · rename_i hid
    rw [hid, Table.find?_modify_self]
  · rename_i hid
    rw [Table.find?_modify_of_ne _ hid]

/-- An item that is put makes up for no lack but that of its own rule. -/
theorem lacks_stock {w : World E} {r r' : SpawnRule Float Owner}
    (hname : r.template.name = r.key.item) (hkey : r.key ≠ r'.key) :
    (w.stock [(r.key, r.template)]).Lacks r' = w.Lacks r' := by
  rw [Lacks, Lacks, stock_one]
  split
  · rename_i hroom
    have hitem : r.template.name ≠ r'.key.item := by
      intro he
      rw [hname] at he
      obtain ⟨⟨_, _⟩, _, _, _, _⟩ := r
      obtain ⟨⟨_, _⟩, _, _, _, _⟩ := r'
      simp_all
    rcases w.game.rooms.find? r'.key.room with _ | room
    · rfl
    · simp [Room.getItem?, Room.addItem, hitem]
  · rfl

theorem placeDue_eq (w : World E) {rules : List (SpawnRule Float Owner)}
    (hname : ∀ r ∈ rules, r.template.name = r.key.item)
    (hkeys : rules.Pairwise fun r r' => r.key ≠ r'.key) :
    placeDue rules w = (w.stock (w.lacking rules), w.lacking rules) := by
  suffices h : ∀ placed : List (SpawnKey × Item), rules.foldl placeRule (w, placed) =
      (w.stock (w.lacking rules), placed ++ w.lacking rules) from h []
  induction rules generalizing w with
  | nil => exact fun placed => by rw [lacking, List.filter_nil, List.map_nil, List.append_nil]; rfl
  | cons r rest ih =>
    intro placed
    obtain ⟨hr, hrest⟩ := List.pairwise_cons.1 hkeys
    have hnames (r') (h : r' ∈ rest) := hname r' (List.mem_cons_of_mem _ h)
    rw [List.foldl_cons, placeRule_eq]
    by_cases hl : w.Lacks r
    · have hsame : (w.stock [(r.key, r.template)]).lacking rest = w.lacking rest := by
        unfold lacking
        rw [List.filter_congr fun r' h => lacks_stock (hname r List.mem_cons_self) (hr r' h)]
      rw [if_pos hl, ih _ hnames hrest, hsame]
      have hcons : w.lacking (r :: rest) = (r.key, r.template) :: w.lacking rest := by
        rw [lacking, List.filter_cons_of_pos hl, List.map_cons]
        rfl
      rw [hcons, List.append_assoc]
      rfl
    · rw [if_neg hl, ih _ hnames hrest]
      have hcons : w.lacking (r :: rest) = w.lacking rest := by
        rw [lacking, List.filter_cons_of_neg hl]
        rfl
      rw [hcons]

theorem stock_room (placed : List (SpawnKey × Item)) (w : World E) (id : String) :
    (w.stock placed).game.rooms.find? id = (w.game.rooms.find? id).map fun r =>
      { r with items := r.items ++ (placed.filter (·.1.room = id)).map (·.2) } := by
  induction placed generalizing w with
  | nil => simp [stock]
  | cons p rest ih =>
    have hcons : w.stock (p :: rest) = (w.stock [p]).stock rest := rfl
    rw [hcons, ih]
    by_cases hid : id = p.1.room
    · rw [stock_one, if_pos hid, Option.map_map]
      simp [hid, Room.addItem, Function.comp_def]
    · rw [stock_one, if_neg hid, List.filter_cons_of_neg (by simpa using Ne.symm hid)]

theorem count_put {placed : List (SpawnKey × Item)} (h : ∀ p ∈ placed, p.2.name = p.1.item)
    (id name : String) :
    ((placed.filter (·.1.room = id)).map (·.2)).countP (·.name == name) =
      (placed.map (·.1)).count ⟨id, name⟩ := by
  rw [List.countP_map, List.countP_filter, List.count, List.countP_map]
  refine List.countP_congr fun p hp => ?_
  obtain ⟨⟨room, item⟩, i⟩ := p
  have hi : i.name = item := h _ hp
  simp [hi, and_comm]

/-- Where an item is already, none of its name is put. -/
theorem count_stock_le {w : World E} {placed : List (SpawnKey × Item)}
    (hname : ∀ p ∈ placed, p.2.name = p.1.item) (hkeys : (placed.map (·.1)).Nodup)
    (hlack : ∀ p ∈ placed, ∀ room, w.game.rooms.find? p.1.room = some room →
      room.getItem? p.1.item = none)
    {id : String} {room : Room} (hroom : w.game.rooms.find? id = some room) :
    ∃ room', (w.stock placed).game.rooms.find? id = some room' ∧
      ∀ name, room'.count name ≤ max 1 (room.count name) := by
  refine ⟨_, by rw [stock_room, hroom]; rfl, fun name => ?_⟩
  rw [Room.count, List.countP_append, count_put hname]
  by_cases hmem : (⟨id, name⟩ : SpawnKey) ∈ placed.map (·.1)
  · obtain ⟨p, hp, hkey⟩ := List.mem_map.1 hmem
    have hitem : room.getItem? name = none := by
      have := hlack p hp room
      rw [hkey] at this
      exact this hroom
    have hzero : room.items.countP (·.name == name) = 0 :=
      List.countP_eq_zero.2 (List.find?_eq_none.1 hitem)
    have := List.nodup_iff_count_le_one.1 hkeys ⟨id, name⟩
    omega
  · rw [List.count_eq_zero_of_not_mem hmem, Nat.add_zero]
    exact Nat.le_max_right ..

/-! ## Telling of them -/

/-- Events are emitted one after the other. -/
inductive Emits (run : Performer E) : List GameEvent → World E → World E → Prop
  | nil (w : World E) : Emits run [] w w
  | cons {event : GameEvent} {events : List GameEvent} {w v w' : World E} {answer : Answer}
      (h : run (.emit event) w = some (v, answer)) (hs : Emits run events v w') :
      Emits run (event :: events) w w'

theorem emits_iff {run : Performer E} {placed : List (SpawnKey × Item)} {w w' : World E} :
    placed.foldlM (fun v p => (run (.emit (spawnEvent p.1 p.2)) v).map (·.1)) w = some w' ↔
      Emits run (placed.map fun p => spawnEvent p.1 p.2) w w' := by
  induction placed generalizing w with
  | nil =>
    constructor
    · intro h
      cases h
      exact .nil _
    · intro h
      cases h
      rfl
  | cons p rest ih =>
    rw [List.foldlM_cons, List.map_cons]
    constructor
    · intro h
      obtain ⟨v, hv, h⟩ := Option.bind_eq_some_iff.1 h
      obtain ⟨⟨v, answer⟩, he, rfl⟩ := Option.map_eq_some_iff.1 hv
      exact .cons he (ih.1 h)
    · intro h
      obtain _ | ⟨hv, hs⟩ := h
      rw [hv]
      exact ih.2 hs

/-- Where every event that comes up is emitted to its end, all are. -/
theorem emits_all {run : Performer E} {events : List GameEvent} {w : World E}
    (h : ∀ told event rest v, events = told ++ event :: rest → Emits run told w v →
      (run (.emit event) v).isSome) : ∃ w', Emits run events w w' := by
  induction events generalizing w with
  | nil => exact ⟨w, .nil w⟩
  | cons event rest ih =>
    obtain ⟨⟨v, answer⟩, hv⟩ := Option.isSome_iff_exists.1 (h [] event rest w rfl (.nil w))
    obtain ⟨w', hs⟩ := ih fun told event' rest' v' he ht =>
      h (event :: told) event' rest' v' (by rw [he]; rfl) (.cons hv ht)
    exact ⟨w', .cons hv hs⟩

theorem spawnEvent_members {key : SpawnKey} {item : Item}
    (ha : Assoc.Ascending item.properties) (hn : Assoc.find? "name" item.properties = none) :
    ∃ members, spawnEvent key item =
        ⟨.unscoped "spawn", [.string key.room, .object members]⟩ ∧
      Assoc.Ascending members ∧ Assoc.find? "name" members = some (.string item.name) ∧
      ∀ k ≠ "name", Assoc.find? k members = Assoc.find? k item.properties := by
  have hfind (k : String) : Assoc.find? k (Assoc.ofList item.members) =
      (Assoc.find? k item.properties).or (Assoc.find? k [("name", .string item.name)]) := by
    exact Assoc.find?_foldl_insert k ha [("name", .string item.name)]
  refine ⟨Assoc.ofList item.members, rfl, .ofList _, ?_, fun k hk => ?_⟩
  · rw [hfind, hn]
    simp [Assoc.find?]
  · have hc : compare k "name" ≠ .eq := fun he => hk (Std.LawfulEqOrd.eq_of_compare he)
    rw [hfind, Assoc.find?, if_neg hc, Assoc.find?, Option.or_none]

/-! ## The check -/

/-- The items that `placed` lists were put into their rooms because rules of `owner` are due. -/
structure Restocked (w : World E) (owner : Owner) (placed : List (SpawnKey × Item))
    (stocked : World E) : Prop where
  /-- The rules that are due are stamped, and no others. -/
  rules : ∀ key, stocked.spawns.rules.find? key = (w.spawns.rules.find? key).map fun r =>
    if r.owner = owner ∧ r.respawnSecs < w.clock.now - r.lastSpawn then
      { r with lastSpawn := w.clock.now }
    else r
  ascending : placed.Pairwise fun p p' => compare p.1 p'.1 = .lt
  /-- An item is put where the rule is due, the room is there and the item is not. -/
  placed_iff : ∀ key item, (key, item) ∈ placed ↔ ∃ r room,
    w.spawns.rules.find? key = some r ∧ r.owner = owner ∧
      r.respawnSecs < w.clock.now - r.lastSpawn ∧ w.game.rooms.find? key.room = some room ∧
      room.getItem? key.item = none ∧ item = r.template
  rooms : ∀ id, stocked.game.rooms.find? id = (w.game.rooms.find? id).map fun room =>
    { room with items := room.items ++ (placed.filter (·.1.room = id)).map (·.2) }
  /-- Nothing else is changed. -/
  elsewhere : stocked = { w with
    spawns := stocked.spawns
    game := { w.game with rooms := stocked.game.rooms } }
  /-- Told of with the name and the properties of the item. -/
  told : ∀ key item, (key, item) ∈ placed → ∃ members,
    spawnEvent key item = ⟨.unscoped "spawn", [.string key.room, .object members]⟩ ∧
      Assoc.Ascending members ∧ Assoc.find? "name" members = some (.string key.item) ∧
      ∀ k ≠ "name", Assoc.find? k members = Assoc.find? k item.properties
  /-- No room comes to hold a second item of a name. -/
  single : ∀ id room, w.game.rooms.find? id = some room →
    ∃ room', stocked.game.rooms.find? id = some room' ∧
      ∀ name, room'.count name ≤ max 1 (room.count name)

section Check

variable {w : World E} (hw : w.spawns.Registered) (owner : Owner)

include hw

theorem restocked_eq : w.restocked owner =
    ({ w with spawns := w.spawns.stamp owner w.clock.now }.stock
        (w.lacking (w.spawns.due owner w.clock.now)),
      w.lacking (w.spawns.due owner w.clock.now)) := by
  unfold restocked
  exact placeDue_eq _ (fun r hr => ((hw.fitting (hw.mem_due.1 hr).1).name)) <|
    (hw.due_sorted owner w.clock.now).imp SpawnKey.ne_of_lt

theorem mem_lacking {key : SpawnKey} {item : Item} :
    (key, item) ∈ w.lacking (w.spawns.due owner w.clock.now) ↔ ∃ r room,
      w.spawns.rules.find? key = some r ∧ r.owner = owner ∧
        r.respawnSecs < w.clock.now - r.lastSpawn ∧ w.game.rooms.find? key.room = some room ∧
        room.getItem? key.item = none ∧ item = r.template := by
  rw [lacking, List.mem_map]
  constructor
  · rintro ⟨r, hr, he⟩
    obtain ⟨hr, hl⟩ := List.mem_filter.1 hr
    obtain ⟨hrule, hdue⟩ := hw.mem_due.1 hr
    obtain ⟨hown, hsecs⟩ := of_decide_eq_true hdue
    obtain ⟨room, hroom, hitem⟩ := Option.any_eq_true _ _ |>.1 hl
    cases he
    exact ⟨r, room, hrule, hown, hsecs, hroom, Option.isNone_iff_eq_none.1 hitem, rfl⟩
  · rintro ⟨r, room, hrule, hown, hsecs, hroom, hitem, rfl⟩
    have hkey := (hw.fitting hrule).here
    subst hkey
    refine ⟨r, List.mem_filter.2 ⟨hw.mem_due.2 ⟨hrule, decide_eq_true ⟨hown, hsecs⟩⟩, ?_⟩, rfl⟩
    exact Option.any_eq_true _ _ |>.2 ⟨room, hroom, Option.isNone_iff_eq_none.2 hitem⟩

theorem restocked_restocked : Restocked w owner (w.restocked owner).2 (w.restocked owner).1 := by
  rw [restocked_eq hw]
  have hname : ∀ p ∈ w.lacking (w.spawns.due owner w.clock.now), p.2.name = p.1.item := by
    rintro ⟨key, item⟩ hp
    obtain ⟨r, -, hrule, -, -, -, -, rfl⟩ := (mem_lacking hw owner).1 hp
    exact (hw.fitting hrule).name
  have hsorted : (w.lacking (w.spawns.due owner w.clock.now)).Pairwise
      fun p p' => compare p.1 p'.1 = .lt :=
    List.pairwise_map.2 ((hw.due_sorted owner w.clock.now).filter _)
  refine ⟨fun key => ?_, hsorted, fun key item => mem_lacking hw owner, fun id => stock_room ..,
    rfl, fun key item hp => ?_, fun id room hroom => ?_⟩
  · rw [stock, SpawnTable.find?_stamp]
    simp [SpawnTable.isDue]
  · obtain ⟨r, -, hrule, -, -, -, -, rfl⟩ := (mem_lacking hw owner).1 hp
    have hf := hw.fitting hrule
    exact hf.name ▸ spawnEvent_members hf.ascending hf.nameless
  · have hkeys : ((w.lacking (w.spawns.due owner w.clock.now)).map (·.1)).Nodup :=
      List.pairwise_map.2 (hsorted.imp SpawnKey.ne_of_lt)
    refine count_stock_le hname hkeys ?_ hroom
    rintro ⟨key, item⟩ hp room hroom
    obtain ⟨-, room', -, -, -, hroom', hitem, -⟩ := (mem_lacking hw owner).1 hp
    cases hroom.symm.trans hroom'
    exact hitem

/-- A check stamps the rules of `owner` that are due, puts the items that lack into their rooms and
tells of each, in the order of the keys. What listeners do when they are told comes after all that,
and changes neither what else is told nor the answer: the keys of what was put. -/
theorem spawnCheck_restocks (run : Performer E) : ∃ placed stocked,
    Restocked w owner placed stocked ∧
      (∀ w' keys, w.spawnCheck run owner = some (w', keys) ↔
        Emits run (placed.map fun p => spawnEvent p.1 p.2) stocked w' ∧ keys = placed.map (·.1)) ∧
      ((∀ told event rest v, (placed.map fun p => spawnEvent p.1 p.2) = told ++ event :: rest →
          Emits run told stocked v → (run (.emit event) v).isSome) →
        ∃ w', w.spawnCheck run owner = some (w', placed.map (·.1))) := by
  have hcheck (w' : World E) (keys : List SpawnKey) : w.spawnCheck run owner = some (w', keys) ↔
      Emits run ((w.restocked owner).2.map fun p => spawnEvent p.1 p.2) (w.restocked owner).1 w' ∧
        keys = (w.restocked owner).2.map (·.1) := by
    rw [spawnCheck_eq, Option.map_eq_some_iff]
    constructor
    · rintro ⟨v, hv, he⟩
      cases he
      exact ⟨emits_iff.1 hv, rfl⟩
    · rintro ⟨hv, rfl⟩
      exact ⟨w', emits_iff.2 hv, rfl⟩
  refine ⟨_, _, restocked_restocked hw owner, hcheck, fun hall => ?_⟩
  obtain ⟨w', hw'⟩ := emits_all hall
  exact ⟨w', (hcheck w' _).2 ⟨hw', rfl⟩⟩

end Check

/-- Two rules of one owner, the properties of one holding a name. -/
def twoRules : SpawnTable Float Owner :=
  (SpawnTable.empty.register (.label "o") "yard" (.ofProperties "well" []) 5).register
    (.label "o") "plaza" (.ofProperties "lamp" [("name", .string "sun")]) 5

/-- A listener that takes away the lamp, the yard's items and all rules. -/
def plunderer (_ : Nat) (_ : GameEvent) : Plan :=
  .ofList .keep [.takeItem "plaza" "lamp", .takeItem "yard" "well", .releaseSpawns "o"]

/-- Both items are told of and answered, though the first listener undoes them and the rules. -/
theorem plundered_check_tells_both :
    ∃ (w w' : World (.ofRuns (fun _ => ([], none)) fun _ => ([], none))),
      w.spawns = twoRules ∧ w.spawns.Registered ∧
      w'.spawns.size = 0 ∧ (w'.game.rooms.values.map (·.items.length)) = [0, 0] ∧
      w.spawnCheck (perform 3) (.label "o") = some (w', [⟨"plaza", "lamp"⟩, ⟨"yard", "well"⟩]) ∧
      ∃ placed stocked, Restocked w (.label "o") placed stocked ∧
        placed.map (·.1) = [⟨"plaza", "lamp"⟩, ⟨"yard", "well"⟩] ∧
        Emits (perform 3) (placed.map fun p => spawnEvent p.1 p.2) stocked w' := by
  let w₀ : World (.ofRuns (fun _ => ([], none)) fun _ => ([], none)) :=
    (World.empty "world").listen (some (.unscoped "spawn")) "plunderer" plunderer
  let w := { w₀ with
    spawns := twoRules
    clock := ⟨60, none⟩
    game := (w₀.game.createRoom "plaza" ⟨"", ∅, []⟩).createRoom "yard" ⟨"", ∅, []⟩ }
  have hw : w.spawns.Registered :=
    .register (.register .empty _ _ _ .nil _) _ _ _ (List.pairwise_singleton ..) _
  have hrun : (w.spawnCheck (perform 3) (.label "o")).map (fun r =>
      (r.2, r.1.spawns.size, r.1.game.rooms.values.map (·.items.length))) =
        some ([⟨"plaza", "lamp"⟩, ⟨"yard", "well"⟩], 0, [0, 0]) := by
    decide +kernel
  obtain ⟨⟨w', keys⟩, hcheck, he⟩ := Option.map_eq_some_iff.1 hrun
  obtain ⟨rfl, he⟩ := Prod.mk.inj he
  obtain ⟨hsize, hitems⟩ := Prod.mk.inj he
  obtain ⟨placed, stocked, hr, hiff, -⟩ := spawnCheck_restocks hw (.label "o") (perform 3)
  obtain ⟨hemits, hkeys⟩ := (hiff w' _).1 hcheck
  exact ⟨w, w', rfl, hw, hsize, hitems, hcheck, placed, stocked, hr, hkeys.symm, hemits⟩

end World

end LiveModules
