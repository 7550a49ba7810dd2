import LiveModules.Proofs.Wiring
import Mathlib.Data.List.Induction

/-!
# What a history leaves of listeners

A hub has a channel for each key and one for all events. Listeners are registered in a channel, each
with a number that nobody else gets, and are taken off wherever they are. So who is in a channel is
as many as were registered there, less those who were found there when they were taken off
(`Hub.Accounted`). The hub of a world comes about in no other way (`Site.Run.hub_accounted`).
-/

namespace LiveModules

attribute [local irreducible] lastOf

theorem any_id_iff {α : Type} {members : List (Member α)} {id : Nat} :
    members.any (·.id == id) = true ↔ ∃ m ∈ members, m.id = id := by
  simp

theorem Roster.mentions_iff {α : Type} {r : Roster α} {id : Nat} :
    r.mentions id = true ↔ ∃ key, ∃ m ∈ r.listed key, m.id = id := by
  rw [mentions, List.any_eq_true]
  constructor
  · rintro ⟨members, hm, h⟩
    obtain ⟨⟨key, members⟩, he, rfl⟩ := List.mem_map.1 hm
    refine ⟨key, ?_⟩
    rw [listed, Table.find?_eq_some_iff.2 he]
    exact any_id_iff.1 h
  · rintro ⟨key, m, hm, hid⟩
    rcases hf : r.lists.find? key with _ | members <;> rw [listed, hf] at hm
    · cases hm
    · have he := Table.find?_eq_some_iff.1 hf
      exact ⟨members, List.mem_map.2 ⟨_, he, rfl⟩, any_id_iff.2 ⟨m, hm, hid⟩⟩

namespace Hub

variable {α : Type} {h : Hub α}

/-- The listeners of a key, or with no key those who hear all events. -/
def channel (h : Hub α) : Option EventKey → List (Member α)
  | some key => h.keyed.listed key
  | none => h.any

/-- What is done to a hub. -/
inductive Op (α : Type)
  | on (channel : Option EventKey) (id : Nat) (content : α)
  | off (id : Nat)

namespace Op

def apply (h : Hub α) : Op α → Hub α
  | .on (some key) id content => h.on key id content
  | .on none id content => h.onAny id content
  | .off id => h.off id

/-- The number that a listener is registered with. -/
def id? : Op α → Option Nat
  | .on _ id _ => some id
  | .off _ => none

/-- Somebody is registered in the channel. -/
def registers (channel : Option EventKey) : Op α → Bool
  | .on channel' _ _ => channel' = channel
  | .off _ => false

/-- Somebody is taken off the channel, where they are. -/
def removes (channel : Option EventKey) (h : Hub α) : Op α → Bool
  | .on .. => false
  | .off id => (h.channel channel).any (·.id == id)

end Op

def replay (h : Hub α) (ops : List (Op α)) : Hub α := ops.foldl Op.apply h

/-- How often somebody was taken off the channel who was there. -/
def removals (channel : Option EventKey) : Hub α → List (Op α) → Nat
  | _, [] => 0
  | h, op :: ops => (op.removes channel h).toNat + removals channel (op.apply h) ops

/-! ## One operation -/

theorem contains_iff {id : Nat} : h.contains id = true ↔ ∃ key, ∃ m ∈ h.channel key, m.id = id := by
  rw [contains, Bool.or_eq_true, Roster.mentions_iff]
  constructor
  · rintro (ha | ⟨key, hk⟩)
    · exact ⟨none, any_id_iff.1 ha⟩
    · exact ⟨some key, hk⟩
  · rintro ⟨_ | key, hm⟩
    · exact .inl (any_id_iff.2 hm)
    · exact .inr ⟨key, hm⟩

theorem channel_on (h : Hub α) (key key' : Option EventKey) (id : Nat) (content : α) :
    ((Op.on key id content).apply h).channel key' =
      if key' = key then h.channel key ++ [⟨id, content⟩] else h.channel key' := by
  rcases key with _ | key <;> rcases key' with _ | key'
  · rfl
  · rfl
  · rfl
  · simp only [Op.apply, on, channel, Roster.listed_add, Option.some.injEq]

/-- To take somebody off leaves all others, in their order. -/
theorem channel_off (h : Hub α) (id : Nat) (key : Option EventKey) :
    (h.off id).channel key = (h.channel key).filter (·.id != id) := by
  rcases key with _ | key
  · rfl
  · exact Roster.listed_removeAll ..

/-- No channel of a key is kept empty, and nobody is twice in the hub; all have numbers of
`given`. -/
structure Sound (h : Hub α) (given : List Nat) : Prop where
  inhabited : ∀ key, h.keyed.lists.find? key ≠ some []
  distinct : ∀ key, ((h.channel key).map (·.id)).Nodup
  unique : ∀ key key', ∀ m ∈ h.channel key, ∀ m' ∈ h.channel key', m.id = m'.id →
    key = key' ∧ m = m'
  given : ∀ key, ∀ m ∈ h.channel key, m.id ∈ given

namespace Sound

variable {given : List Nat}

theorem empty : (Hub.empty : Hub α).Sound [] := by
  refine ⟨fun key hf => ?_, fun key => ?_, fun key _ m hm => ?_, fun key m hm => ?_⟩
  · cases hf
  · cases key <;> exact .nil
  · cases key <;> cases hm
  · cases key <;> cases hm

theorem off (hs : h.Sound given) (id : Nat) : (h.off id).Sound given := by
  have hmem {key : Option EventKey} {m : Member α} (hm : m ∈ (h.off id).channel key) :
      m ∈ h.channel key := (List.mem_filter.1 (channel_off h id key ▸ hm)).1
  refine ⟨fun key hf => ?_, fun key => ?_,
    fun key key' m hm m' hm' => hs.unique key key' m (hmem hm) m' (hmem hm'),
    fun key m hm => hs.given key m (hmem hm)⟩
  · rw [Hub.off, Roster.removeAll, Roster.find?_keep] at hf
    have := (Option.filter_eq_some_iff.1 hf).2
    simp at this
  · rw [channel_off]
    exact (hs.distinct key).sublist (List.filter_sublist.map _)

theorem on (hs : h.Sound given) (key : Option EventKey) {id : Nat} (hid : id ∉ given)
    (content : α) : ((Op.on key id content).apply h).Sound (given ++ [id]) := by
  have hmem {key' : Option EventKey} {m : Member α}
      (hm : m ∈ ((Op.on key id content).apply h).channel key') :
      m ∈ h.channel key' ∨ key' = key ∧ m = ⟨id, content⟩ := by
    rw [channel_on] at hm
    split at hm
    · rename_i hk
      rw [hk]
      exact (List.mem_append.1 hm).imp_right fun hm => ⟨rfl, List.mem_singleton.1 hm⟩
    · exact .inl hm
  have hne {key' : Option EventKey} {m : Member α} (hm : m ∈ h.channel key') : m.id ≠ id :=
    fun he => hid (he ▸ hs.given key' m hm)
  refine ⟨fun key' hf => ?_, fun key' => ?_, fun key₁ key₂ m hm m' hm' he => ?_,
    fun key' m hm => ?_⟩
  · rcases key with _ | key
    · exact hs.inhabited key' hf
    · rw [Op.apply, Hub.on, Roster.add, Table.find?_insert] at hf
      split at hf
      · simp at hf
      · exact hs.inhabited key' hf
  · rw [channel_on]
    split
    · rw [List.map_append, List.map_singleton, ← List.concat_eq_append]
      refine (hs.distinct key).concat fun hm => ?_
      obtain ⟨m, hm, he⟩ := List.mem_map.1 hm
      exact hne hm he
    · exact hs.distinct key'
  · rcases hmem hm with hm | ⟨rfl, rfl⟩ <;> rcases hmem hm' with hm' | ⟨rfl, rfl⟩
    · exact hs.unique key₁ key₂ m hm m' hm' he
    · exact absurd he (hne ‹_›)
    · exact absurd he.symm (hne ‹_›)
    · exact ⟨rfl, rfl⟩
  · rcases hmem hm with hm | ⟨-, rfl⟩
    · exact List.mem_append_left _ (hs.given key' m hm)
    · exact List.mem_append_right _ (List.mem_singleton_self _)

end Sound

/-- Of those who each have a number of their own, one at most goes. -/
theorem length_filter_ne {members : List (Member α)} (hd : (members.map (·.id)).Nodup) (id : Nat) :
    (members.filter (·.id != id)).length + (members.any (·.id == id)).toNat = members.length := by
  induction members with
  | nil => rfl
  | cons m members ih =>
    obtain ⟨hm, hd⟩ := List.nodup_cons.1 hd
    have := ih hd
    by_cases hid : m.id = id
    · have hnone : members.any (·.id == id) = false := by
        rw [Bool.eq_false_iff]
        intro hany
        obtain ⟨m', hm', he⟩ := any_id_iff.1 hany
        exact hm (List.mem_map.2 ⟨m', hm', he.trans hid.symm⟩)
      rw [hnone] at this
      simpa [hid] using this
    · simp only [List.filter_cons, bne_iff_ne, ne_eq, hid, not_false_eq_true, ↓reduceIte,
        List.length_cons, List.any_cons, beq_eq_false_iff_ne.2 hid, Bool.false_or]
      omega

/-- What `ops` leave of a hub that is empty at first: a channel holds as many as were registered in
it, less those who were taken off it. -/
structure Accounted (h : Hub α) (ops : List (Op α)) : Prop where
  replayed : h = Hub.empty.replay ops
  fresh : (ops.filterMap Op.id?).Nodup
  sound : h.Sound (ops.filterMap Op.id?)
  count : ∀ key, (h.channel key).length + removals key .empty ops = ops.countP (Op.registers key)

theorem replay_concat (h : Hub α) (ops : List (Op α)) (op : Op α) :
    h.replay (ops ++ [op]) = op.apply (h.replay ops) :=
  List.foldl_append

theorem removals_append (key : Option EventKey) (ops ops' : List (Op α)) : ∀ h : Hub α,
    removals key h (ops ++ ops') = removals key h ops + removals key (h.replay ops) ops' := by
  induction ops with
  | nil => exact fun h => (Nat.zero_add _).symm
  | cons op ops ih =>
    intro h
    rw [List.cons_append, removals, removals, ih, Nat.add_assoc]
    rfl

namespace Accounted

variable {ops : List (Op α)}

theorem empty : Accounted (Hub.empty : Hub α) [] :=
  ⟨rfl, .nil, .empty, fun key => by cases key <;> rfl⟩

theorem on (ha : h.Accounted ops) (key : Option EventKey) {id : Nat}
    (hid : id ∉ ops.filterMap Op.id?) (content : α) :
    ((Op.on key id content).apply h).Accounted (ops ++ [.on key id content]) := by
  have hids : (ops ++ [Op.on key id content]).filterMap Op.id? = ops.filterMap Op.id? ++ [id] :=
    List.filterMap_append
  refine ⟨?_, ?_, hids ▸ ha.sound.on key hid content, fun key' => ?_⟩
  · rw [replay_concat, ← ha.replayed]
  · rw [hids, ← List.concat_eq_append]
    exact ha.fresh.concat hid
  · have := ha.count key'
    rw [removals_append, List.countP_append, channel_on]
    by_cases hk : key' = key
    · subst hk
      simp only [↓reduceIte, List.length_append, List.length_singleton, removals, Op.removes,
        Bool.toNat_false, List.countP_singleton, Op.registers, decide_true]
      omega
    · simp only [hk, ↓reduceIte, removals, Op.removes, Bool.toNat_false, List.countP_singleton,
        Op.registers, Ne.symm hk, decide_false, Bool.false_eq_true]
      omega

theorem off (ha : h.Accounted ops) (id : Nat) : (h.off id).Accounted (ops ++ [.off id]) := by
  have hids : (ops ++ [Op.off id]).filterMap Op.id? = ops.filterMap Op.id? := by
    rw [List.filterMap_append]
    exact List.append_nil _
  refine ⟨?_, hids.symm ▸ ha.fresh, hids.symm ▸ ha.sound.off id, fun key => ?_⟩
  · rw [replay_concat, ← ha.replayed]
    rfl
  · have hlen := length_filter_ne (ha.sound.distinct key) id
    have := ha.count key
    rw [removals_append, List.countP_append, channel_off, ← ha.replayed]
    simp only [removals, Op.removes, List.countP_singleton, Op.registers, Bool.false_eq_true,
      ↓reduceIte]
    omega

end Accounted

/-- After any history in which each listener gets a number of their own. -/
theorem accounted {ops : List (Op α)} (hf : (ops.filterMap Op.id?).Nodup) :
    (Hub.empty.replay ops).Accounted ops := by
  induction ops using List.reverseRecOn with
  | nil => exact .empty
  | append_singleton ops op ih =>
    rw [List.filterMap_append] at hf
    have ha := ih hf.of_append_left
    rw [replay_concat]
    cases op with
    | on key id content =>
      exact ha.on key (fun hid => List.disjoint_of_nodup_append hf hid List.mem_cons_self) content
    | off id => exact ha.off id

end Hub

/-! ## The hub of a world -/

variable {E : Engine} {L : Licence} {C : FileTree → FileTree → Prop} {w w' : World E}

namespace World

/-- The hub has come about by `ops`, with numbers that were given out. -/
def HubAccounted (w : World E) (ops : List (Hub.Op Listener)) : Prop :=
  w.hub.Accounted ops ∧ ∀ id ∈ ops.filterMap Hub.Op.id?, id < w.nextId

namespace HubAccounted

variable {ops : List (Hub.Op Listener)}

theorem listen (h : w.HubAccounted ops) (channel : Option EventKey) (label : String)
    (react : Nat → GameEvent → Plan) : (w.listen channel label react).HubAccounted
      (ops ++ [.on channel w.nextId (.plan label react)]) := by
  obtain ⟨ha, hlt⟩ := h
  have hon := ha.on channel (fun hid => Nat.lt_irrefl _ (hlt w.nextId hid)) (.plan label react)
  refine ⟨?_, fun id hid => ?_⟩
  · rcases channel with _ | key <;> exact hon
  · rw [List.filterMap_append] at hid
    rcases List.mem_append.1 hid with hid | hid
    · exact Nat.lt_succ_of_lt (hlt id hid)
    · rw [List.mem_singleton.1 hid]
      exact Nat.lt_succ_self _

theorem unlisten (h : w.HubAccounted ops) (label : String) :
    ∃ more, (w.unlisten label).1.HubAccounted (ops ++ more) := by
  obtain ⟨ha, hlt⟩ := h
  unfold World.unlisten
  split
  · exact ⟨[], by rwa [List.append_nil], by rwa [List.append_nil]⟩
  · rename_i id _
    refine ⟨[.off id], ha.off id, fun id' hid => hlt id' ?_⟩
    rw [List.filterMap_append] at hid
    exact (List.mem_append.1 hid).resolve_right nofun

theorem pass (h : w.HubAccounted ops) (hp : Pass L w w') :
    ∃ more, w'.HubAccounted (ops ++ more) := by
  rcases hub_cases hp with ⟨hh, -⟩ | ⟨key, label, react, rfl⟩ | ⟨label, rfl⟩
  · refine ⟨[], ?_⟩
    rw [List.append_nil]
    exact ⟨hh ▸ h.1, fun id hid => Nat.lt_of_lt_of_le (h.2 id hid) hp.nextId_le⟩
  · exact ⟨_, h.listen key label react⟩
  · exact h.unlisten label

theorem passes (h : w.HubAccounted ops) (hp : Passes L w w') :
    ∃ more, w'.HubAccounted (ops ++ more) := by
  induction hp with
  | refl => exact ⟨[], by rwa [List.append_nil]⟩
  | tail _ hp ih =>
    obtain ⟨more, ih⟩ := ih
    obtain ⟨last, hl⟩ := ih.pass hp
    exact ⟨more ++ last, by rwa [← List.append_assoc]⟩

end HubAccounted

end World

theorem Site.Run.hub_accounted {s₀ s : Site E} (h : Site.Run L C s₀ s)
    (hw : Passes L s₀.world w) : ∃ ops, w.HubAccounted ops := by
  refine h.passed_induction (P := fun w => ∃ ops, w.HubAccounted ops) (fun root => ?_) ?_ hw
  · have ha : Hub.Accounted (Hub.empty.onAny 0 Listener.relay) [.on none 0 .relay] :=
      Hub.Accounted.on .empty none (List.not_mem_nil : (0 : Nat) ∉ []) Listener.relay
    refine ⟨_, ha, fun id hid => ?_⟩
    rw [List.mem_singleton.1 hid]
    exact Nat.one_pos
  · rintro v v' - ⟨ops, hv⟩ hp
    obtain ⟨more, hv'⟩ := hv.pass hp
    exact ⟨_, hv'⟩

end LiveModules
