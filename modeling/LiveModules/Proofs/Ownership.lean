import LiveModules.Proofs.Runs

/-!
# Who owns a spawn rule

Rules are meant to be owned by current surfaces, and a surface that is superseded loses its rules.
Commands and timers outlive their surface, though, and may register rules afterwards. So a rule
is owned by a current surface exactly if its surface was current when it registered the rule
(`owner_current_iff`).
-/

namespace LiveModules

attribute [local irreducible] lastOf

/-- The surface that an entry makes the current one of `module`. -/
def Entry.surface? (module : String) : Entry → Option Nat
  | .loading module' surface _ => if module' = module then some surface else none
  | _ => none

/-- The surface of `module` that was made current last. -/
def currentSurface? (journal : List Entry) (module : String) : Option Nat :=
  journal.reverse.findSome? (·.surface? module)

theorem currentSurface?_concat (journal : List Entry) (e : Entry) (module : String) :
    currentSurface? (journal ++ [e]) module =
      (e.surface? module).or (currentSurface? journal module) := by
  simp only [currentSurface?, List.reverse_append, List.reverse_singleton, List.singleton_append,
    List.findSome?_cons]
  cases e.surface? module <;> rfl

theorem loading_of_currentSurface? {journal : List Entry} {module : String} {surface : Nat}
    (h : currentSurface? journal module = some surface) :
    ∃ modified, .loading module surface modified ∈ journal := by
  obtain ⟨e, he, hs⟩ := List.exists_of_findSome?_eq_some h
  cases e with
  | loading module' surface' modified =>
    simp only [Entry.surface?] at hs
    split at hs
    · rename_i hm
      cases hs
      exact ⟨modified, hm ▸ List.mem_reverse.1 he⟩
    · cases hs
  | _ => cases hs

/-- Entries that tell of surfaces and of what they own. -/
def Entry.OfSurface : Entry → Prop
  | .loading .. | .registered .. => True
  | _ => False

namespace World

variable {E : Engine}

def surfaceId? (w : World E) (module : String) : Option Nat :=
  (w.surfaces.find? module).map (·.id)

def owner? (w : World E) (key : SpawnKey) : Option Owner :=
  (w.spawns.rules.find? key).map (·.owner)

/-- The surface of `module` checks on every tick the rules that surface `id` owns. -/
def Checks (w : World E) (module : String) (id : Nat) : Prop :=
  ∃ m ∈ (w.roster (.surface module)).listed .tick, m.content = .spawnCheck id

end World

variable {E : Engine} {L : Licence} {w w' : World E}

/-- The rules of `key` were registered last by `o`, after `pre`; `o` is from a surface that was
loaded, and that is current now exactly if it was then. -/
structure LastRegistered (journal : List Entry) (key : SpawnKey) (o : Origin)
    (pre post : List Entry) : Prop where
  split : journal = pre ++ .registered o key :: post
  last : ∀ o', .registered o' key ∉ post
  loaded : ∃ modified, .loading o.module o.surface modified ∈ journal
  current : (∃ module, currentSurface? journal module = some o.surface) ↔
    currentSurface? pre o.module = some o.surface

/-- What the journal says of surfaces and rules agrees with the tables. -/
structure Owned (w : World E) : Prop where
  checked : ∀ module id, w.Checks module id ↔ w.surfaceId? module = some id
  current : ∀ module, w.surfaceId? module = currentSurface? w.journal.toList module
  loading_lt : ∀ module surface modified,
    .loading module surface modified ∈ w.journal.toList → surface < w.nextId
  loading_inj : ∀ module module' surface modified modified',
    .loading module surface modified ∈ w.journal.toList →
    .loading module' surface modified' ∈ w.journal.toList → module = module'
  rules : ∀ key owner, w.owner? key = some owner → ∃ o pre post,
    owner = .surface o.surface ∧ LastRegistered w.journal.toList key o pre post

/-! ## What a pass does to surfaces and rules -/

namespace World

theorem surfaceId?_updateRoster (f : Roster (Subscriber E) → Roster (Subscriber E)) (place : Place)
    (module : String) : (w.updateRoster f place).surfaceId? module = w.surfaceId? module := by
  rcases place with _ | _ | module'
  · rfl
  · rfl
  · simp only [surfaceId?, updateRoster]
    by_cases hm : module = module'
    · subst hm
      rw [Table.find?_modify_self, Option.map_map]
      rfl
    · rw [Table.find?_modify_of_ne _ hm]

theorem surfaceId?_subscribeScript (f : ScriptFunction E) (key : EventKey) (module : String) :
    (w.subscribeScript f key).surfaceId? module = w.surfaceId? module := by
  rcases w.subscribeScript_cases f key with ⟨_, h⟩ | ⟨s, -, -, h⟩
  · rw [h]
    rfl
  · rw [h, surfaceId?_updateRoster]
    rfl

theorem checks_congr (h : w'.surfaces = w.surfaces) (module : String) (id : Nat) :
    w'.Checks module id ↔ w.Checks module id := by
  simp only [Checks, roster, h]

theorem checks_subscribeScript (f : ScriptFunction E) (key : EventKey) (module : String)
    (id : Nat) : (w.subscribeScript f key).Checks module id ↔ w.Checks module id := by
  rcases w.subscribeScript_cases f key with ⟨_, h⟩ | ⟨s, hs, -, h⟩
  · rw [h]
    rfl
  · rw [h]
    simp only [Checks]
    rw [listed_updateRoster_add (w := { w with nextId := w.nextId + 1 }) hs]
    split
    · refine ⟨fun ⟨m, hm, hc⟩ => ?_, fun ⟨m, hm, hc⟩ => ⟨m, List.mem_append_left _ hm, hc⟩⟩
      rcases List.mem_append.1 hm with hm | hm
      · exact ⟨m, hm, hc⟩
      · rw [List.mem_singleton.1 hm] at hc
        cases hc
    · rfl

/-- Who leaves is no spawn check. -/
theorem checks_leave {place : Place} {n : Nat} {key : EventKey}
    (hleave : ∀ m ∈ (w.roster place).listed key, m.id = n → ∀ id, m.content ≠ .spawnCheck id)
    (module : String) (id : Nat) :
    ((w.note (.left place n)).updateRoster (·.remove key n) place).Checks module id ↔
      w.Checks module id := by
  simp only [Checks]
  rw [listed_updateRoster_remove]
  split
  · rename_i h
    obtain ⟨rfl, rfl⟩ := h
    refine ⟨fun ⟨m, hm, hc⟩ => ⟨m, (List.mem_filter.1 hm).1, hc⟩, fun ⟨m, hm, hc⟩ => ⟨m, ?_, hc⟩⟩
    exact List.mem_filter.2 ⟨hm, by simpa using fun he => hleave m hm he id hc⟩
  · rfl

theorem checks_beginLoad (module module' : String) (modified : FileTime) (id : Nat) :
    (w.beginLoad module modified).Checks module' id ↔
      if module' = module then w.nextId = id else w.Checks module' id := by
  simp only [Checks, listed_beginLoad, Place.surface.injEq, ↓reduceIte]
  split <;> simp

theorem subscribeScript_spawns (f : ScriptFunction E) (key : EventKey) :
    (w.subscribeScript f key).spawns = w.spawns := by
  rcases w.subscribeScript_cases f key with ⟨_, h⟩ | ⟨s, -, -, h⟩
  · rw [h]
  · rw [h]
    rfl

theorem surfaceId?_beginLoad (module module' : String) (modified : FileTime) :
    (w.beginLoad module modified).surfaceId? module' =
      if module' = module then some w.nextId else w.surfaceId? module' := by
  simp only [surfaceId?, beginLoad, replaceSurface, Table.find?_insert]
  split <;> rfl

theorem owner?_register {owner : Owner} {room : String} {template : Item} (secs : Float)
    (key : SpawnKey) :
    ({ w with spawns := w.spawns.register owner room template secs } : World E).owner? key =
      if key = ⟨room, template.name⟩ then some owner else w.owner? key := by
  simp only [owner?, SpawnTable.register, Table.find?_insert]
  split <;> rfl

/-- To release the rules of an owner leaves those of others. -/
theorem owner?_release {released owner : Owner} {key : SpawnKey}
    (h : ({ w with spawns := w.spawns.release released } : World E).owner? key = some owner) :
    w.owner? key = some owner ∧ owner ≠ released := by
  simp only [owner?, SpawnTable.release, Table.find?_filter] at h ⊢
  obtain ⟨rule, hr, rfl⟩ := Option.map_eq_some_iff.1 h
  obtain ⟨hf, hp⟩ := Option.filter_eq_some_iff.1 hr
  exact ⟨by rw [hf]; rfl, by simpa using hp⟩

theorem owner?_stamp {owner : Owner} {now : Float} (key : SpawnKey) :
    ({ w with spawns := w.spawns.stamp owner now } : World E).owner? key = w.owner? key := by
  simp only [owner?, SpawnTable.stamp, Table.find?_mapValues, Option.map_map]
  congr 1
  funext rule
  simp only [Function.comp_apply]
  split <;> rfl

/-- A rule that a load leaves is not owned by the surface before. -/
theorem owner?_beginLoad {module : String} {modified : FileTime} {key : SpawnKey} {owner : Owner}
    (h : (w.beginLoad module modified).owner? key = some owner) :
    w.owner? key = some owner ∧ ∀ id, w.surfaceId? module = some id → owner ≠ .surface id := by
  unfold beginLoad replaceSurface at h
  simp only at h
  split at h
  · rename_i s hs
    obtain ⟨ho, hne⟩ := owner?_release (w := w) h
    refine ⟨ho, fun id hid => ?_⟩
    have hs : w.surfaces.find? module = some s := hs
    rw [surfaceId?, hs, Option.map_some, Option.some.injEq] at hid
    exact hid ▸ hne
  · rename_i hs
    refine ⟨h, fun id hid => ?_⟩
    have hs : w.surfaces.find? module = none := hs
    rw [surfaceId?, hs] at hid
    cases hid

end World

/-- Surfaces stay, and no rule gets an owner. -/
structure KeepsOwners (w w' : World E) : Prop where
  surfaces : ∀ module, w'.surfaceId? module = w.surfaceId? module
  checks : ∀ module id, w'.Checks module id ↔ w.Checks module id
  nextId : w.nextId ≤ w'.nextId
  owners : ∀ key owner, w'.owner? key = some owner → w.owner? key = some owner
  journal : w'.journal = w.journal ∨
    ∃ e : Entry, ¬ e.OfSurface ∧ w'.journal = w.journal.push e

theorem KeepsOwners.of_eq (hs : w'.surfaces = w.surfaces) (hn : w.nextId ≤ w'.nextId)
    (hr : w'.spawns = w.spawns) (hj : w'.journal = w.journal ∨
      ∃ e : Entry, ¬ e.OfSurface ∧ w'.journal = w.journal.push e) : KeepsOwners w w' where
  surfaces _ := by rw [World.surfaceId?, World.surfaceId?, hs]
  checks := World.checks_congr hs
  nextId := hn
  owners _ _ h := by rwa [World.owner?, ← hr]
  journal := hj

/-- A pass begins a load, registers a rule for a script, or keeps surfaces and owners. -/
theorem Pass.owner_cases (hL : ∀ owner room template secs,
      ¬ L.action (.registerSpawn owner room template secs)) (h : Pass L w w') :
    (∃ module modified, w' = w.beginLoad module modified) ∨
    (∃ o room template secs, o.Licensed L w.journal.toList ∧
      w' = w.grant o (.item room template secs)) ∨
    KeepsOwners w w' := by
  have hn := h.nextId_le
  cases h with
  | unwritten => exact .inr (.inr (.of_eq rfl hn rfl (.inr ⟨_, id, rfl⟩)))
  | turn h =>
    cases h with
    | beginLoad module modified => exact .inl ⟨module, modified, rfl⟩
    | load => exact .inr (.inr (.of_eq rfl hn rfl (.inr ⟨_, id, rfl⟩)))
    | move h =>
      cases h with
      | grant origin r ho =>
        cases r with
        | item room template secs => exact .inr (.inl ⟨origin, room, template, secs, ho, rfl⟩)
        | handler key callback =>
          refine .inr (.inr ⟨World.surfaceId?_subscribeScript _ key,
            World.checks_subscribeScript _ key, hn, fun key' owner h => ?_,
            .inl (World.subscribeScript_journal _ key)⟩)
          rwa [World.owner?, World.grant, World.subscribeScript_spawns] at h
        | preventDefault | log => exact .inr (.inr (.of_eq rfl hn rfl (.inr ⟨_, id, rfl⟩)))
        | _ => exact .inr (.inr (.of_eq rfl hn rfl (.inl rfl)))
      | registerSpawn owner room template secs ha => exact (hL owner room template secs ha).elim
      | releaseSpawns owner =>
        exact .inr (.inr ⟨fun _ => rfl, fun _ _ => .rfl, hn,
          fun _ _ h => (World.owner?_release h).1, .inl rfl⟩)
      | stamp owner now =>
        exact .inr (.inr ⟨fun _ => rfl, fun _ _ => .rfl, hn,
          fun _ _ h => (World.owner?_stamp _).symm.trans h, .inl rfl⟩)
      | leave place n label event _ _ hleave =>
        refine .inr (.inr ⟨World.surfaceId?_updateRoster _ place, World.checks_leave hleave, hn,
          fun _ _ h => ?_, ?_⟩)
        · cases place <;> exact h
        · cases place <;> exact .inr ⟨_, id, rfl⟩
      | unlisten label =>
        obtain ⟨hub, he, -⟩ := w.unlisten_cases label
        rw [he]
        exact .inr (.inr (.of_eq rfl (Nat.le_refl _) rfl (.inl rfl)))
      | unsubscribe key label =>
        obtain ⟨emitter, he, -⟩ := w.unsubscribe_cases key label
        rw [he]
        exact .inr (.inr (.of_eq rfl (Nat.le_refl _) rfl (.inl rfl)))
      | remark e he =>
        refine .inr (.inr (.of_eq rfl hn rfl (.inr ⟨e, ?_, rfl⟩)))
        cases e <;> first | exact id | exact absurd he id
      | hear | prevent | fail => exact .inr (.inr (.of_eq rfl hn rfl (.inr ⟨_, id, rfl⟩)))
      | _ => exact .inr (.inr (.of_eq rfl hn rfl (.inl rfl)))
    | _ => exact .inr (.inr (.of_eq rfl hn rfl (.inl rfl)))
  | _ => exact .inr (.inr (.of_eq rfl hn rfl (.inl rfl)))

/-! ## What every pass keeps -/

theorem LastRegistered.concat {journal pre post : List Entry} {key : SpawnKey} {o : Origin}
    {e : Entry} (h : LastRegistered journal key o pre post) (he : ∀ o', e ≠ .registered o' key)
    (hc : (∃ module, currentSurface? (journal ++ [e]) module = some o.surface) ↔
      ∃ module, currentSurface? journal module = some o.surface) :
    LastRegistered (journal ++ [e]) key o pre (post ++ [e]) where
  split := by rw [h.split, List.append_assoc, List.cons_append]
  last o' hm := by
    rcases List.mem_append.1 hm with hm | hm
    · exact h.last o' hm
    · exact he o' (List.mem_singleton.1 hm).symm
  loaded := h.loaded.imp fun _ hm => List.mem_append_left _ hm
  current := hc.trans h.current

namespace Owned

theorem start (root : String) : Owned (World.empty root : World E).attachRelay where
  checked module id := by
    refine ⟨fun ⟨m, hm, _⟩ => ?_, fun h => ?_⟩
    · cases hm
    · cases h
  current module := rfl
  loading_lt := by
    intro module surface modified h
    cases h
  loading_inj := by
    intro module module' surface modified modified' h
    cases h
  rules := by
    intro key owner h
    cases h

/-- A fresh surface becomes current; those of the one before it lose their rules. -/
theorem beginLoad (h : Owned w) (module : String) (modified : FileTime) :
    Owned (w.beginLoad module modified) := by
  have hj : (w.beginLoad module modified).journal.toList =
      w.journal.toList ++ [.loading module w.nextId modified] := Array.toList_push
  have hcur (module' : String) :
      currentSurface? (w.beginLoad module modified).journal.toList module' =
        if module' = module then some w.nextId else w.surfaceId? module' := by
    rw [hj, currentSurface?_concat, Entry.surface?, h.current module']
    by_cases hm : module' = module
    · rw [if_pos hm.symm, if_pos hm, Option.some_or]
    · rw [if_neg (Ne.symm hm), if_neg hm, Option.none_or]
  refine ⟨fun module' id => ?_, fun module' => ?_, ?_, ?_, fun key owner ho => ?_⟩
  · rw [World.checks_beginLoad, World.surfaceId?_beginLoad]
    split
    · simp
    · exact h.checked module' id
  · rw [World.surfaceId?_beginLoad, hcur]
  · intro module' surface modified' hm
    rw [hj] at hm
    rcases List.mem_append.1 hm with hm | hm
    · exact Nat.lt_add_right 2 (h.loading_lt module' surface modified' hm)
    · cases List.mem_singleton.1 hm
      exact Nat.lt_add_of_pos_right Nat.two_pos
  · intro m₁ m₂ surface t₁ t₂ h₁ h₂
    rw [hj] at h₁ h₂
    rcases List.mem_append.1 h₁ with h₁ | h₁ <;> rcases List.mem_append.1 h₂ with h₂ | h₂
    · exact h.loading_inj m₁ m₂ surface t₁ t₂ h₁ h₂
    · cases List.mem_singleton.1 h₂
      exact absurd (h.loading_lt m₁ _ t₁ h₁) (Nat.lt_irrefl _)
    · cases List.mem_singleton.1 h₁
      exact absurd (h.loading_lt m₂ _ t₂ h₂) (Nat.lt_irrefl _)
    · cases List.mem_singleton.1 h₁
      cases List.mem_singleton.1 h₂
      rfl
  · obtain ⟨ho, hne⟩ := World.owner?_beginLoad ho
    obtain ⟨o, pre, post, rfl, hl⟩ := h.rules key owner ho
    refine ⟨o, pre, _, rfl, hj ▸ hl.concat (fun _ => Entry.noConfusion) ?_⟩
    -- the owner is neither the fresh surface nor the one that it replaces
    obtain ⟨t, ht⟩ := hl.loaded
    have hlt := h.loading_lt _ _ t ht
    rw [← hj]
    refine ⟨fun ⟨m, hm⟩ => ⟨m, ?_⟩, fun ⟨m, hm⟩ => ⟨m, ?_⟩⟩
    · rw [hcur] at hm
      split at hm
      · rw [Option.some.injEq] at hm
        exact absurd hlt (hm ▸ Nat.lt_irrefl _)
      · rw [← h.current, hm]
    · rw [← h.current] at hm
      rw [hcur, if_neg, hm]
      rintro rfl
      exact hne _ hm rfl

/-- A script of a surface that was loaded registers a rule. -/
theorem register (h : Owned w) {o : Origin} (ho : o.Licensed L w.journal.toList) (room : String)
    (template : Item) (secs : Float) : Owned (w.grant o (.item room template secs)) := by
  have hj : (w.grant o (.item room template secs)).journal.toList =
      w.journal.toList ++ [.registered o ⟨room, template.name⟩] := Array.toList_push
  generalize hw : w.grant o (.item room template secs) = w' at *
  have hcur (module : String) :
      currentSurface? w'.journal.toList module = currentSurface? w.journal.toList module := by
    rw [hj, currentSurface?_concat]
    rfl
  have hmem {module : String} {surface : Nat} {modified : FileTime}
      (hm : .loading module surface modified ∈ w'.journal.toList) :
      .loading module surface modified ∈ w.journal.toList := by
    rw [hj] at hm
    exact (List.mem_append.1 hm).resolve_right fun hm => by cases List.mem_singleton.1 hm
  refine ⟨fun module id => ?_, fun module => ?_, ?_, ?_, fun key owner hown => ?_⟩
  · rw [← hw]
    exact h.checked module id
  · rw [hcur, ← h.current, ← hw]
    rfl
  · intro module surface modified hm
    have := h.loading_lt module surface modified (hmem hm)
    rwa [← hw]
  · exact fun m₁ m₂ surface t₁ t₂ h₁ h₂ => h.loading_inj m₁ m₂ surface t₁ t₂ (hmem h₁) (hmem h₂)
  · have hown : (if key = ⟨room, template.name⟩ then some (.surface o.surface) else w.owner? key) =
        some owner := by
      rw [← World.owner?_register secs, ← hown, ← hw]
      rfl
    split at hown
    · rename_i hk
      cases hown
      obtain ⟨t, ht⟩ := ho.2
      refine ⟨o, w.journal.toList, [], rfl, by rw [hj, hk], fun _ hm => (by cases hm),
        ⟨t, by rw [hj]; exact List.mem_append_left _ ht⟩, fun ⟨m, hm⟩ => ?_,
        fun hm => ⟨o.module, ?_⟩⟩
      · -- a surface belongs to one module
        rw [hcur] at hm
        obtain ⟨t', ht'⟩ := loading_of_currentSurface? hm
        rwa [h.loading_inj _ _ _ _ _ ht' ht] at hm
      · rw [hcur]
        exact hm
    · rename_i hk
      obtain ⟨o', pre, post, rfl, hl⟩ := h.rules key owner hown
      refine ⟨o', pre, _, rfl, hj ▸ hl.concat ?_ ?_⟩
      · rintro o'' he
        cases he
        exact hk rfl
      · rw [← hj]
        simp only [hcur]

/-- Surfaces stay, and no rule gets an owner. -/
theorem keep (h : Owned w) (hk : KeepsOwners w w') : Owned w' := by
  have hcur (module : String) :
      currentSurface? w'.journal.toList module = currentSurface? w.journal.toList module := by
    rcases hk.journal with hj | ⟨e, he, hj⟩
    · rw [hj]
    · rw [hj, Array.toList_push, currentSurface?_concat]
      cases e <;> first | rfl | exact absurd trivial he
  have hmem {module : String} {surface : Nat} {modified : FileTime}
      (hm : .loading module surface modified ∈ w'.journal.toList) :
      .loading module surface modified ∈ w.journal.toList := by
    rcases hk.journal with hj | ⟨e, he, hj⟩
    · exact hj ▸ hm
    · rw [hj, Array.toList_push] at hm
      refine (List.mem_append.1 hm).resolve_right fun hm => he ?_
      exact List.mem_singleton.1 hm ▸ trivial
  refine ⟨fun module id => ?_, fun module => ?_, ?_, ?_, fun key owner ho => ?_⟩
  · rw [hk.checks, hk.surfaces]
    exact h.checked module id
  · rw [hk.surfaces, h.current, hcur]
  · intro module surface modified hm
    exact Nat.lt_of_lt_of_le (h.loading_lt module surface modified (hmem hm)) hk.nextId
  · exact fun m₁ m₂ surface t₁ t₂ h₁ h₂ => h.loading_inj m₁ m₂ surface t₁ t₂ (hmem h₁) (hmem h₂)
  · obtain ⟨o, pre, post, rfl, hl⟩ := h.rules key owner (hk.owners key owner ho)
    rcases hk.journal with hj | ⟨e, he, hj⟩
    · exact ⟨o, pre, post, rfl, hj ▸ hl⟩
    · have hj' : w'.journal.toList = w.journal.toList ++ [e] := by rw [hj, Array.toList_push]
      refine ⟨o, pre, post ++ [e], rfl, hj' ▸ hl.concat ?_ ?_⟩
      · rintro o' rfl
        exact he trivial
      · rw [← hj']
        simp only [hcur]

end Owned

theorem Pass.owned (hL : ∀ owner room template secs,
      ¬ L.action (.registerSpawn owner room template secs)) (ht : Pass L w w') (h : Owned w) :
    Owned w' := by
  rcases ht.owner_cases hL with ⟨module, modified, rfl⟩ | ⟨o, room, template, secs, ho, rfl⟩ | hk
  · exact h.beginLoad module modified
  · exact h.register ho room template secs
  · exact h.keep hk

theorem Site.Run.owned {C : FileTree → FileTree → Prop} {s₀ s : Site E}
    (h : Site.Run .scripts C s₀ s) : Owned s.world :=
  h.world_induction Owned.start fun _ _ _ hv ht => ht.owned (fun _ _ _ _ => id) hv

/-! ## Owners -/

/-- Where only scripts register rules, each rule belongs to the surface that registered it last.
That surface is current, and its rules are checked on every tick, exactly if it was current when
it registered the rule: a rule registered by a command or timer of a superseded surface is dead. -/
theorem owner_current_iff {C : FileTree → FileTree → Prop} {s₀ s : Site E}
    (h : Site.Run .scripts C s₀ s) {key : SpawnKey} {rule : SpawnRule Float Owner}
    (hr : s.world.spawns.rules.find? key = some rule) :
    ∃ o pre post, s.world.journal.toList = pre ++ .registered o key :: post ∧
      (∀ o', .registered o' key ∉ post) ∧ rule.owner = .surface o.surface ∧
      ((∃ module surface, s.world.surfaces.find? module = some surface ∧
        rule.owner = .surface surface.id) ↔ currentSurface? pre o.module = some o.surface) ∧
      ((∃ module, s.world.Checks module o.surface) ↔
        currentSurface? pre o.module = some o.surface) := by
  have ho := h.owned
  obtain ⟨o, pre, post, hown, hl⟩ := ho.rules key rule.owner (by rw [World.owner?, hr]; rfl)
  refine ⟨o, pre, post, hl.split, hl.last, hown, ?_, ?_⟩
  · rw [← hl.current, hown]
    refine exists_congr fun module => ?_
    rw [← ho.current, World.surfaceId?, Option.map_eq_some_iff]
    simp only [Owner.surface.injEq, eq_comm]
  · rw [← hl.current]
    exact exists_congr fun module => (ho.checked module o.surface).trans (by rw [ho.current])

/-- The text `old` makes a command that registers a rule, any other text registers it at once. -/
def smith : Engine :=
  .ofRuns (fun text => ([if text = "old" then .command ⟨"forge", none⟩ "" 0
    else .item "plaza" ⟨"sword", []⟩ 7], none)) fun _ => ([.item "plaza" ⟨"sword", []⟩ 5], none)

/-- The command of a superseded version takes the rule of the current one, which nobody checks from
then on. -/
theorem superseded_command_owns :
    ∃ (s : Site smith) (rule : SpawnRule Float Owner),
      Site.Run .scripts (fun _ _ => True) (.start "world" .empty none) s ∧
      s.world.spawns.rules.find? ⟨"plaza", "sword"⟩ = some rule ∧
      (¬ ∃ module surface, s.world.surfaces.find? module = some surface ∧
        rule.owner = .surface surface.id) ∧
      ∃ o pre post, s.world.journal.toList = pre ++ .registered o ⟨"plaza", "sword"⟩ :: post ∧
        currentSurface? pre o.module ≠ some o.surface ∧
        ¬ ∃ module, s.world.Checks module o.surface := by
  let s₀ : Site smith := .start "world" .empty none
  let s₁ := (s₀.reload "a.lua" ⟨100, 0⟩ "old").reload "a.lua" ⟨200, 0⟩ "new"
  have hact : ((s₁.act 1 (.runCommand "player" "forge")).map fun r =>
      (r.1.world.owner? ⟨"plaza", "sword"⟩, r.1.world.surfaces.entries.map (·.2.id))) =
      some (some (.surface 1), [3]) := by decide +kernel
  obtain ⟨⟨s, r⟩, hs, hf⟩ := Option.map_eq_some_iff.1 hact
  obtain ⟨hown, hids⟩ := Prod.mk.inj hf
  obtain ⟨rule, hr, hrule⟩ := Option.map_eq_some_iff.1 hown
  have hrun : Site.Run .scripts (fun _ _ => True) s₀ s :=
    (((Site.Run.refl "world" .empty none).tail (.reload s₀ "a.lua" ⟨100, 0⟩ "old" trivial)).tail
      (.reload _ "a.lua" ⟨200, 0⟩ "new" trivial)).tail
        (.act 1 (.runCommand "player" "forge") r trivial hs)
  have hdead : ¬ ∃ module surface, s.world.surfaces.find? module = some surface ∧
      rule.owner = .surface surface.id := by
    rintro ⟨module, surface, hf, ho⟩
    have hid := List.mem_map_of_mem (f := (·.2.id)) (Table.mem_entries_of_find? hf)
    rw [hids, List.mem_singleton] at hid
    rw [hrule, Owner.surface.injEq] at ho
    exact absurd (ho.trans hid) (by decide)
  obtain ⟨o, pre, post, hj, -, -, hcur, hcheck⟩ := owner_current_iff hrun hr
  exact ⟨s, rule, hrun, hr, hdead, o, pre, post, hj, fun h => hdead (hcur.2 h),
    fun h => hdead (hcur.2 (hcheck.1 h))⟩

end LiveModules
