import LiveModules.Proofs.Deliveries
import LiveModules.Proofs.Ownership

/-!
# The lists of surfaces

What becomes of the lists of the current surfaces while callbacks run (`Evolution`): who is listed
stays, unless their own call failed, and who joins is a function of the surface's own script. So one
module has no part in what happens to the lists of another.
-/

namespace LiveModules

attribute [local irreducible] lastOf

variable {E : Engine} {L : Licence} {u v w w' : World E} {told more : List Entry}

/-- Somebody is taken off a list of a surface: no spawn check, and if it is a function of a script
then a call of that script failed. -/
structure Dropped (module : String) (m : Member (Subscriber E)) (told : List Entry) : Prop where
  left : .left (.surface module) m.id ∈ told
  script : ∀ f, m.content = .script f → ∃ detail, .failed f.origin.module detail ∈ told
  check : ∀ surface, m.content ≠ .spawnCheck surface

namespace World

/-- Who is listed on the current surface of a module. -/
def subscribers (w : World E) (module : String) (key : EventKey) : List (Member (Subscriber E)) :=
  (w.roster (.surface module)).listed key

/-- Lists are in the order of the numbers, which is that of registration. -/
def Ordered (w : World E) : Prop :=
  ∀ module key, (w.subscribers module key).Pairwise fun a b => a.id < b.id

/-- What becomes of surfaces and their lists while `told` is told. -/
structure Evolution (w w' : World E) (told : List Entry) : Prop where
  journal : w'.journal.toList = w.journal.toList ++ told
  nextId : w.nextId ≤ w'.nextId
  numbered : w'.Numbered
  ordered : w.Ordered → w'.Ordered
  current : ∀ module, w'.surfaceId? module = w.surfaceId? module
  keys : w'.surfaces.keys = w.surfaces.keys
  stays : ∀ module key, ∀ m ∈ w.subscribers module key,
    m ∈ w'.subscribers module key ∨ Dropped module m told
  fresh : ∀ module key, ∀ m ∈ w'.subscribers module key, m ∈ w.subscribers module key ∨
    w.nextId ≤ m.id ∧ ∃ f, m.content = .script f ∧ f.origin.module = module ∧
      w.surfaceId? module = some f.origin.surface

def Evolves (w w' : World E) : Prop := w.Numbered → ∃ told, Evolution w w' told

end World

theorem Dropped.mono {module : String} {m : Member (Subscriber E)} (h : Dropped module m told)
    (hs : told ⊆ more) : Dropped module m more :=
  ⟨hs h.left, fun f hf => (h.script f hf).imp fun _ hd => hs hd, h.check⟩

namespace World

theorem Evolution.trans (h : Evolution u v told) (h' : Evolution v w more) :
    Evolution u w (told ++ more) where
  journal := by rw [h'.journal, h.journal, List.append_assoc]
  nextId := Nat.le_trans h.nextId h'.nextId
  numbered := h'.numbered
  ordered := h'.ordered ∘ h.ordered
  current module := (h'.current module).trans (h.current module)
  keys := h'.keys.trans h.keys
  stays module key m hm := by
    rcases h.stays module key m hm with hm | hd
    · exact (h'.stays module key m hm).imp_right fun hd => hd.mono (List.subset_append_right ..)
    · exact .inr (hd.mono (List.subset_append_left ..))
  fresh module key m hm := by
    rcases h'.fresh module key m hm with hm | ⟨hn, f, hf, hmod, hs⟩
    · exact h.fresh module key m hm
    · exact .inr ⟨Nat.le_trans h.nextId hn, f, hf, hmod, (h.current module) ▸ hs⟩

theorem Evolution.of_surfaces (hw : w.Numbered)
    (hj : w'.journal.toList = w.journal.toList ++ told) (hn : w.nextId ≤ w'.nextId)
    (hl : ListsGrow w w') (hs : w'.surfaces = w.surfaces) : Evolution w w' told where
  journal := hj
  nextId := hn
  numbered := hw.grow hn hl
  ordered ho module key := by
    have h := ho module key
    rwa [subscribers, roster, ← hs] at h
  current module := by rw [surfaceId?, hs, surfaceId?]
  keys := by rw [hs]
  stays module key m hm := .inl (by rwa [subscribers, roster, hs])
  fresh module key m hm := .inl (by rwa [subscribers, roster, hs] at hm)

namespace Evolves

theorem refl (w : World E) : Evolves w w := fun hw =>
  ⟨[], .of_surfaces hw (List.append_nil _).symm (Nat.le_refl _) (.of_subset fun _ _ _ => id) rfl⟩

theorem trans (h : Evolves u v) (h' : Evolves v w) : Evolves u w := fun hu => by
  obtain ⟨told, ht⟩ := h hu
  obtain ⟨more, hm⟩ := h' ht.numbered
  exact ⟨told ++ more, ht.trans hm⟩

theorem of_rosters (hj : ∃ told, w'.journal.toList = w.journal.toList ++ told)
    (hn : w.nextId ≤ w'.nextId) (hr : w'.roster = w.roster) (hs : w'.surfaces = w.surfaces) :
    Evolves w w' := fun hw => by
  obtain ⟨told, hj⟩ := hj
  refine ⟨told, .of_surfaces hw hj hn (.of_subset fun place key m hm => ?_) hs⟩
  rwa [hr] at hm

theorem of_eq (hj : w'.journal = w.journal) (hn : w'.nextId = w.nextId) (hr : w'.roster = w.roster)
    (hs : w'.surfaces = w.surfaces) : Evolves w w' :=
  of_rosters ⟨[], by rw [hj, List.append_nil]⟩ (Nat.le_of_eq hn.symm) hr hs

theorem note (w : World E) (e : Entry) : Evolves w (w.note e) :=
  of_rosters ⟨[e], Array.toList_push⟩ (Nat.le_refl _) rfl rfl

end Evolves

/-! ## Scripts -/

theorem keys_updateRoster (f : Roster (Subscriber E) → Roster (Subscriber E)) (place : Place) :
    (w.updateRoster f place).surfaces.keys = w.surfaces.keys := by
  cases place with
  | surface module => exact Table.keys_modify ..
  | _ => rfl

theorem subscribeScript_evolves (f : ScriptFunction E) (key : EventKey) :
    Evolves w (w.subscribeScript f key) := fun hw => by
  rcases w.subscribeScript_cases f key with ⟨_, h⟩ | ⟨s, hs, hid, h⟩
  · rw [h]
    exact Evolves.of_rosters ⟨[], (List.append_nil _).symm⟩ (Nat.le_succ _) rfl rfl hw
  · have hlisted (module : String) (key' : EventKey) :
        (w.subscribeScript f key).subscribers module key' =
          if module = f.origin.module ∧ key' = key
          then w.subscribers module key' ++ [⟨w.nextId, .script f⟩]
          else w.subscribers module key' := by
      rw [h, subscribers, listed_updateRoster_add (w := { w with nextId := w.nextId + 1 }) hs]
      simp only [Place.surface.injEq]
      rfl
    refine ⟨[], ?_, subscribeScript_nextId_le f key,
      hw.grow (subscribeScript_nextId_le f key) (.subscribeScript f key), fun ho module key' => ?_,
      surfaceId?_subscribeScript f key, ?_, fun module key' m hm => .inl ?_,
      fun module key' m hm => ?_⟩
    · rw [subscribeScript_journal, List.append_nil]
    · rw [hlisted]
      split
      · refine List.pairwise_append.2 ⟨ho module key', List.pairwise_singleton _ _, ?_⟩
        intro a ha b hb
        rw [List.mem_singleton.1 hb]
        exact hw.lt (.surface module) key' a ha
      · exact ho module key'
    · rw [h, keys_updateRoster]
    · rw [hlisted]
      split
      · exact List.mem_append_left _ hm
      · exact hm
    · rw [hlisted] at hm
      split at hm
      · rename_i hk
        refine (List.mem_append.1 hm).imp_right fun hm => ?_
        rw [List.mem_singleton.1 hm]
        refine ⟨Nat.le_refl _, f, rfl, hk.1.symm, ?_⟩
        rw [hk.1, surfaceId?, hs, Option.map_some, hid]
      · exact .inl hm

theorem grant_evolves (origin : Origin) (r : Request E.Callback) :
    Evolves w (w.grant origin r) := by
  cases r with
  | handler key callback => exact subscribeScript_evolves ⟨origin, callback⟩ key
  | item room template secs =>
    exact .of_rosters ⟨[_], Array.toList_push⟩ (Nat.le_refl _) rfl rfl
  | preventDefault | log => exact .of_rosters ⟨[_], Array.toList_push⟩ (Nat.le_refl _) rfl rfl
  | _ => exact .of_eq rfl rfl rfl rfl

/-- A failing run is told of in the end. -/
theorem callScript_failed {f : ScriptFunction E} {args : List Json} {detail : String}
    (h : w.callScript f args = (w', some detail)) :
    ∃ r, w' = (w.finishRun f.origin r).note (.failed f.origin.module detail) := by
  unfold callScript at h
  split at h
  · cases h
  · rename_i state _
    obtain ⟨rfl, hf⟩ := Prod.mk.inj h
    rw [hf]
    exact ⟨_, rfl⟩

/-- A member that wants to leave is no spawn check, and a function of a script wants to leave only
if it failed. -/
theorem callSubscriber_leave {run : Performer E} {place : Place} {event : GameEvent}
    {m : Member (Subscriber E)} (h : w.callSubscriber run place event m = some (w', .leave))
    (hj : w'.journal.toList = w.journal.toList ++ told) :
    (∀ f, m.content = .script f → ∃ detail, .failed f.origin.module detail ∈ told) ∧
      ∀ surface, m.content ≠ .spawnCheck surface := by
  unfold callSubscriber at h
  split at h
  · rename_i hm
    exact ⟨fun f hf => (by rw [hm] at hf; cases hf), fun _ hs => (by rw [hm] at hs; cases hs)⟩
  · rename_i f hm
    refine ⟨fun f' hf => ?_, fun _ hs => (by rw [hm] at hs; cases hs)⟩
    rw [hm] at hf
    cases hf
    simp only at h
    split at h
    · cases h
    · rename_i v detail hcall
      obtain ⟨rfl, -⟩ := Prod.mk.inj (Option.some.inj h)
      obtain ⟨r, rfl⟩ := callScript_failed hcall
      obtain ⟨entries, ht, -⟩ := finishRun_silent (w := w.note (.heard place m.id none event))
        f.origin r
      have hw' : w.journal.toList ++ told = w.journal.toList ++
          (.heard place m.id none event :: (entries ++ [.failed f.origin.module detail])) := by
        rw [← hj]
        show (Array.push _ _).toList = _
        rw [Array.toList_push, ht.journal]
        show (Array.push _ _).toList ++ _ ++ _ = _
        rw [Array.toList_push]
        simp
      rw [List.append_cancel_left hw']
      exact ⟨detail, by simp⟩
  · obtain ⟨r, -, h⟩ := Option.bind_eq_some_iff.1 h
    cases h

/-! ## Calls -/

theorem stride_evolves {run : Performer E}
    (hr : ∀ {a w w' r}, run a w = some (w', r) → Evolves w w') (h : Stride run w w') :
    Evolves w w' := by
  cases h with
  | nested a r h => exact hr h
  | script origin r =>
    exact finishRun_related Evolves.refl .trans (fun _ _ => .of_eq rfl rfl rfl rfl)
      (fun _ => grant_evolves origin) w r
  | did a r => exact .note w _
  | failed module detail => exact .note w _
  | _ => exact .of_eq rfl rfl rfl rfl

/-- Of all who were listed before, only the one who wants to leave is taken off. -/
theorem leave_evolves {run : Performer E} {place : Place} {event : GameEvent}
    {m : Member (Subscriber E)} (hm : m ∈ (u.roster place).listed event.key) (hu : Evolves u v)
    (h : v.callSubscriber run place event m = some (w, .leave)) (hv : Evolves v w) :
    Evolves u ((w.note (.left place m.id)).updateRoster (·.remove event.key m.id) place) := by
  intro hn
  obtain ⟨told, hu⟩ := hu hn
  obtain ⟨more, hv⟩ := hv hu.numbered
  obtain ⟨hscript, hcheck⟩ := callSubscriber_leave h hv.journal
  have he := hu.trans hv
  have hlisted (module : String) (key : EventKey) :
      ((w.note (.left place m.id)).updateRoster (·.remove event.key m.id) place).subscribers
          module key =
        if .surface module = place ∧ key = event.key
        then (w.subscribers module key).filter (·.id != m.id) else w.subscribers module key :=
    listed_updateRoster_remove (w.note (.left place m.id)) place (.surface module) event.key key
      m.id
  have hnext : ((w.note (.left place m.id)).updateRoster (·.remove event.key m.id) place).nextId =
      w.nextId := by
    cases place <;> rfl
  have hjournal : ((w.note (.left place m.id)).updateRoster (·.remove event.key m.id)
      place).journal.toList = w.journal.toList ++ [.left place m.id] := by
    cases place <;> exact Array.toList_push
  refine ⟨told ++ more ++ [.left place m.id], ?_, ?_, he.numbered.grow (Nat.le_of_eq hnext.symm)
    (.of_subset fun q key x hx => ?_), fun ho module key => ?_, fun module => ?_, ?_,
    fun module key x hx => ?_, fun module key x hx => ?_⟩
  · rw [hjournal, he.journal, List.append_assoc]
  · rw [hnext]
    exact he.nextId
  · rw [listed_updateRoster_remove] at hx
    split at hx
    · exact (List.mem_filter.1 hx).1
    · exact hx
  · rw [hlisted]
    split
    · exact (he.ordered ho module key).sublist List.filter_sublist
    · exact he.ordered ho module key
  · rw [surfaceId?_updateRoster]
    exact he.current module
  · rw [keys_updateRoster]
    exact he.keys
  · rcases he.stays module key x hx with hx' | hd
    · rw [hlisted]
      split
      · rename_i hk
        obtain ⟨rfl, rfl⟩ := hk
        by_cases hid : x.id = m.id
        · -- numbers are given out once, so `x` is the one who leaves
          obtain rfl := (hn.unique (.surface module) event.key event.key x hx m hm hid).2
          refine .inr ⟨by simp, fun f hf => ?_, hcheck⟩
          obtain ⟨detail, hd⟩ := hscript f hf
          exact ⟨detail, by simp [hd]⟩
        · exact .inl (List.mem_filter.2 ⟨hx', by simpa using hid⟩)
      · exact .inl hx'
    · exact .inr (hd.mono (List.subset_append_left ..))
  · refine he.fresh module key x ?_
    rw [hlisted] at hx
    split at hx
    · exact (List.mem_filter.1 hx).1
    · exact hx

theorem evolves_covers {run : Performer E}
    (hr : ∀ {a w w' r}, run a w = some (w', r) → Evolves w w') : Covers run Evolves where
  refl := .refl
  trans := .trans
  stride := stride_evolves hr
  hear w _ _ _ _ := .note w _
  leave := leave_evolves
  command w _ _ _ := .note w _

/-! ## Actions -/

theorem Evolves.of_emitter (hj : w'.journal = w.journal) (hn : w.nextId ≤ w'.nextId)
    (hl : ListsGrow w w') (hs : w'.surfaces = w.surfaces) : Evolves w w' := fun hw =>
  ⟨[], .of_surfaces hw (by rw [hj, List.append_nil]) hn hl hs⟩

theorem performPlain_evolves (a : Action) : Evolves w (w.performPlain a).1 := by
  have h := w.plain a
  generalize (w.performPlain a).1 = v at h
  cases h with
  | prevented => exact .of_rosters ⟨[_], Array.toList_push⟩ (Nat.le_refl _) rfl rfl
  | listen | command =>
    exact .of_rosters ⟨[], (List.append_nil _).symm⟩ (Nat.le_succ _) rfl rfl
  | subscribe _ key label react =>
    exact .of_emitter rfl (Nat.le_succ _) (.subscribe key label react) rfl
  | emitter _ emitter hsub =>
    refine .of_emitter rfl (Nat.le_refl _) (.of_subset fun q key m hm => ?_) rfl
    cases q with
    | emitter => exact hsub key m hm
    | _ => exact hm
  | _ => exact .of_eq rfl rfl rfl rfl

theorem evolves_pervades : Pervades (Evolves : World E → World E → Prop) where
  covers := evolves_covers
  remark w e _ := .note w e
  flag _ _ := .of_eq rfl rfl rfl rfl
  take _ _ := .of_eq rfl rfl rfl rfl
  plain _ a := performPlain_evolves a

end World

end LiveModules
