import LiveModules.Proofs.Runs

/-!
# Who leaves a roster hears nothing more

A subscriber that wants no further events, or whose script fails, is taken off its list and never
called again (`left_hears_nothing`), however deep the dispatches stand inside each other. What
carries this is `Tracked`: a number is on one list at most, and numbers are never given out twice.
-/

namespace LiveModules

attribute [local irreducible] lastOf

/-- Entries that tell of a member of a roster. -/
def Entry.OfMember : Entry → Prop
  | .heard .. | .left .. => True
  | _ => False

/-- If somebody left in `a`, then `b` does not tell that they heard an event. -/
def Entry.Respects (a b : Entry) : Prop :=
  ∀ place id label event, a = .left place id → b ≠ .heard place id label event

variable {E : Engine} {L : Licence} {w w' : World E}

/-- What the journal says of the members of rosters agrees with the rosters. -/
structure Tracked (w : World E) : Prop where
  heard_lt : ∀ place id label event, place ≠ .hub →
    .heard place id label event ∈ w.journal.toList → id < w.nextId
  heard_key : ∀ place id label event, .heard place id label event ∈ w.journal.toList →
    ∀ key, ∀ m ∈ (w.roster place).listed key, m.id = id → key = event.key
  left_lt : ∀ place id, .left place id ∈ w.journal.toList → place ≠ .hub ∧ id < w.nextId
  left_gone : ∀ place id, .left place id ∈ w.journal.toList →
    ∀ key, ∀ m ∈ (w.roster place).listed key, m.id ≠ id
  silent : w.journal.toList.Pairwise Entry.Respects

/-- A pass is a call of somebody, a leave, or tells of no member of a roster. -/
theorem Pass.member_cases (h : Pass L w w') :
    (∃ place id label event, (place = .hub ∨ (w.roster place).contains event.key id) ∧
      w' = w.note (.heard place id label event)) ∨
    (∃ place id label event, place ≠ .hub ∧ .heard place id label event ∈ w.journal.toList ∧
      w' = (w.note (.left place id)).updateRoster (·.remove event.key id) place) ∨
    (w'.journal = w.journal ∨ ∃ e : Entry, ¬ e.OfMember ∧ w'.journal = w.journal.push e) := by
  cases h with
  | turn h =>
    cases h with
    | move h =>
      cases h with
      | hear place id label event hc => exact .inl ⟨place, id, label, event, hc, rfl⟩
      | leave place id label event hp hh _ =>
        exact .inr (.inl ⟨place, id, label, event, hp, hh, rfl⟩)
      | remark e he =>
        refine .inr (.inr (.inr ⟨e, ?_, rfl⟩))
        cases e <;> first | exact id | exact absurd he id
      | unlisten label =>
        obtain ⟨hub, he, -⟩ := w.unlisten_cases label
        exact .inr (.inr (.inl (by rw [he])))
      | unsubscribe key label =>
        obtain ⟨emitter, he, -⟩ := w.unsubscribe_cases key label
        exact .inr (.inr (.inl (by rw [he])))
      | grant origin r =>
        cases r with
        | handler key callback => exact .inr (.inr (.inl (World.subscribeScript_journal ..)))
        | item | preventDefault | log => exact .inr (.inr (.inr ⟨_, id, rfl⟩))
        | _ => exact .inr (.inr (.inl rfl))
      | prevent | fail => exact .inr (.inr (.inr ⟨_, id, rfl⟩))
      | _ => exact .inr (.inr (.inl rfl))
    | beginLoad | load => exact .inr (.inr (.inr ⟨_, id, rfl⟩))
    | _ => exact .inr (.inr (.inl rfl))
  | unwritten => exact .inr (.inr (.inr ⟨_, id, rfl⟩))
  | _ => exact .inr (.inr (.inl rfl))

/-! ## What every pass keeps -/

namespace Tracked

theorem start (root : String) : Tracked (World.empty root : World E).attachRelay where
  heard_lt := by
    intro place id label event _ h
    cases h
  heard_key := by
    intro place id label event h
    cases h
  left_lt := by
    intro place id h
    cases h
  left_gone := by
    intro place id h
    cases h
  silent := .nil

/-- Somebody who is on a list is called. -/
theorem hear (h : Tracked w) (hn : w.Numbered) {place : Place} {id : Nat} {label : Option String}
    {event : GameEvent} (hc : place = .hub ∨ (w.roster place).contains event.key id) :
    Tracked (w.note (.heard place id label event)) := by
  have hmem {e : Entry} (he : e ∈ (w.note (.heard place id label event)).journal.toList) :
      e ∈ w.journal.toList ∨ e = .heard place id label event := by
    simpa [World.note] using he
  refine ⟨?_, ?_, ?_, ?_, ?_⟩
  · intro place' id' label' event' hp he
    rcases hmem he with he | he
    · exact h.heard_lt place' id' label' event' hp he
    · cases he
      obtain ⟨m, hm, hid⟩ := Roster.contains_iff.1 (hc.resolve_left hp)
      exact hid ▸ hn.lt place event.key m hm
  · intro place' id' label' event' he key m hm hid
    rcases hmem he with he | he
    · exact h.heard_key place' id' label' event' he key m hm hid
    · cases he
      rcases hc with rfl | hc
      · cases hm
      · obtain ⟨m', hm', hid'⟩ := Roster.contains_iff.1 hc
        exact (hn.unique place key event.key m hm m' hm' (hid.trans hid'.symm)).1
  · intro place' id' he
    exact h.left_lt place' id' ((hmem he).resolve_right Entry.noConfusion)
  · intro place' id' he
    exact h.left_gone place' id' ((hmem he).resolve_right Entry.noConfusion)
  · -- whoever left is on no list, so it is not they who are called
    simp only [World.note, Array.toList_push]
    refine List.pairwise_append.2 ⟨h.silent, List.pairwise_singleton _ _, fun a ha b hb => ?_⟩
    rintro place' id' label' event' rfl hb'
    rw [List.mem_singleton.1 hb] at hb'
    cases hb'
    obtain ⟨m, hm, hid⟩ := Roster.contains_iff.1 (hc.resolve_left (h.left_lt place id ha).1)
    exact h.left_gone place id ha event.key m hm hid

/-- Somebody who heard an event is taken off the list of its key. -/
theorem leave (h : Tracked w) {place : Place} {id : Nat} {label : Option String}
    {event : GameEvent} (hp : place ≠ .hub)
    (hh : .heard place id label event ∈ w.journal.toList) :
    Tracked ((w.note (.left place id)).updateRoster (·.remove event.key id) place) := by
  have hj : ((w.note (.left place id)).updateRoster (·.remove event.key id) place).journal =
      w.journal.push (.left place id) := by cases place <;> rfl
  have hn : ((w.note (.left place id)).updateRoster (·.remove event.key id) place).nextId =
      w.nextId := by cases place <;> rfl
  generalize hw : (w.note (.left place id)).updateRoster (·.remove event.key id) place = w' at *
  have hl {q : Place} {key : EventKey} {m : Member (Subscriber E)}
      (hm : m ∈ (w'.roster q).listed key) : m ∈ (w.roster q).listed key := by
    rw [← hw, World.listed_updateRoster_remove] at hm
    split at hm
    · exact (List.mem_filter.1 hm).1
    · exact hm
  have hmem {e : Entry} (he : e ∈ w'.journal.toList) :
      e ∈ w.journal.toList ∨ e = .left place id := by
    simpa [hj] using he
  refine ⟨?_, ?_, ?_, ?_, ?_⟩
  · intro q id' label' event' hq he
    exact hn ▸ h.heard_lt q id' label' event' hq ((hmem he).resolve_right Entry.noConfusion)
  · intro q id' label' event' he key m hm
    exact h.heard_key q id' label' event' ((hmem he).resolve_right Entry.noConfusion) key m (hl hm)
  · intro q id' he
    rcases hmem he with he | he
    · exact hn ▸ h.left_lt q id' he
    · cases he
      exact ⟨hp, hn ▸ h.heard_lt place id label event hp hh⟩
  · intro q id' he key m hm hid
    rcases hmem he with he | he
    · exact h.left_gone q id' he key m (hl hm) hid
    · cases he
      -- the one list that it can be on is the one that it was taken off
      have hk := h.heard_key place id label event hh key m (hl hm) hid
      rw [← hw, World.listed_updateRoster_remove, if_pos ⟨rfl, hk⟩] at hm
      simpa [hid] using (List.mem_filter.1 hm).2
  · rw [hj, Array.toList_push]
    refine List.pairwise_append.2 ⟨h.silent, List.pairwise_singleton _ _, fun a _ b hb => ?_⟩
    rintro place' id' label' event' rfl hb'
    rw [List.mem_singleton.1 hb] at hb'
    cases hb'

/-- Nobody is called and nobody leaves. -/
theorem quiet (h : Tracked w) (hn : w.nextId ≤ w'.nextId) (hl : World.ListsGrow w w')
    (hj : w'.journal = w.journal ∨
      ∃ e : Entry, ¬ e.OfMember ∧ w'.journal = w.journal.push e) : Tracked w' := by
  obtain ⟨place₀, key₀, m₀, hid₀, hl⟩ := hl
  have hmem {e : Entry} (ho : e.OfMember) (he : e ∈ w'.journal.toList) :
      e ∈ w.journal.toList := by
    rcases hj with hj | ⟨e', he', hj⟩
    · exact hj ▸ he
    · rw [hj, Array.toList_push] at he
      rcases List.mem_append.1 he with he | he
      · exact he
      · exact absurd (List.mem_singleton.1 he ▸ ho) he'
  refine ⟨?_, ?_, ?_, ?_, ?_⟩
  · intro q id label event hq he
    exact Nat.lt_of_lt_of_le (h.heard_lt q id label event hq (hmem trivial he)) hn
  · intro q id label event he key m hm hid
    rcases hl q key m hm with hm | ⟨-, -, rfl, -⟩
    · exact h.heard_key q id label event (hmem trivial he) key m hm hid
    · by_cases hq : q = .hub
      · subst hq
        cases hm
      · have := h.heard_lt q id label event hq (hmem trivial he)
        omega
  · intro q id he
    have := h.left_lt q id (hmem trivial he)
    exact ⟨this.1, Nat.lt_of_lt_of_le this.2 hn⟩
  · intro q id he key m hm hid
    rcases hl q key m hm with hm | ⟨-, -, rfl, -⟩
    · exact h.left_gone q id (hmem trivial he) key m hm hid
    · have := (h.left_lt q id (hmem trivial he)).2
      omega
  · rcases hj with hj | ⟨e, he, hj⟩
    · rw [hj]
      exact h.silent
    · rw [hj, Array.toList_push]
      refine List.pairwise_append.2 ⟨h.silent, List.pairwise_singleton _ _, fun a _ b hb => ?_⟩
      rintro place id label event - rfl
      exact he (List.mem_singleton.1 hb ▸ trivial)

end Tracked

theorem Pass.tracked (ht : Pass L w w') (hn : w.Numbered) (h : Tracked w) : Tracked w' := by
  rcases ht.member_cases with ⟨place, id, label, event, hc, rfl⟩ |
    ⟨place, id, label, event, hp, hh, rfl⟩ | hj
  · exact h.hear hn hc
  · exact h.leave hp hh
  · exact h.quiet ht.nextId_le ht.listsGrow hj

theorem Site.Run.tracked {C : FileTree → FileTree → Prop} {s₀ s : Site E}
    (h : Site.Run L C s₀ s) : Tracked s.world :=
  h.world_induction Tracked.start fun _ _ hw hv ht => ht.tracked hw.numbered hv

/-! ## Leaving -/

/-- In `w'` number `id` was taken off the list of `key` at `place`, as the journal tells; all others
are where they were in `w`, in the same order. -/
structure TakenOff (w w' : World E) (place : Place) (key : EventKey) (id : Nat) : Prop where
  told : w'.journal = w.journal.push (.left place id)
  lists : ∀ q key', (w'.roster q).listed key' =
    if q = place ∧ key' = key then ((w.roster q).listed key').filter (·.id != id)
    else (w.roster q).listed key'

namespace World

variable {run : Performer E} {place : Place} {event : GameEvent} {m : Member (Subscriber E)}

theorem takenOff_leave (w : World E) (place : Place) (key : EventKey) (id : Nat) :
    TakenOff w ((w.note (.left place id)).updateRoster (·.remove key id) place) place key id where
  told := by cases place <;> rfl
  lists q key' := listed_updateRoster_remove (w.note (.left place id)) place q key key' id

/-- Who is called and wants to leave is taken off; no other outcome changes a list. -/
theorem deliver_cases {n n' : Nat} (hc : (w.roster place).contains event.key m.id)
    (h : deliver run place event (w, n) m = some (w', n')) :
    ∃ v o, w.callSubscriber run place event m = some (v, o) ∧
      ((o = .leave ∧ TakenOff v w' place event.key m.id) ∨ (o ≠ .leave ∧ w' = v)) := by
  obtain ⟨-, v, o, hv, rfl⟩ | ⟨hc', -⟩ := deliver_inv h
  · refine ⟨v, o, hv, ?_⟩
    cases o with
    | leave => exact .inl ⟨rfl, takenOff_leave v place event.key m.id⟩
    | _ => exact .inr ⟨nofun, rfl⟩
  · exact absurd hc hc'

/-- A script that subscribed wants to leave if and only if its run fails. -/
theorem callSubscriber_script {f : ScriptFunction E} {v : World E} {o : Outcome}
    (hm : m.content = .script f) (h : w.callSubscriber run place event m = some (v, o)) :
    o = .leave ↔
      ((w.note (.heard place m.id none event)).callScript f event.args).2.isSome := by
  unfold callSubscriber at h
  rw [hm] at h
  simp only at h
  split at h
  · rename_i hcall
    simp only [Option.some.injEq, Prod.mk.injEq] at h
    rw [hcall, ← h.2]
    simp
  · rename_i hcall
    simp only [Option.some.injEq, Prod.mk.injEq] at h
    rw [hcall, ← h.2]
    simp

end World

/-- Who leaves a roster is never called from it again, and nobody else is moved: in the journal of
a run no call of a number follows its leave. A call that ends in the wish to leave, which is how the
failing call of a script ends, takes the one number off the one list. -/
theorem left_hears_nothing {C : FileTree → FileTree → Prop} {s₀ s : Site E}
    (h : Site.Run L C s₀ s) :
    (∀ place id pre post, s.world.journal.toList = pre ++ .left place id :: post →
      (∀ label event, .heard place id label event ∉ post) ∧
        ∀ key, (s.world.roster place).contains key id = false) ∧
    ∀ (run : World.Performer E) (place : Place) (event : GameEvent) (m : Member (Subscriber E))
      (w w' : World E) (n n' : Nat), (w.roster place).contains event.key m.id →
      World.deliver run place event (w, n) m = some (w', n') →
      ∃ v o, w.callSubscriber run place event m = some (v, o) ∧
        ((o = .leave ∧ TakenOff v w' place event.key m.id) ∨ (o ≠ .leave ∧ w' = v)) ∧
        ∀ f, m.content = .script f → (o = .leave ↔
          ((w.note (.heard place m.id none event)).callScript f event.args).2.isSome) := by
  constructor
  · intro place id pre post hj
    have ht := h.tracked
    refine ⟨fun label event he => ?_, fun key => ?_⟩
    · have hs := ht.silent
      rw [hj] at hs
      have hpost := (List.pairwise_cons.1 (List.pairwise_append.1 hs).2.1).1
      exact hpost _ he place id label event rfl rfl
    · rw [Bool.eq_false_iff]
      intro hc
      obtain ⟨m, hm, hid⟩ := Roster.contains_iff.1 hc
      exact ht.left_gone place id (by simp [hj]) key m hm hid
  · intro run place event m w w' n n' hc hd
    obtain ⟨v, o, hv, ho⟩ := World.deliver_cases hc hd
    exact ⟨v, o, hv, ho, fun f hm => World.callSubscriber_script hm hv⟩

/-- A subscriber that dispatches the event once more when it is first called, and then keeps; it
leaves when it is called again. -/
def quitter (n : Nat) (event : GameEvent) : Plan :=
  if n = 0 then .act (.dispatch event) fun _ => .finish .keep else .finish .leave

/-- The inner call leaves while the outer one is on its way. -/
theorem quitter_hears_nothing :
    ∃ (s : Site (.ofRuns (fun _ => ([], none)) fun _ => ([], none))) (pre post : List Entry),
      (Site.start "world" .empty none).actAll 3
        [.subscribe .tick "q" quitter, .dispatch Site.tickEvent, .dispatch Site.tickEvent] =
          some s ∧
      s.world.journal.toList = pre ++ .left .emitter 1 :: post ∧
      (∀ label event, .heard .emitter 1 label event ∉ post) ∧
      ∀ key, (s.world.roster .emitter).contains key 1 = false := by
  have hs : ((Site.start "world" .empty none : Site (.ofRuns (fun _ => ([], none))
      fun _ => ([], none))).actAll 3
        [.subscribe .tick "q" quitter, .dispatch Site.tickEvent,
          .dispatch Site.tickEvent]).isSome := rfl
  obtain ⟨s, hs⟩ := Option.isSome_iff_exists.1 hs
  have hrun : Site.Run .all (fun _ _ => True) (Site.start "world" .empty none) s :=
    (Site.Run.refl "world" .empty none).actAll (fun _ _ => trivial) hs
  have hj : s.world.journal.toList =
      s.world.journal.toList.take 6 ++ .left .emitter 1 :: s.world.journal.toList.drop 7 := by
    cases hs
    rfl
  exact ⟨s, _, _, hs, hj, (left_hears_nothing hrun).1 _ _ _ _ hj⟩

end LiveModules
