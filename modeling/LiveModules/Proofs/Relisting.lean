import LiveModules.Proofs.Strides

/-!
# What becomes of lists

While callbacks run, those who are listed keep their order, and nobody goes without a reason that is
told: they wanted to leave, were unsubscribed, or the emitter was cleared. Whoever comes has a new
number and stands at the end (`World.Relisted`).
-/

namespace LiveModules

attribute [local irreducible] lastOf

variable {E : Engine}

/-- It is told that number `id` left, that somebody was unsubscribed from the key, or that all
were. -/
def Unlisted (entries : List Entry) (place : Place) (key : EventKey) (id : Nat) : Prop :=
  .left place id ∈ entries ∨ place = .emitter ∧
    ((∃ label, .ended (.unsubscribe key label) (.flag true) ∈ entries) ∨ .began .clear ∈ entries)

theorem Unlisted.mono {entries more : List Entry} {place : Place} {key : EventKey} {id : Nat}
    (h : Unlisted entries place key id) (hs : entries ⊆ more) : Unlisted more place key id := by
  rcases h with h | ⟨hp, ⟨label, h⟩ | h⟩
  · exact .inl (hs h)
  · exact .inr ⟨hp, .inl ⟨label, hs h⟩⟩
  · exact .inr ⟨hp, .inr (hs h)⟩

namespace World

variable {u v w w' : World E} {entries rest : List Entry}

/-- What becomes of the lists of `w` while `entries` are told. -/
structure Relisted (w w' : World E) (entries : List Entry) : Prop where
  nextId : w.nextId ≤ w'.nextId
  lists : ∀ place key, ∃ kept added, (w'.roster place).listed key = kept ++ added ∧
    kept.Sublist ((w.roster place).listed key) ∧ ∀ m ∈ added, w.nextId ≤ m.id
  stays : ∀ place key, ∀ m ∈ (w.roster place).listed key,
    m ∈ (w'.roster place).listed key ∨ Unlisted entries place key m.id

/-- Lists change as the journal tells. -/
def Relists (w w' : World E) : Prop := ∃ entries, w.Tells w' entries ∧ Relisted w w' entries

namespace Relisted

theorem trans (h : Relisted u v entries) (h' : Relisted v w rest) :
    Relisted u w (entries ++ rest) where
  nextId := Nat.le_trans h.nextId h'.nextId
  lists place key := by
    obtain ⟨kept, added, he, hk, ha⟩ := h.lists place key
    obtain ⟨kept', added', he', hk', ha'⟩ := h'.lists place key
    rw [he] at hk'
    obtain ⟨old, new, rfl, hold, hnew⟩ := List.sublist_append_iff.1 hk'
    refine ⟨old, new ++ added', by rw [he', List.append_assoc], hold.trans hk, fun m hm => ?_⟩
    rcases List.mem_append.1 hm with hm | hm
    · exact ha m (hnew.subset hm)
    · exact Nat.le_trans h.nextId (ha' m hm)
  stays place key m hm := by
    rcases h.stays place key m hm with hm | hu
    · exact (h'.stays place key m hm).imp_right fun hu => hu.mono (List.subset_append_right ..)
    · exact .inr (hu.mono (List.subset_append_left ..))

theorem of_rosters (hr : w'.roster = w.roster) (hn : w.nextId ≤ w'.nextId) :
    Relisted w w' entries := by
  refine ⟨hn, fun place key => ?_, fun place key m hm => .inl (by rwa [hr])⟩
  exact ⟨_, [], by rw [hr, List.append_nil], List.Sublist.refl _, nofun⟩

/-- Some go, for reasons that are told. -/
theorem of_filter (hn : w.nextId ≤ w'.nextId)
    (h : ∀ place key, ∃ p : Member (Subscriber E) → Bool,
      (w'.roster place).listed key = ((w.roster place).listed key).filter p ∧
        ∀ m ∈ (w.roster place).listed key, p m = false → Unlisted entries place key m.id) :
    Relisted w w' entries where
  nextId := hn
  lists place key := by
    obtain ⟨p, he, -⟩ := h place key
    exact ⟨_, [], by rw [he, List.append_nil], List.filter_sublist, nofun⟩
  stays place key m hm := by
    obtain ⟨p, he, hp⟩ := h place key
    rcases hpm : p m with _ | _
    · exact .inr (hp m hm hpm)
    · exact .inl (he ▸ List.mem_filter.2 ⟨hm, hpm⟩)

/-- Somebody new comes to the end of one list. -/
theorem of_add {p : Place} {k : EventKey} {x : Member (Subscriber E)} (hn : w.nextId ≤ w'.nextId)
    (hid : w.nextId ≤ x.id) (h : ∀ place key, (w'.roster place).listed key =
      if place = p ∧ key = k then (w.roster place).listed key ++ [x]
      else (w.roster place).listed key) : Relisted w w' entries where
  nextId := hn
  lists place key := by
    rw [h]
    split
    · exact ⟨_, _, rfl, List.Sublist.refl _, fun m hm => List.mem_singleton.1 hm ▸ hid⟩
    · exact ⟨_, [], (List.append_nil _).symm, List.Sublist.refl _, nofun⟩
  stays place key m hm := by
    rw [h]
    split
    · exact .inl (List.mem_append_left _ hm)
    · exact .inl hm

theorem subscribe (key : EventKey) (label : String) (react : Nat → GameEvent → Plan) :
    Relisted w (w.subscribe key label react) entries := by
  refine of_add (p := .emitter) (k := key) (x := ⟨w.nextId, .plan label react⟩) (Nat.le_succ _)
    (Nat.le_refl _) fun place key' => ?_
  rcases place with _ | _ | module
  · rfl
  · simp only [World.subscribe, roster, Roster.listed_add, true_and]
    split
    · rename_i hk
      rw [hk]
    · rfl
  · simp only [reduceCtorEq, false_and, ↓reduceIte]
    rfl

theorem subscribeScript (f : ScriptFunction E) (key : EventKey) :
    Relisted w (w.subscribeScript f key) entries := by
  have hn := subscribeScript_nextId_le (w := w) f key
  rcases w.subscribeScript_cases f key with ⟨_, h⟩ | ⟨s, hs, -, h⟩
  · rw [h]
    exact .of_rosters rfl (Nat.le_succ _)
  · refine .of_add (p := .surface f.origin.module) (k := key) (x := ⟨w.nextId, .script f⟩) hn
      (Nat.le_refl _) fun place key' => ?_
    rw [h]
    exact listed_updateRoster_add (w := { w with nextId := w.nextId + 1 }) hs place key key' _ _

theorem leave (w : World E) (place : Place) (key : EventKey) (id : Nat) :
    Relisted w ((w.note (.left place id)).updateRoster (·.remove key id) place)
      [.left place id] := by
  refine .of_filter (by cases place <;> exact Nat.le_refl _) fun q key' => ?_
  rw [listed_updateRoster_remove]
  split
  · rename_i hq
    refine ⟨_, rfl, fun m _ hm => .inl ?_⟩
    have hid : m.id = id := by simpa using hm
    rw [hq.1, hid]
    exact List.mem_singleton_self _
  · exact ⟨fun _ => true, (List.filter_true _).symm, nofun⟩

end Relisted

namespace Relists

theorem trans (h : Relists u v) (h' : Relists v w) : Relists u w := by
  obtain ⟨entries, ht, hl⟩ := h
  obtain ⟨rest, ht', hl'⟩ := h'
  exact ⟨entries ++ rest, ht.trans ht', hl.trans hl'⟩

theorem of_eq (hj : w'.journal = w.journal) (hr : w'.roster = w.roster)
    (hn : w.nextId ≤ w'.nextId) : Relists w w' :=
  ⟨[], .of_eq hj, .of_rosters hr hn⟩

theorem step {e : Entry} (he : e.IsPlain) (hj : w'.journal = w.journal.push e)
    (hr : w'.roster = w.roster) (hn : w.nextId ≤ w'.nextId) : Relists w w' :=
  ⟨[e], ⟨by rw [hj, Array.toList_push], .cons he .nil⟩, .of_rosters hr hn⟩

theorem leave (w : World E) (place : Place) (key : EventKey) (id : Nat) :
    Relists w ((w.note (.left place id)).updateRoster (·.remove key id) place) := by
  have he : Entry.IsPlain (.left place id) := trivial
  refine ⟨_, ⟨?_, .cons he .nil⟩, .leave w place key id⟩
  cases place <;> exact Array.toList_push

/-- What an action tells, it tells inside its brackets. -/
theorem block {a : Action} (r : Answer) (h : Relists (w.note (.began a)) w') :
    Relists w (w'.note (.ended a r)) := by
  obtain ⟨entries, ht, hl⟩ := h
  have hsub : entries ⊆ .began a :: (entries ++ [.ended a r]) := fun e he =>
    List.mem_cons_of_mem _ (List.mem_append_left _ he)
  exact ⟨_, ht.block, hl.nextId, hl.lists, fun place key m hm =>
    (hl.stays place key m hm).imp_right fun hu => hu.mono hsub⟩

/-- An action calls nobody, and what it does to the lists is told by its brackets. -/
theorem of_plain {a : Action} {r : Answer} (hj : w'.journal = (w.note (.began a)).journal)
    (hl : Relisted w w' [.began a, .ended a r]) : Relists w (w'.note (.ended a r)) :=
  ⟨_, (Tells.of_eq hj).block, hl.nextId, hl.lists, hl.stays⟩

end Relists

/-! ## Calls and actions -/

theorem grant_relists (origin : Origin) (r : Request E.Callback) :
    Relists w (w.grant origin r) := by
  cases r with
  | handler key callback =>
    exact ⟨[], .of_eq (subscribeScript_journal ..), .subscribeScript ⟨origin, callback⟩ key⟩
  | item room template secs =>
    exact .step (e := .registered ..) trivial rfl rfl (Nat.le_refl _)
  | preventDefault => exact .step (e := .prevented) trivial rfl rfl (Nat.le_refl _)
  | log line => exact .step (e := .logged ..) trivial rfl rfl (Nat.le_refl _)
  | _ => exact .of_eq rfl rfl (Nat.le_refl _)

theorem relists_covers {run : Performer E}
    (hr : ∀ {a w w' r}, run a w = some (w', r) → Relists w w') : Covers run Relists where
  refl _ := .of_eq rfl rfl (Nat.le_refl _)
  trans := .trans
  stride {w w'} h := by
    cases h with
    | nested a r h => exact hr h
    | script origin r =>
      exact finishRun_related (fun _ => .of_eq rfl rfl (Nat.le_refl _)) .trans
        (fun _ _ => .of_eq rfl rfl (Nat.le_refl _)) (fun _ => grant_relists origin) w r
    | did a r => exact .step (e := .did a r) trivial rfl rfl (Nat.le_refl _)
    | failed module detail =>
      exact .step (e := .failed module detail) trivial rfl rfl (Nat.le_refl _)
    | _ => exact .of_eq rfl rfl (Nat.le_refl _)
  hear _ _ _ _ _ := .step (e := .heard ..) trivial rfl rfl (Nat.le_refl _)
  leave _ hu _ hv := (hu.trans hv).trans (.leave ..)
  command _ _ _ _ := .step (e := .commanded ..) trivial rfl rfl (Nat.le_refl _)

theorem relisted_unsubscribe (key : EventKey) (label : String) :
    Relisted w ((w.unsubscribe key label).1)
      [.began (.unsubscribe key label),
        .ended (.unsubscribe key label) (.flag (w.unsubscribe key label).2)] := by
  rcases hid : w.subscriberIds.find? label with _ | id
  · rw [unsubscribe, hid]
    exact .of_rosters rfl (Nat.le_refl _)
  · rw [unsubscribe_of_find? hid]
    refine .of_filter (Nat.le_refl _) fun place key' => ?_
    rcases place with _ | _ | module
    · exact ⟨fun _ => true, (List.filter_true _).symm, fun _ _ h => by cases h⟩
    · by_cases hk : key' = key
      · subst hk
        refine ⟨(·.id != id), ?_, fun m hm hid => .inr ⟨rfl, .inl ⟨label, ?_⟩⟩⟩
        · exact (Roster.listed_remove ..).trans (if_pos rfl)
        · have hc : w.emitter.contains key' id = true :=
            Roster.contains_iff.2 ⟨m, hm, by simpa using hid⟩
          simp [hc]
      · refine ⟨fun _ => true, ?_, fun _ _ h => by cases h⟩
        rw [List.filter_true]
        exact (Roster.listed_remove ..).trans (if_neg hk)
    · exact ⟨fun _ => true, (List.filter_true _).symm, fun _ _ h => by cases h⟩

theorem relisted_clear : Relisted w { w with emitter := .empty }
    [.began .clear, .ended .clear .nothing] := by
  refine .of_filter (Nat.le_refl _) fun place key => ?_
  rcases place with _ | _ | module
  · exact ⟨fun _ => true, (List.filter_true _).symm, fun _ _ h => by cases h⟩
  · exact ⟨fun _ => false, (List.filter_false _).symm,
      fun _ _ _ => .inr ⟨rfl, .inr List.mem_cons_self⟩⟩
  · exact ⟨fun _ => true, (List.filter_true _).symm, fun _ _ h => by cases h⟩

theorem performPlain_relists (w : World E) (a : Action) :
    Relists w (((w.note (.began a)).performPlain a).1.note
      (.ended a ((w.note (.began a)).performPlain a).2)) := by
  cases a with
  | unsubscribe key label =>
    have h := relisted_unsubscribe (w := w.note (.began (.unsubscribe key label))) key label
    refine .of_plain ?_ ⟨h.nextId, h.lists, h.stays⟩
    obtain ⟨emitter, he, -⟩ :=
      (w.note (.began (.unsubscribe key label))).unsubscribe_cases key label
    simp only [performPlain, he]
  | clear =>
    have h := relisted_clear (w := w.note (.began .clear))
    exact .of_plain rfl ⟨h.nextId, h.lists, h.stays⟩
  | subscribe key label react =>
    exact .block _ ⟨[], .of_eq rfl, .subscribe key label react⟩
  | preventDefault =>
    exact .block _ (.step (e := .prevented) trivial rfl rfl (Nat.le_refl _))
  | notify notices =>
    obtain ⟨game, he, -⟩ := notices_eq notices (w.note (.began (.notify notices)))
    refine .block _ ?_
    simp only [performPlain, he]
    exact .of_eq rfl rfl (Nat.le_refl _)
  | off label =>
    obtain ⟨hub, he, -⟩ := (w.note (.began (.off label))).unlisten_cases label
    refine .block _ ?_
    simp only [performPlain, he]
    exact .of_eq rfl rfl (Nat.le_refl _)
  | on | onAny | createCommand => exact .block _ (.of_eq rfl rfl (Nat.le_succ _))
  | createRoom id spec =>
    refine .block _ ?_
    simp only [performPlain, createRoom]
    split <;> exact .of_eq rfl rfl (Nat.le_refl _)
  | putItem room item | takeItem room item | getItem room item =>
    refine .block _ ?_
    simp only [performPlain, itemAction]
    split <;> exact .of_eq rfl rfl (Nat.le_refl _)
  | _ => exact .block _ (.of_eq rfl rfl (Nat.le_refl _))

end World

open World

/-- What an action does to the lists is told, to any depth. -/
theorem perform_relists : ∀ (fuel : Nat) {a : Action} {w w' : World E} {r : Answer},
    perform fuel a w = some (w', r) → Relists w w'
  | 0, _, _, _, _, h => by cases h
  | fuel + 1, a, w, w', r, h => by
    obtain ⟨n, v, hn, hs, rfl⟩ := perform_cases h
    obtain rfl := Nat.succ.inj hn
    have hc : Covers (perform fuel) (Relists (E := E)) :=
      relists_covers fun h => perform_relists fuel h
    cases hs with
    | emit hv => exact .block _ (hc.emit (fun _ _ => .of_eq rfl rfl (Nat.le_refl _)) hv)
    | emitPlain hv => exact .block _ (hc.emitPlain hv)
    | dispatch hv => exact .block _ (hc.dispatch hv)
    | runDue hv =>
      refine .block _ (foldlM_keeps (P := Relists (w.note (.began _))) ?_ ?_
        (runDue_eq_some.1 hv).1)
      case refine_2 => exact .of_eq rfl rfl (Nat.le_refl _)
      intro u t v _ hu hf
      have hn : Relists u (u.note (.fired t.seq t.task.label?)) :=
        .step (e := .fired ..) trivial rfl rfl (Nat.le_refl _)
      exact (hu.trans hn).trans (hc.strides (fire_strides hf))
    | runCommand r hv => exact .block _ (hc.runCommand hv)
    | plain a _ _ => exact performPlain_relists w a

end LiveModules
