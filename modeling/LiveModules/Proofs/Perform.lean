import LiveModules.Proofs.Forms
import LiveModules.Proofs.Moves

/-!
# What actions bring about

An action that is licensed, performed in a licensed world, makes moves only (`perform_moves`). The
induction is on the nesting: everything above one level is stated over a performer that is lawful,
and one more level is lawful again.
-/

namespace LiveModules

attribute [local irreducible] lastOf

/-- What each call keeps, a chain of calls keeps. -/
theorem foldlM_keeps {σ β : Type} {P : σ → Prop} {f : σ → β → Option σ} :
    ∀ {l : List β} {s s' : σ}, (∀ s b s', b ∈ l → P s → f s b = some s' → P s') → P s →
      l.foldlM f s = some s' → P s'
  | [], s, s', _, hs, h => by
    rw [List.foldlM_nil] at h
    exact Option.some.inj h ▸ hs
  | b :: l, s, s', hf, hs, h => by
    rw [List.foldlM_cons] at h
    obtain ⟨s₁, h₁, h⟩ := Option.bind_eq_some_iff.1 h
    exact foldlM_keeps (fun s b s' hb => hf s b s' (List.mem_cons_of_mem _ hb))
      (hf s b s₁ List.mem_cons_self hs h₁) h

namespace World

variable {E : Engine} {L : Licence} {w w' : World E}

/-- Licensed actions make moves. -/
def Performer.Lawful (L : Licence) (run : Performer E) : Prop :=
  ∀ {a w w' r}, L.action a → w.Licensed L → run a w = some (w', r) → Moves L w w'

section Scripts

theorem grantAll_moves {origin : Origin} :
    ∀ (requests : List (Request E.Callback)) {w : World E}, origin.Licensed L w.journal.toList →
      Moves L w (w.grantAll origin requests)
  | [], _, _ => .refl
  | r :: requests, w, ho => by
    have hm : Move L w (w.grant origin r) := .grant w origin r ho
    exact .head hm (grantAll_moves requests (ho.mono hm.journal_grows.subset))

theorem finishRun_moves {origin : Origin} (ho : origin.Licensed L w.journal.toList)
    (r : Run E.State E.Callback) : Moves L w (w.finishRun origin r) :=
  .head (.keepState w origin.surface r.state) (grantAll_moves r.requests ho)

theorem callScript_moves {f : ScriptFunction E} {args : List Json}
    (h : w.callScript f args = (w', none)) (hf : f.origin.Licensed L w.journal.toList) :
    Moves L w w' := by
  unfold callScript at h
  split at h
  · exact (Prod.mk.inj h).1 ▸ .refl
  · obtain ⟨hw, hr⟩ := Prod.mk.inj h
    rw [hr] at hw
    exact hw ▸ finishRun_moves hf _

/-- A notice is a move of the game. -/
theorem notify_move (n : Notice) : Move L w (w.notify n) := .game w _ rfl

/-- A call that fails, together with what is written and said of it. -/
theorem callScript_failed_moves {f : ScriptFunction E} {args : List Json} {detail : String}
    (h : w.callScript f args = (w', some detail)) (hf : f.origin.Licensed L w.journal.toList)
    (n : Notice) : Moves L w ((w'.writeError f.origin.module detail).notify n) := by
  unfold callScript at h
  split at h
  · cases (Prod.mk.inj h).2
  · obtain ⟨hw, hr⟩ := Prod.mk.inj h
    rw [hr] at hw
    subst hw
    exact .tail (.tail (finishRun_moves hf _) (.fail _ f.origin.module detail hf.1))
      (notify_move n)

end Scripts

section Delivery

variable {run : Performer E}

/-- Whoever is on the list is called and then leaves if they want to; nobody else is. -/
theorem deliver_inv {place : Place} {event : GameEvent} {m : Member (Subscriber E)} {n n' : Nat}
    (h : deliver run place event (w, n) m = some (w', n')) :
    ((w.roster place).contains event.key m.id ∧ ∃ v o,
      w.callSubscriber run place event m = some (v, o) ∧ w' = v.dismiss place event.key m.id o) ∨
      ¬ (w.roster place).contains event.key m.id ∧ w' = w := by
  by_cases hc : (w.roster place).contains event.key m.id = true
  · rw [deliver_eq hc] at h
    obtain ⟨⟨v, o⟩, hv, he⟩ := Option.map_eq_some_iff.1 h
    exact .inl ⟨hc, v, o, hv, (Prod.mk.inj he).1.symm⟩
  · rw [deliver_skip hc] at h
    exact .inr ⟨hc, (Prod.mk.inj (Option.some.inj h)).1.symm⟩

end Delivery

section Calls

variable {run : Performer E} (hr : Performer.Lawful L run)

include hr

theorem follow_moves {p : Plan} (hp : p.Within L.action) :
    ∀ {w w' : World E} {o : Outcome}, w.Licensed L → follow run p w = some (w', o) →
      Moves L w w' := by
  induction hp with
  | finish outcome =>
    intro w w' o _ h
    simp only [follow, Option.some.injEq, Prod.mk.injEq] at h
    exact h.1 ▸ .refl
  | @act a next ha _ ih =>
    intro w w' o hw h
    simp only [follow] at h
    obtain ⟨⟨w₁, answer⟩, h₁, h⟩ := Option.bind_eq_some_iff.1 h
    have hm := hr ha hw h₁
    simp only at h
    split at h
    · exact hm.trans (ih answer (hm.licensed hw) h)
    · have hd : Move L w₁ (w₁.note (.did a answer)) := .remark w₁ _ trivial
      exact (hm.tail hd).trans (ih answer (hd.licensed (hm.licensed hw)) h)

omit hr in
/-- To place items changes rooms only. -/
theorem placeRules_game : ∀ (rules : List (SpawnRule Float Owner)) (w : World E)
    (placed : List (SpawnKey × Item)), ∃ g : Game (CommandAction E),
      g.commands = w.game.commands ∧ (rules.foldl placeRule (w, placed)).1 = { w with game := g }
  | [], w, _ => ⟨w.game, rfl, rfl⟩
  | rule :: rules, w, placed => by
    rw [List.foldl_cons]
    simp only [placeRule]
    split
    · exact placeRules_game rules w placed
    · split
      · exact placeRules_game rules w placed
      · obtain ⟨g, hg, h⟩ := placeRules_game rules
          { w with game := w.game.updateRoom rule.key.room (·.addItem rule.template) }
          (placed ++ [(rule.key, rule.template)])
        exact ⟨g, hg, h⟩

theorem spawnCheck_moves {owner : Owner} {keys : List SpawnKey} (hw : w.Licensed L)
    (h : w.spawnCheck run owner = some (w', keys)) : Moves L w w' := by
  unfold spawnCheck at h
  obtain ⟨w₂, h₂, h⟩ := Option.bind_eq_some_iff.1 h
  simp only [Option.pure_def, Option.some.injEq, Prod.mk.injEq] at h
  obtain ⟨rfl, -⟩ := h
  have hs : Move L w { w with spawns := w.spawns.stamp owner w.clock.now } := .stamp w ..
  obtain ⟨g, hg, hp⟩ := placeRules_game (w.spawns.due owner w.clock.now)
    { w with spawns := w.spawns.stamp owner w.clock.now } []
  have hm : Moves L w (placeDue (w.spawns.due owner w.clock.now)
      { w with spawns := w.spawns.stamp owner w.clock.now }).1 := by
    unfold placeDue
    rw [hp]
    exact .tail (.single hs) (.game _ g hg)
  refine foldlM_keeps (P := Moves L w) ?_ hm h₂
  intro v p v' _ hv hr'
  obtain ⟨⟨v₁, answer⟩, h₁, hr'⟩ := Option.bind_eq_some_iff.1 hr'
  simp only [Option.pure_def, Option.some.injEq] at hr'
  exact hr' ▸ hv.trans (hr (L.emit _) (hv.licensed hw) h₁)

theorem callSubscriber_moves {place : Place} {event : GameEvent} {m : Member (Subscriber E)}
    {o : Outcome} (hw : w.Licensed L) (hm : m.content.Licensed L w.journal.toList)
    (hc : (w.roster place).contains event.key m.id)
    (h : w.callSubscriber run place event m = some (w', o)) :
    Moves L w w' ∧ ∃ label, .heard place m.id label event ∈ w'.journal.toList := by
  have heard {v : World E} (label : Option String)
      (hv : Moves L (v.note (.heard place m.id label event)) w') :
      ∃ label, .heard place m.id label event ∈ w'.journal.toList :=
    ⟨label, hv.journal_grows.subset (by simp [note])⟩
  unfold callSubscriber at h
  split at h
  · rename_i label react hct
    rw [hct] at hm
    have h₁ : Moves L w ((w.countCall m.id).note (.heard place m.id (some label) event)) :=
      .tail (.single (.countCall w m.id)) (.hear _ place m.id _ event (.inr hc))
    have h₂ := follow_moves hr (hm _ _) (h₁.licensed hw) h
    exact ⟨h₁.trans h₂, heard _ h₂⟩
  · rename_i f hct
    rw [hct] at hm
    have h₁ : Moves L w (w.note (.heard place m.id none event)) :=
      .single (.hear w place m.id none event (.inr hc))
    have hf := Origin.Licensed.mono h₁.journal_grows.subset hm
    suffices h₂ : Moves L (w.note (.heard place m.id none event)) w' from
      ⟨h₁.trans h₂, heard _ h₂⟩
    simp only at h
    split at h
    · rename_i w₂ hcall
      simp only [Option.some.injEq, Prod.mk.injEq] at h
      exact h.1 ▸ callScript_moves hcall hf
    · rename_i w₂ detail hcall
      simp only [Option.some.injEq, Prod.mk.injEq] at h
      exact h.1 ▸ callScript_failed_moves hcall hf _
  · rename_i surface hct
    have h₁ : Moves L w (w.note (.heard place m.id none event)) :=
      .single (.hear w place m.id none event (.inr hc))
    obtain ⟨⟨w₂, keys⟩, h₂, h⟩ := Option.bind_eq_some_iff.1 h
    simp only [Option.pure_def, Option.some.injEq, Prod.mk.injEq] at h
    have h₃ := h.1 ▸ spawnCheck_moves hr (h₁.licensed hw) h₂
    exact ⟨h₁.trans h₃, heard _ h₃⟩

omit hr in
/-- The spawn check of a surface stays. -/
theorem content_of_leave {place : Place} {event : GameEvent} {m : Member (Subscriber E)}
    (h : w.callSubscriber run place event m = some (w', .leave)) (surface : Nat) :
    m.content ≠ .spawnCheck surface := by
  intro hm
  unfold callSubscriber at h
  rw [hm] at h
  obtain ⟨⟨v, keys⟩, -, h⟩ := Option.bind_eq_some_iff.1 h
  simp at h

theorem deliver_moves {place : Place} {event : GameEvent} {m : Member (Subscriber E)} {n n' : Nat}
    (hw : w.Licensed L) (hm : m.content.Licensed L w.journal.toList)
    (hid : ∀ m' ∈ (w.roster place).listed event.key, m'.id = m.id → m' = m)
    (h : deliver run place event (w, n) m = some (w', n')) : Moves L w w' := by
  obtain ⟨hc, w₁, o, h₁, rfl⟩ | ⟨-, rfl⟩ := deliver_inv h
  · obtain ⟨hw₁, label, hl⟩ := callSubscriber_moves hr hw hm hc h₁
    have hp : place ≠ .hub := by
      rintro rfl
      simp [roster, Roster.contains] at hc
    cases o with
    | leave =>
      have hleave : ∀ m' ∈ (w₁.roster place).listed event.key, m'.id = m.id →
          ∀ surface, m'.content ≠ .spawnCheck surface := by
        intro m' hm' he
        obtain ⟨m'', hm'', he'⟩ := Roster.contains_iff.1 hc
        have hlt := hw.numbered.lt place event.key m'' hm''
        rcases hw₁.listed_or_new hm' with hold | hnew
        · rw [hid m' hold he]
          exact content_of_leave h₁
        · omega
      exact hw₁.tail (.leave w₁ place m.id label event hp hl hleave)
    | _ => exact hw₁
  · exact .refl

theorem dispatch_moves {place : Place} {event : GameEvent} {n : Nat} (hw : w.Licensed L)
    (h : w.dispatch run place event = some (w', n)) : Moves L w w' := by
  refine foldlM_keeps (P := fun v : World E × Nat => Moves L w v.1) ?_ .refl h
  rintro ⟨v, k⟩ m ⟨v', k'⟩ hm hv hd
  have hl := (hw.subscribers place event.key m hm).mono hv.journal_grows.subset
  refine hv.trans (deliver_moves hr (hv.licensed hw) hl (fun m' hm' hid => ?_) hd)
  -- numbers of those who came meanwhile are new
  rcases hv.listed_or_new hm' with hold | hnew
  · exact (hw.numbered.unique place event.key event.key m' hold m hm hid).2
  · have := hw.numbered.lt place event.key m hm
    omega

theorem relay_moves {event : GameEvent} (hw : w.Licensed L) (h : w.relay run event = some w') :
    Moves L w w' := by
  refine foldlM_keeps (P := Moves L w) ?_ .refl h
  intro v module v' _ hv hd
  obtain ⟨⟨v₁, n⟩, h₁, hd⟩ := Option.bind_eq_some_iff.1 hd
  simp only [Option.pure_def, Option.some.injEq] at hd
  exact hd ▸ hv.trans (dispatch_moves hr (hv.licensed hw) h₁)

theorem callListener_moves {event : GameEvent} {m : Member Listener} (hw : w.Licensed L)
    (hm : m.content.Licensed L) (h : callListener run event w m = some w') : Moves L w w' := by
  unfold callListener at h
  split at h
  · rename_i label react hct
    rw [hct] at hm
    have h₁ : Moves L w ((w.countCall m.id).note (.heard .hub m.id (some label) event)) :=
      .tail (.single (.countCall w m.id)) (.hear _ .hub m.id _ event (.inl rfl))
    obtain ⟨⟨w₂, o⟩, h₂, h⟩ := Option.bind_eq_some_iff.1 h
    simp only [Option.pure_def, Option.some.injEq] at h
    exact h ▸ h₁.trans (follow_moves hr (hm _ _) (h₁.licensed hw) h₂)
  · have h₁ : Move L w (w.note (.heard .hub m.id none event)) :=
      .hear w .hub m.id none event (.inl rfl)
    exact .head h₁ (relay_moves hr (h₁.licensed hw) h)

theorem emitPlain_moves {event : GameEvent} (hw : w.Licensed L)
    (h : w.emitPlain run event = some w') : Moves L w w' := by
  refine foldlM_keeps (P := Moves L w) ?_ .refl h
  intro v m v' hm hv hd
  exact hv.trans (callListener_moves hr (hv.licensed hw) (hw.listeners event.key m hm) hd)

theorem emit_moves {event : GameEvent} {b : Bool} (hw : w.Licensed L)
    (h : w.emit run event = some (w', b)) : Moves L w w' := by
  unfold emit at h
  simp only [Game.takeDefaultPrevented] at h
  obtain ⟨w₂, h₂, h⟩ := Option.bind_eq_some_iff.1 h
  simp only [Option.pure_def, Option.some.injEq, Prod.mk.injEq] at h
  have h₁ : Move L w { w with game := { w.game with defaultPrevented := false } } :=
    .game w _ rfl
  have h₃ := emitPlain_moves hr (h₁.licensed hw) h₂
  have h₄ : Move L w₂ { w₂ with game := if w.game.defaultPrevented
      then { w₂.game with defaultPrevented := false }.preventDefault
      else { w₂.game with defaultPrevented := false } } := by
    refine .game w₂ _ ?_
    split <;> rfl
  exact h.1 ▸ .tail (.head h₁ h₃) h₄

theorem runCommand_moves {player line : String} {answer : Except HostError Bool}
    (hw : w.Licensed L) (h : w.runCommand run player line = some (w', answer)) : Moves L w w' := by
  unfold runCommand at h
  simp only at h
  split at h
  · simp only [Option.some.injEq, Prod.mk.injEq] at h
    exact h.1 ▸ .refl
  · rename_i key command hres
    obtain ⟨key', -, hf⟩ := List.exists_of_findSome?_eq_some hres
    obtain ⟨c, hc, hkc⟩ := Option.map_eq_some_iff.1 hf
    cases hkc
    have hl := hw.commands _ _ hc
    split at h
    · rename_i id react hact
      rw [hact] at hl
      have h₁ : Moves L w ((w.countCall id).note (.commanded key (some key.display)
          ⟨player, (CommandLine.ofText line).rest⟩)) :=
        .tail (.single (.countCall w id)) (.remark _ _ trivial)
      obtain ⟨⟨w₂, o⟩, h₂, h⟩ := Option.bind_eq_some_iff.1 h
      have h₃ := h₁.trans (follow_moves hr (hl _ _) (h₁.licensed hw) h₂)
      simp only at h
      split at h <;>
      · simp only [Option.pure_def, Option.some.injEq, Prod.mk.injEq] at h
        exact h.1 ▸ h₃
    · rename_i f hact
      rw [hact] at hl
      have h₁ : Moves L w (w.note (.commanded key none
          ⟨player, (CommandLine.ofText line).rest⟩)) := .single (.remark w _ trivial)
      have hf := Origin.Licensed.mono h₁.journal_grows.subset hl
      split at h
      · rename_i w₂ hcall
        simp only [Option.some.injEq, Prod.mk.injEq] at h
        exact h.1 ▸ h₁.trans (callScript_moves hcall hf)
      · rename_i w₂ detail hcall
        simp only [Option.some.injEq, Prod.mk.injEq] at h
        exact h.1 ▸ h₁.trans (callScript_failed_moves hcall hf _)

theorem fire_moves {t : Timer (Task E)} (hw : w.Licensed L)
    (ht : t.task.Licensed L w.journal.toList)
    (h : fire run w t = some w') : Moves L w w' := by
  unfold fire at h
  split at h
  · rename_i label p hct
    rw [hct] at ht
    have h₁ : Move L w (w.note (.fired t.seq (some label))) := .remark w _ trivial
    obtain ⟨⟨w₂, o⟩, h₂, h⟩ := Option.bind_eq_some_iff.1 h
    simp only [Option.pure_def, Option.some.injEq] at h
    exact h ▸ .head h₁ (follow_moves hr ht (h₁.licensed hw) h₂)
  · rename_i f hct
    rw [hct] at ht
    have h₁ : Moves L w (w.note (.fired t.seq none)) := .single (.remark w _ trivial)
    have hf := Origin.Licensed.mono h₁.journal_grows.subset ht
    split at h
    · rename_i w₂ hcall
      exact Option.some.inj h ▸ h₁.trans (callScript_moves hcall hf)
    · rename_i w₂ detail hcall
      exact Option.some.inj h ▸ h₁.trans (callScript_failed_moves hcall hf _)

theorem runDue_moves {now : Float} {n : Nat} (hw : w.Licensed L)
    (h : w.runDue run now = some (w', n)) : Moves L w w' := by
  unfold runDue at h
  obtain ⟨w₂, h₂, h⟩ := Option.bind_eq_some_iff.1 h
  simp only [Option.pure_def, Option.some.injEq, Prod.mk.injEq] at h
  obtain ⟨rfl, -⟩ := h
  refine foldlM_keeps (P := Moves L w) ?_ (.single (.take w now)) h₂
  intro v t v' ht hv hf
  have hmem : t ∈ w.timers.pending := (List.mem_filter.1 (List.mem_mergeSort.1 ht)).1
  have htask := (hw.tasks t hmem).mono hv.journal_grows.subset
  exact hv.trans (fire_moves hr (hv.licensed hw) htask hf)

end Calls

/-! ## Actions -/

theorem notices_moves : ∀ (notices : List Notice) (w : World E),
    Moves L w (notices.foldl World.notify w)
  | [], _ => .refl
  | n :: notices, w => .head (notify_move n) (notices_moves notices (w.notify n))

theorem createRoom_moves (id : String) (spec : Json) : Moves L w (w.createRoom id spec).1 := by
  unfold createRoom
  split
  · exact .refl
  · exact .single (.game w _ rfl)

theorem itemAction_moves (room : String) {f : Room → World E × Answer}
    (hf : ∀ r, Moves L w (f r).1) : Moves L w (w.itemAction room f).1 := by
  unfold itemAction
  split
  · exact .refl
  · exact hf _

theorem preventDefault_moves : Moves L w w.preventDefault := by
  have h : Move L w { w with game := w.game.preventDefault } := .game w _ rfl
  exact .tail (.single h) (.prevent _)

theorem performPlain_moves {a : Action} (ha : L.action a) : Moves L w (w.performPlain a).1 := by
  have hp : ∀ {p : Plan}, a.Carries p → p.Within L.action := fun h => L.carried ha h
  cases a with
  | notify notices => exact notices_moves notices w
  | preventDefault => exact preventDefault_moves
  | takeDefaultPrevented => exact .single (.game w _ rfl)
  | on key label react =>
    exact .single (.listen w (some key) label react fun n event => hp ⟨n, event, rfl⟩)
  | onAny label react =>
    exact .single (.listen w none label react fun n event => hp ⟨n, event, rfl⟩)
  | off label => exact .single (.unlisten w label)
  | createCommand key description react =>
    exact .single (.createCommand w key description react fun n call => hp ⟨n, call, rfl⟩)
  | createRoom id spec => exact createRoom_moves id spec
  | putItem room item => exact itemAction_moves room fun r => .single (.game w _ rfl)
  | takeItem room item => exact itemAction_moves room fun r => .single (.game w _ rfl)
  | getItem room item => exact itemAction_moves room fun r => .refl
  | createPlayer p => exact .single (.game w _ rfl)
  | registerSpawn owner room template secs =>
    exact .single (.registerSpawn w owner room template secs ha)
  | releaseSpawns owner => exact .single (.releaseSpawns w owner)
  | schedule module label due task =>
    exact .single (.schedule w module label due task (hp rfl))
  | subscribe key label react =>
    exact .single (.subscribe w key label react fun n event => hp ⟨n, event, rfl⟩)
  | unsubscribe key label => exact .single (.unsubscribe w key label)
  | clear => exact .single (.clear w)
  | setClock secs => exact .single (.setClock w secs)
  | advanceClock secs => exact .single (.setClock w _)
  | _ => exact .refl

theorem step_moves {run : Performer E} (hr : Performer.Lawful L run) {a : Action} {r : Answer}
    (ha : L.action a) (hw : w.Licensed L) (h : w.step run a = some (w', r)) : Moves L w w' := by
  unfold step at h
  split at h
  · obtain ⟨⟨w₁, b⟩, h₁, h⟩ := Option.map_eq_some_iff.1 h
    cases h
    exact emit_moves hr hw h₁
  · obtain ⟨w₁, h₁, h⟩ := Option.map_eq_some_iff.1 h
    cases h
    exact emitPlain_moves hr hw h₁
  · obtain ⟨⟨w₁, n⟩, h₁, h⟩ := Option.map_eq_some_iff.1 h
    cases h
    exact dispatch_moves hr hw h₁
  · obtain ⟨⟨w₁, n⟩, h₁, h⟩ := Option.map_eq_some_iff.1 h
    cases h
    exact runDue_moves hr hw h₁
  · obtain ⟨⟨w₁, answer⟩, h₁, h⟩ := Option.map_eq_some_iff.1 h
    cases h
    exact runCommand_moves hr hw h₁
  · have h₁ := performPlain_moves (w := w) ha
    rw [Option.some.inj h] at h₁
    exact h₁

end World

/-- Actions that are licensed make moves, whatever the depth. -/
theorem perform_moves {E : Engine} {L : Licence} :
    ∀ fuel : Nat, World.Performer.Lawful L (perform (E := E) fuel)
  | 0, _, _, _, _, _, _, h => by simp [perform] at h
  | fuel + 1, a, w, w', r, ha, hw, h => by
    obtain ⟨⟨w₁, answer⟩, h₁, h⟩ := Option.bind_eq_some_iff.1 h
    simp only [Option.pure_def, Option.some.injEq, Prod.mk.injEq] at h
    have hb : Move L w (w.note (.began a)) := .remark w _ trivial
    have hm := World.step_moves (perform_moves fuel) ha (hb.licensed hw) h₁
    have he : Move L w₁ w' := h.1 ▸ .remark w₁ _ trivial
    exact .head hb (hm.tail he)

end LiveModules
