import LiveModules.Proofs.RuleHistory
import Mathlib.Algebra.Order.Floor.Semiring
import Mathlib.Algebra.Order.Field.Basic
import Mathlib.Algebra.Order.Field.Rat
import Mathlib.Data.Rat.Floor
import Mathlib.Tactic.Linarith

/-!
# How often a rule spawns

Whatever the clock shows, a rule is found due only when more than its interval lies between the time
and the one that it was found due at before (`SpawnTable.Keyed.foundAt_chain`). What lies in the
rooms decides only at which of these times an item is put. So over exact times the number of spawns
in a window is bounded by its length (`SpawnTable.cadence`).
-/

namespace LiveModules

attribute [local irreducible] lastOf

namespace SpawnTable

variable {τ ω : Type}

/-! ## What a check puts -/

/-- Puts the item of a rule into its room, unless there is no such room or the item lies in it. -/
def putRule (state : Table String Room × List SpawnKey) (rule : SpawnRule τ ω) :
    Table String Room × List SpawnKey :=
  match state.1.find? rule.key.room with
  | none => state
  | some room =>
    if (room.getItem? rule.key.item).isSome then state
    else (state.1.modify rule.key.room (·.addItem rule.template), state.2 ++ [rule.key])

/-- Puts the items of the rules into their rooms; answers the keys of what was put. -/
def put (rules : List (SpawnRule τ ω)) (rooms : Table String Room) :
    Table String Room × List SpawnKey :=
  rules.foldl putRule (rooms, [])

theorem putRule_keys (state : Table String Room × List SpawnKey) (rule : SpawnRule τ ω) :
    (putRule state rule).2 = state.2 ∨ (putRule state rule).2 = state.2 ++ [rule.key] := by
  unfold putRule
  split
  · exact .inl rfl
  · split
    · exact .inl rfl
    · exact .inr rfl

theorem put_keys_sublist (rules : List (SpawnRule τ ω)) (rooms : Table String Room) :
    (put rules rooms).2.Sublist (rules.map (·.key)) := by
  suffices h : ∀ state : Table String Room × List SpawnKey,
      (rules.foldl putRule state).2.Sublist (state.2 ++ rules.map (·.key)) from h (rooms, [])
  induction rules with
  | nil => exact fun state => by simp
  | cons rule rules ih =>
    intro state
    refine (ih (putRule state rule)).trans ?_
    rcases putRule_keys state rule with h | h <;> rw [h, List.map_cons]
    · exact (List.Sublist.refl _).append (List.sublist_cons_self ..)
    · rw [List.append_assoc, List.singleton_append]

end SpawnTable

namespace World

variable {E : Engine}

/-- The check of a world puts the same, over its times and owners. -/
theorem placeDue_put (rules : List (SpawnRule Float Owner)) (w : World E) :
    SpawnTable.put rules w.game.rooms =
      ((placeDue rules w).1.game.rooms, (placeDue rules w).2.map (·.1)) := by
  suffices h : ∀ state : World E × List (SpawnKey × Item),
      rules.foldl SpawnTable.putRule (state.1.game.rooms, state.2.map (·.1)) =
        ((rules.foldl placeRule state).1.game.rooms,
          (rules.foldl placeRule state).2.map (·.1)) from h (w, [])
  induction rules with
  | nil => exact fun state => rfl
  | cons rule rules ih =>
    rintro ⟨w, placed⟩
    rw [List.foldl_cons, List.foldl_cons, ← ih]
    congr 1
    rw [placeRule_eq, SpawnTable.putRule, Lacks]
    rcases hroom : w.game.rooms.find? rule.key.room with _ | room
    · rfl
    · rcases hitem : room.getItem? rule.key.item with _ | i <;> simp [hitem, stock]

/-- A check answers the keys of what it puts into the rooms for the rules that are due. -/
theorem spawnCheck_puts {run : Performer E} {owner : Owner} {w w' : World E} {keys : List SpawnKey}
    (h : w.spawnCheck run owner = some (w', keys)) :
    keys = (SpawnTable.put (w.spawns.due owner w.clock.now) w.game.rooms).2 := by
  rw [spawnCheck_eq, Option.map_eq_some_iff] at h
  obtain ⟨v, -, he⟩ := h
  cases he
  exact (congrArg Prod.snd (placeDue_put _ { w with
    spawns := w.spawns.stamp owner w.clock.now })).symm

end World

namespace SpawnTable

variable {τ ω : Type}

section Times

variable [DecidableEq ω] [Sub τ] [LT τ] [DecidableLT τ] [OfNat τ 0] {t : SpawnTable τ ω}
  {key : SpawnKey} {rule : SpawnRule τ ω}

/-! ## When a rule is found due -/

omit [OfNat τ 0] in
theorem Keyed.gap (h : t.Keyed) (hr : t.rules.find? key = some rule) {op : Op τ ω} {now : τ}
    (hf : op.found? key t = some now) : rule.respawnSecs < now - rule.lastSpawn := by
  cases op with
  | check owner now' =>
    rw [Op.found?] at hf
    split at hf
    · rename_i hd
      cases hf
      exact (of_decide_eq_true ((h.mem_due_keys hr).1 hd)).2
    · cases hf
  | _ => cases hf

/-- From one time at which a rule is found due to the next more than its interval passes. -/
theorem Keyed.foundAt_chain {ops : List (Op τ ω)} (h : t.Keyed)
    (hr : t.rules.find? key = some rule) (hops : ∀ op ∈ ops, op.Spares key rule.owner) :
    List.IsChain (fun s s' => rule.respawnSecs < s' - s)
      (rule.lastSpawn :: foundAt key t ops) := by
  induction ops generalizing t rule with
  | nil => exact .singleton _
  | cons op ops ih =>
    have h' := h.find?_apply hr (hops op List.mem_cons_self)
    have hrest := ih (h.apply op) h' fun op' hop => hops op' (List.mem_cons_of_mem _ hop)
    rw [foundAt]
    rcases hf : op.found? key t with _ | now <;> rw [hf] at hrest
    · exact hrest
    · exact .cons_cons (h.gap hr hf) hrest

/-! ## When it spawns -/

/-- The rooms as they are when something is done to the rules. -/
abbrev Step (τ ω : Type) := Op τ ω × Table String Room

/-- The time of a check, as often as it puts the item of `key`. -/
def Op.spawned (key : SpawnKey) (rooms : Table String Room) (t : SpawnTable τ ω) :
    Op τ ω → List τ
  | .check owner now => ((put (t.due owner now) rooms).2.filter (· = key)).map fun _ => now
  | _ => []

/-- The times at which the item of `key` is put. -/
def spawnedAt (key : SpawnKey) : SpawnTable τ ω → List (Step τ ω) → List τ
  | _, [] => []
  | t, (op, rooms) :: steps => op.spawned key rooms t ++ spawnedAt key (op.apply t) steps

omit [OfNat τ 0] in
theorem Keyed.due_keys_nodup (h : t.Keyed) (owner : ω) (now : τ) :
    ((t.due owner now).map (·.key)).Nodup := by
  have hkeys : t.rules.values.map (·.key) = t.rules.keys := by
    rw [Table.values, Table.keys, List.map_map]
    exact List.map_congr_left fun e he => h e.1 e.2 (Table.find?_eq_some_iff.2 he)
  exact (hkeys ▸ t.rules.keys_nodup).sublist (List.filter_sublist.map _)

omit [OfNat τ 0] in
theorem Keyed.spawned_sublist (h : t.Keyed) (op : Op τ ω) (rooms : Table String Room) :
    (op.spawned key rooms t).Sublist (op.found? key t).toList := by
  cases op with
  | check owner now =>
    have hdue : ((t.due owner now).map (·.key)).filter (· = key) =
        if key ∈ (t.due owner now).map (·.key) then [key] else [] := by
      rw [List.filter_eq, (h.due_keys_nodup owner now).count]
      split <;> rfl
    have hput := ((put_keys_sublist (t.due owner now) rooms).filter (· = key)).map fun _ => now
    rw [hdue] at hput
    rw [Op.found?]
    split at hput <;> rename_i hm
    · rwa [if_pos hm]
    · rwa [if_neg hm]
  | _ => exact .slnil

/-- A rule spawns only when it is found due. -/
theorem Keyed.spawnedAt_sublist {steps : List (Step τ ω)} (h : t.Keyed) :
    (spawnedAt key t steps).Sublist (foundAt key t (steps.map (·.1))) := by
  induction steps generalizing t with
  | nil => exact .slnil
  | cons step steps ih => exact (h.spawned_sublist step.1 step.2).append (ih (h.apply step.1))

end Times

/-! ## How often in a window -/

section Window

variable [Field τ] [LinearOrder τ] [IsStrictOrderedRing τ] {r : τ} {times : List τ}

theorem gaps_pairwise (hr : 0 ≤ r) (h : List.IsChain (fun s s' => r < s' - s) times) :
    times.Pairwise fun s s' => r < s' - s := by
  have : Trans (fun s s' : τ => r < s' - s) (fun s s' => r < s' - s) fun s s' => r < s' - s :=
    ⟨fun h h' => by linarith⟩
  exact h.pairwise

/-- Times that are more than `r` apart take up as much room. -/
theorem length_mul_le {s b : τ} (h : (s :: times).Pairwise fun s s' => r < s' - s)
    (hb : ∀ s' ∈ s :: times, s' ≤ b) : times.length * r ≤ b - s := by
  induction times generalizing s with
  | nil =>
    have := hb s List.mem_cons_self
    simpa using this
  | cons s' times ih =>
    obtain ⟨hs, hrest⟩ := List.pairwise_cons.1 h
    have hgap := hs s' List.mem_cons_self
    have := ih hrest fun t ht => hb t (List.mem_cons_of_mem _ ht)
    rw [List.length_cons, Nat.cast_add_one, add_mul, one_mul]
    linarith

theorem length_window_le [FloorRing τ] (hr : 0 < r) (h : times.Pairwise fun s s' => r < s' - s)
    (a length : τ) :
    (times.filter fun s => a ≤ s ∧ s ≤ a + length).length ≤ ⌊length / r⌋₊ + 1 := by
  have hw := h.filter fun s => a ≤ s ∧ s ≤ a + length
  have hin : ∀ s ∈ times.filter fun s => a ≤ s ∧ s ≤ a + length, a ≤ s ∧ s ≤ a + length :=
    fun s hs => of_decide_eq_true (List.mem_filter.1 hs).2
  generalize times.filter (fun s => a ≤ s ∧ s ≤ a + length) = inside at hw hin
  rcases inside with _ | ⟨s, rest⟩
  · exact Nat.zero_le _
  · have hroom := length_mul_le hw fun s' hs' => (hin s' hs').2
    have hs := (hin s List.mem_cons_self).1
    refine Nat.succ_le_succ (Nat.le_floor ((le_div_iff₀ hr).2 ?_))
    linarith

end Window

/-- Over exact times, between two times at which a rule is found due more than its interval passes,
whatever the clock shows at the checks, whoever's they are, and whatever lies in the rooms. Such a
time is on the rule until the next, the rule spawns at no others, and so not more often in a window
than its interval fits in. -/
theorem cadence [Field τ] [LinearOrder τ] [IsStrictOrderedRing τ] [FloorRing τ] [DecidableEq ω]
    (before : List (Op τ ω)) (owner : ω) (room : String) (template : Item) {r : τ} (hr : 0 ≤ r)
    {steps : List (Step τ ω)} (hsteps : ∀ s ∈ steps, s.1.Spares ⟨room, template.name⟩ owner) :
    let key : SpawnKey := ⟨room, template.name⟩
    let registered := (after before).register owner room template r
    let found := foundAt key registered (steps.map (·.1))
    let spawned := spawnedAt key registered steps
    List.IsChain (fun s s' => r < s' - s) (0 :: found) ∧ (0 :: found).Pairwise (· < ·) ∧
    (∀ done left, steps = done ++ left →
      (registered.replay (done.map (·.1))).rules.find? key = some ⟨key, template, r,
        (foundAt key registered (done.map (·.1))).getLast?.getD 0, owner⟩) ∧
    spawned.Sublist found ∧
    (0 < r → ∀ a length : τ,
      (spawned.filter fun s => a ≤ s ∧ s ≤ a + length).length ≤ ⌊length / r⌋₊ + 1) ∧
    ∀ (E : Engine) (run : World.Performer E) (owner : Owner) (w w' : World E)
      (keys : List SpawnKey), w.spawnCheck run owner = some (w', keys) →
        keys = (put (w.spawns.due owner w.clock.now) w.game.rooms).2 := by
  intro key registered found spawned
  have hkeyed : registered.Keyed := (after_keyed before).apply (.register owner room template r)
  have hrule : registered.rules.find? key = some ⟨key, template, r, 0, owner⟩ :=
    (find?_register ..).trans (if_pos rfl)
  have hspares {done left : List (Step τ ω)} (h : steps = done ++ left) :
      ∀ op ∈ done.map (·.1), op.Spares key owner := by
    intro op hop
    obtain ⟨s, hs, rfl⟩ := List.mem_map.1 hop
    exact hsteps s (h ▸ List.mem_append_left left hs)
  have hchain : List.IsChain (fun s s' => r < s' - s) (0 :: found) :=
    hkeyed.foundAt_chain hrule (hspares (List.append_nil steps).symm)
  have hgaps := gaps_pairwise hr hchain
  have hspawned : spawned.Sublist found := hkeyed.spawnedAt_sublist
  refine ⟨hchain, hgaps.imp fun h => ?_, fun done left h => ?_, hspawned, fun hpos a length => ?_,
    fun E run owner w w' keys => World.spawnCheck_puts⟩
  · linarith
  · exact hkeyed.find?_replay hrule (hspares h)
  · exact length_window_le hpos (hgaps.tail.sublist hspawned) a length

/-- A yard with the items of these names. -/
def yardWith (names : List String) : Table String Room :=
  let yard : Room := .ofSpec "yard" ⟨"", ∅, []⟩
  (∅ : Table String Room).insert "yard" { yard with items := names.map (.ofProperties · []) }

/-- Checks by a clock that goes back, some of them while the lamp is in the yard and one of them of
another's rules. -/
def lampSteps : List (Step ℚ String) :=
  [(.check "o" 6, yardWith []), (.check "o" 3, yardWith []), (.check "p" 30, yardWith []),
    (.check "o" 11, yardWith []), (.check "o" 12, yardWith ["lamp"]), (.check "o" 2, yardWith []),
    (.check "o" 40, yardWith ["well"])]

theorem lamp_cadence :
    let lamp : Item := .ofProperties "lamp" []
    let registered := (after []).register "o" "yard" lamp (5 : ℚ)
    (∀ s ∈ lampSteps, s.1.Spares ⟨"yard", lamp.name⟩ "o") ∧
      foundAt ⟨"yard", "lamp"⟩ registered (lampSteps.map (·.1)) = [6, 12, 40] ∧
      spawnedAt ⟨"yard", "lamp"⟩ registered lampSteps = [6, 40] ∧
      ∀ a length : ℚ, ((spawnedAt ⟨"yard", "lamp"⟩ registered lampSteps).filter fun s =>
        a ≤ s ∧ s ≤ a + length).length ≤ ⌊length / 5⌋₊ + 1 := by
  intro lamp registered
  have hsteps : ∀ s ∈ lampSteps, s.1.Spares ⟨"yard", lamp.name⟩ "o" := by
    simp [lampSteps, Op.Spares, Op.key?]
  have h := cadence [] "o" "yard" lamp (by norm_num : (0 : ℚ) ≤ 5) hsteps
  exact ⟨hsteps, by decide +kernel, by decide +kernel, h.2.2.2.2.1 (by norm_num)⟩

end SpawnTable

end LiveModules
