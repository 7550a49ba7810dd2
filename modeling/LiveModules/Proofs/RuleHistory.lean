import LiveModules.Proofs.Ownership
import LiveModules.Proofs.Restocking
import Mathlib.Data.Set.Card

/-!
# What a history leaves of rules

Rules are registered, released and checked, by any owners in any order. What stands under a key is
what was registered there last, unless it was released since, and a check that finds it due leaves
its time on it (`SpawnTable.find?_after`). The table that a world has comes about in no other way
(`Site.Run.rules_after`).
-/

namespace LiveModules

attribute [local irreducible] lastOf

/-- The size of a table is the number of its keys. -/
theorem Table.size_eq_ncard {κ : Type} {α : Type _} [Ord κ] [Std.LawfulEqOrd κ] (t : Table κ α) :
    t.size = {k | ∃ a, t.find? k = some a}.ncard := by
  have hkeys : {k | ∃ a, t.find? k = some a} = {k | k ∈ t.keys} :=
    Set.ext fun k => t.mem_keys_iff.symm
  classical
  rw [hkeys, ← List.coe_toFinset, Set.ncard_coe_finset, List.toFinset_card_of_nodup t.keys_nodup,
    keys, List.length_map, size]

namespace SpawnTable

variable {τ ω : Type}

/-- What is done to a table of rules. -/
inductive Op (τ ω : Type)
  | register (owner : ω) (room : String) (template : Item) (respawnSecs : τ)
  | release (owner : ω)
  | check (owner : ω) (now : τ)

/-- The key under which a rule is registered. -/
def Op.key? : Op τ ω → Option SpawnKey
  | .register _ room template _ => some ⟨room, template.name⟩
  | _ => none

/-- Neither is `key` registered anew nor are the rules of `owner` released. -/
def Op.Spares (key : SpawnKey) (owner : ω) (op : Op τ ω) : Prop :=
  op.key? ≠ some key ∧ op ≠ .release owner

/-- After `before`, `owner` registered a rule under `key`, and it is the last one there: none was
registered in `later`, and those of `owner` were not released. -/
structure Standing (ops : List (Op τ ω)) (key : SpawnKey) (owner : ω) (template : Item)
    (respawnSecs : τ) (before later : List (Op τ ω)) : Prop where
  split : ops = before ++ .register owner key.room template respawnSecs :: later
  item : template.name = key.item
  last : ∀ op ∈ later, op.key? ≠ some key
  unreleased : .release owner ∉ later

theorem Standing.concat {ops before later : List (Op τ ω)} {key : SpawnKey} {owner : ω}
    {template : Item} {secs : τ} (h : Standing ops key owner template secs before later)
    {op : Op τ ω} (hop : op.Spares key owner) :
    Standing (ops ++ [op]) key owner template secs before (later ++ [op]) where
  split := by rw [h.split, List.append_assoc, List.cons_append]
  item := h.item
  last op' hm := by
    rcases List.mem_append.1 hm with hm | hm
    · exact h.last op' hm
    · exact List.mem_singleton.1 hm ▸ hop.1
  unreleased hm := by
    rcases List.mem_append.1 hm with hm | hm
    · exact h.unreleased hm
    · exact hop.2 (List.mem_singleton.1 hm).symm

/-! ## One operation -/

section Ops

variable [DecidableEq ω] [Sub τ] [LT τ] [DecidableLT τ] [OfNat τ 0] {t : SpawnTable τ ω}
  {key : SpawnKey} {rule : SpawnRule τ ω} {owner : ω}

def Op.apply (t : SpawnTable τ ω) : Op τ ω → SpawnTable τ ω
  | .register owner room template respawnSecs => t.register owner room template respawnSecs
  | .release owner => t.release owner
  | .check owner now => t.stamp owner now

/-- The time of a check that finds the rule of `key` due. -/
def Op.found? (key : SpawnKey) (t : SpawnTable τ ω) : Op τ ω → Option τ
  | .check owner now => if key ∈ (t.due owner now).map (·.key) then some now else none
  | _ => none

omit [DecidableEq ω] [Sub τ] [LT τ] [DecidableLT τ] in
theorem find?_register (t : SpawnTable τ ω) (owner : ω) (room : String) (template : Item)
    (secs : τ) (key : SpawnKey) : (t.register owner room template secs).rules.find? key =
      if key = ⟨room, template.name⟩ then some ⟨⟨room, template.name⟩, template, secs, 0, owner⟩
      else t.rules.find? key :=
  Table.find?_insert ..

omit [Sub τ] [LT τ] [DecidableLT τ] [OfNat τ 0] in
/-- A release drops the rules that `owner` has now, whoever registered their keys before. -/
theorem find?_release_eq_some (t : SpawnTable τ ω) : (t.release owner).rules.find? key = some rule ↔
    t.rules.find? key = some rule ∧ rule.owner ≠ owner := by
  rw [release, Table.find?_filter, Option.filter_eq_some_iff]
  simp

theorem Keyed.apply (h : t.Keyed) (op : Op τ ω) : (op.apply t).Keyed := by
  intro key rule hr
  cases op with
  | register owner room template secs =>
    rw [Op.apply, find?_register] at hr
    split at hr
    · rename_i hk
      cases hr
      exact hk.symm
    · exact h key rule hr
  | release owner => exact h key rule (t.find?_release_eq_some.1 hr).1
  | check owner now =>
    rw [Op.apply, find?_stamp] at hr
    obtain ⟨r, hf, rfl⟩ := Option.map_eq_some_iff.1 hr
    have hk := h key r hf
    split <;> exact hk

omit [OfNat τ 0] in
theorem Keyed.mem_due_keys (h : t.Keyed) (hr : t.rules.find? key = some rule) {now : τ} :
    key ∈ (t.due owner now).map (·.key) ↔ isDue owner now rule := by
  rw [List.mem_map]
  constructor
  · rintro ⟨r, hd, rfl⟩
    obtain ⟨hf, hd⟩ := h.mem_due.1 hd
    cases hf.symm.trans hr
    exact hd
  · intro hd
    have hk := h key rule hr
    exact ⟨rule, h.mem_due.2 ⟨hk.symm ▸ hr, hd⟩, hk⟩

/-- A rule that is spared stays, but for the time of a check that finds it due. -/
theorem Keyed.find?_apply (h : t.Keyed) (hr : t.rules.find? key = some rule) {op : Op τ ω}
    (hop : op.Spares key rule.owner) : (op.apply t).rules.find? key =
      some { rule with lastSpawn := (op.found? key t).getD rule.lastSpawn } := by
  cases op with
  | register owner room template secs =>
    rw [Op.apply, find?_register, if_neg fun hk => hop.1 (congrArg some hk.symm), hr]
    rfl
  | release owner =>
    exact t.find?_release_eq_some.2 ⟨hr, fun ho => hop.2 (congrArg Op.release ho.symm)⟩
  | check owner now =>
    rw [Op.apply, find?_stamp, hr, Option.map_some, Op.found?]
    simp only [h.mem_due_keys hr]
    split <;> rfl

/-! ## One after the other -/

def replay (t : SpawnTable τ ω) (ops : List (Op τ ω)) : SpawnTable τ ω := ops.foldl Op.apply t

/-- What becomes of a table that is empty at first. -/
def after (ops : List (Op τ ω)) : SpawnTable τ ω := empty.replay ops

/-- The times of the checks that find the rule of `key` due. -/
def foundAt (key : SpawnKey) : SpawnTable τ ω → List (Op τ ω) → List τ
  | _, [] => []
  | t, op :: ops => (op.found? key t).toList ++ foundAt key (op.apply t) ops

theorem replay_append (t : SpawnTable τ ω) (ops ops' : List (Op τ ω)) :
    t.replay (ops ++ ops') = (t.replay ops).replay ops' :=
  List.foldl_append

theorem after_concat (ops : List (Op τ ω)) (op : Op τ ω) :
    after (ops ++ [op]) = op.apply (after ops) :=
  empty.replay_append ops [op]

theorem Keyed.replay {ops : List (Op τ ω)} (h : t.Keyed) : (t.replay ops).Keyed :=
  List.foldlRecOn ops Op.apply h fun _ h op _ => h.apply op

theorem after_keyed (ops : List (Op τ ω)) : (after ops).Keyed := by
  refine Keyed.replay fun key rule h => ?_
  cases h

/-- A rule that is spared stays, but for the time of the latest check that found it due. -/
theorem Keyed.find?_replay {ops : List (Op τ ω)} (h : t.Keyed) (hr : t.rules.find? key = some rule)
    (hops : ∀ op ∈ ops, op.Spares key rule.owner) : (t.replay ops).rules.find? key =
      some { rule with lastSpawn := (foundAt key t ops).getLast?.getD rule.lastSpawn } := by
  induction ops generalizing t rule with
  | nil => exact hr
  | cons op ops ih =>
    have hop := hops op List.mem_cons_self
    have h' := ih (h.apply op) (h.find?_apply hr hop) fun op' h' =>
      hops op' (List.mem_cons_of_mem _ h')
    refine h'.trans ?_
    rw [foundAt, List.getLast?_append]
    rcases op.found? key t with _ | now <;> simp

/-- The rule that was registered, found due last by the latest check in `later` that found it so. -/
def standingRule (key : SpawnKey) (owner : ω) (template : Item) (respawnSecs : τ)
    (before later : List (Op τ ω)) : SpawnRule τ ω where
  key
  template
  respawnSecs
  lastSpawn :=
    let registered := (after before).register owner key.room template respawnSecs
    (foundAt key registered later).getLast?.getD 0
  owner

section Standing

variable {ops before later : List (Op τ ω)} {template : Item} {secs : τ}

theorem Standing.find? (h : Standing ops key owner template secs before later) :
    (after ops).rules.find? key = some (standingRule key owner template secs before later) := by
  obtain ⟨rfl, hitem, hlast, hrel⟩ := h
  obtain ⟨room, item⟩ := key
  obtain rfl : template.name = item := hitem
  have hk := (after_keyed before).apply (.register owner room template secs)
  have hr : ((after before).register owner room template secs).rules.find? ⟨room, template.name⟩ =
      some ⟨⟨room, template.name⟩, template, secs, 0, owner⟩ :=
    (find?_register ..).trans (if_pos rfl)
  rw [after, replay_append]
  refine hk.find?_replay hr fun op hop => ⟨hlast op hop, ?_⟩
  rintro rfl
  exact hrel hop

/-- Where there is a rule, it is the one that was registered last and not released. -/
theorem exists_standing (h : (after ops).rules.find? key = some rule) :
    ∃ template secs before later, Standing ops key rule.owner template secs before later := by
  induction ops using List.reverseRecOn generalizing rule with
  | nil => cases h
  | append_singleton ops op ih =>
    rw [after_concat] at h
    cases op with
    | register owner room template secs =>
      rw [Op.apply, find?_register] at h
      split at h
      · rename_i hk
        cases h
        subst hk
        exact ⟨template, secs, ops, [], rfl, rfl, nofun, nofun⟩
      · rename_i hk
        obtain ⟨template', secs', before, later, hs⟩ := ih h
        exact ⟨template', secs', before, _,
          hs.concat ⟨fun he => hk (Option.some.inj he).symm, nofun⟩⟩
    | release owner =>
      obtain ⟨hr, ho⟩ := (after ops).find?_release_eq_some.1 h
      obtain ⟨template, secs, before, later, hs⟩ := ih hr
      refine ⟨template, secs, before, _, hs.concat ⟨nofun, fun he => ho ?_⟩⟩
      cases he
      rfl
    | check owner now =>
      rw [Op.apply, find?_stamp] at h
      obtain ⟨r, hr, rfl⟩ := Option.map_eq_some_iff.1 h
      obtain ⟨template, secs, before, later, hs⟩ := ih hr
      refine ⟨template, secs, before, later ++ [.check owner now], ?_⟩
      rw [apply_ite SpawnRule.owner, ite_self]
      exact hs.concat ⟨nofun, nofun⟩

end Standing

theorem find?_after (ops : List (Op τ ω)) (key : SpawnKey) (rule : SpawnRule τ ω) :
    (after ops).rules.find? key = some rule ↔ ∃ owner template secs before later,
      Standing ops key owner template secs before later ∧
        rule = standingRule key owner template secs before later := by
  constructor
  · intro h
    obtain ⟨template, secs, before, later, hs⟩ := exists_standing h
    exact ⟨rule.owner, template, secs, before, later, hs, Option.some.inj (h.symm.trans hs.find?)⟩
  · rintro ⟨owner, template, secs, before, later, hs, rfl⟩
    exact hs.find?

end Ops

/-! ## Numbers of rules -/

theorem size_eq_ncard (t : SpawnTable τ ω) :
    t.size = {key | ∃ rule, t.rules.find? key = some rule}.ncard :=
  t.rules.size_eq_ncard

theorem finite_rules (t : SpawnTable τ ω) (p : SpawnKey → SpawnRule τ ω → Prop) :
    {key | ∃ rule, t.rules.find? key = some rule ∧ p key rule}.Finite :=
  t.rules.keys.finite_toSet.subset fun _ ⟨rule, h, _⟩ => Table.mem_keys_iff.2 ⟨rule, h⟩

/-- The rules that a release leaves and those that it drops make up the table. -/
theorem size_release [DecidableEq ω] (t : SpawnTable τ ω) (owner : ω) : (t.release owner).size +
    {key | ∃ rule, t.rules.find? key = some rule ∧ rule.owner = owner}.ncard = t.size := by
  have hleft : {key | ∃ rule, (t.release owner).rules.find? key = some rule} =
      {key | ∃ rule, t.rules.find? key = some rule ∧ rule.owner ≠ owner} := by
    simp only [find?_release_eq_some]
  rw [size_eq_ncard, size_eq_ncard, hleft, ← Set.ncard_union_eq ?_ (t.finite_rules _)
    (t.finite_rules _)]
  · congr 1
    ext key
    simp only [Set.mem_union, Set.mem_ofPred_eq, ← exists_or, ← and_or_left]
    simp [ne_or_eq]
  · refine Set.disjoint_left.2 ?_
    rintro key ⟨rule, hr, hne⟩ ⟨rule', hr', he⟩
    cases hr.symm.trans hr'
    exact hne he

end SpawnTable

/-! ## The rules of a world -/

variable {E : Engine} {L : Licence} {w w' : World E}

/-- A pass leaves the rules or does one thing to them. -/
theorem Pass.rules_cases (h : Pass L w w') :
    w'.spawns = w.spawns ∨ ∃ op : SpawnTable.Op Float Owner, w'.spawns = op.apply w.spawns := by
  cases h with
  | turn h =>
    cases h with
    | beginLoad module modified =>
      simp only [World.beginLoad, World.replaceSurface]
      split
      · exact .inr ⟨.release _, rfl⟩
      · exact .inl rfl
    | move h =>
      cases h with
      | registerSpawn owner room template secs =>
        exact .inr ⟨.register (.label owner) room template secs, rfl⟩
      | releaseSpawns owner => exact .inr ⟨.release (.label owner), rfl⟩
      | stamp owner now => exact .inr ⟨.check owner now, rfl⟩
      | grant origin r =>
        cases r with
        | item room template secs =>
          exact .inr ⟨.register (.surface origin.surface) room template secs, rfl⟩
        | handler key callback => exact .inl (World.subscribeScript_spawns _ key)
        | _ => exact .inl rfl
      | leave place => exact .inl (by cases place <;> rfl)
      | unlisten label =>
        obtain ⟨hub, he, -⟩ := w.unlisten_cases label
        exact .inl (by rw [he])
      | unsubscribe key label =>
        obtain ⟨emitter, he, -⟩ := w.unsubscribe_cases key label
        exact .inl (by rw [he])
      | _ => exact .inl rfl
    | _ => exact .inl rfl
  | _ => exact .inl rfl

/-- The rules of a world that is passed through have come about by registering, releasing and
checking. -/
theorem Site.Run.rules_after {C : FileTree → FileTree → Prop} {s₀ s : Site E}
    (h : Site.Run L C s₀ s) (hw : Passes L s₀.world w) :
    ∃ ops, w.spawns = .after ops := by
  refine h.passed_induction (P := fun w => ∃ ops, w.spawns = .after ops) (fun root => ⟨[], rfl⟩)
    (fun v v' _ ⟨ops, hv⟩ hp => ?_) hw
  rcases hp.rules_cases with hsame | ⟨op, hop⟩
  · exact ⟨ops, hsame.trans hv⟩
  · exact ⟨ops ++ [op], by rw [hop, hv, SpawnTable.after_concat]⟩

namespace World

/-- A release answers how many rules its owner had. -/
theorem performPlain_releaseSpawns (w : World E) (label : String) :
    w.performPlain (.releaseSpawns label) =
      ({ w with spawns := w.spawns.release (.label label) },
        .count {key | ∃ rule, w.spawns.rules.find? key = some rule ∧
          rule.owner = .label label}.ncard) := by
  have hsize := w.spawns.size_release (.label label)
  rw [performPlain, Nat.sub_eq_of_eq_add' hsize.symm]

theorem performPlain_spawnCount (w : World E) : w.performPlain .spawnCount =
    (w, .rules {key | ∃ rule, w.spawns.rules.find? key = some rule}.ncard) := by
  rw [performPlain, SpawnTable.size_eq_ncard]

end World

/-- After any history there is a rule under a key exactly if the owner who registered there last
has not released since, and then it is what was registered, found due last by the latest check that
found it so. A release drops the rules of its owner and no others and answers how many they were,
and the size is the number of keys. -/
theorem SpawnTable.history_law {τ ω : Type} [DecidableEq ω] [Sub τ] [LT τ] [DecidableLT τ]
    [OfNat τ 0] (ops : List (Op τ ω)) :
    (∀ key rule, (after ops).rules.find? key = some rule ↔ ∃ owner template secs before later,
      Standing ops key owner template secs before later ∧
        rule = standingRule key owner template secs before later) ∧
    (after ops).size = {key | ∃ rule, (after ops).rules.find? key = some rule}.ncard ∧
    (∀ owner, (∀ key rule, ((after ops).release owner).rules.find? key = some rule ↔
        (after ops).rules.find? key = some rule ∧ rule.owner ≠ owner) ∧
      ((after ops).release owner).size + {key | ∃ rule,
        (after ops).rules.find? key = some rule ∧ rule.owner = owner}.ncard = (after ops).size) ∧
    ∀ (E : Engine) (w : World E), w.performPlain .spawnCount =
        (w, .rules {key | ∃ rule, w.spawns.rules.find? key = some rule}.ncard) ∧
      ∀ label, w.performPlain (.releaseSpawns label) =
        ({ w with spawns := w.spawns.release (.label label) },
          .count {key | ∃ rule, w.spawns.rules.find? key = some rule ∧
            rule.owner = .label label}.ncard) :=
  ⟨find?_after ops, size_eq_ncard _,
    fun owner => ⟨fun _ _ => find?_release_eq_some _, size_release _ owner⟩,
    fun _ w => ⟨w.performPlain_spawnCount, w.performPlain_releaseSpawns⟩⟩

end LiveModules
