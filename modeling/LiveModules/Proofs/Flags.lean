import LiveModules.Proofs.Runs
import LiveModules.Proofs.Strides
import Mathlib.Data.List.Induction

/-!
# The flag of an emission

Every emission has a prevent-default flag of its own: it answers from what is told between its
beginning and its end outside of the emissions nested in it, and leaves the flag that it found
(`emit_flag_scoped`). What carries this over every nesting is `FlagTold`: after any action the flag
is what the journal makes of it, nested emissions left out.
-/

namespace LiveModules

attribute [local irreducible] lastOf

def Action.isEmit : Action → Bool
  | .emit _ => true
  | _ => false

/-- What an entry makes of the flag. -/
def Entry.flag (old : Bool) : Entry → Bool
  | .prevented => true
  | .ended .takeDefaultPrevented _ => false
  | _ => old

def flagAfter (old : Bool) (entries : List Entry) : Bool := entries.foldl Entry.flag old

theorem flagAfter_append (old : Bool) (entries rest : List Entry) :
    flagAfter old (entries ++ rest) = flagAfter (flagAfter old entries) rest :=
  List.foldl_append

/-- The flag stays set until it is taken. -/
theorem flagAfter_true : ∀ {entries : List Entry},
    (∀ r, .ended .takeDefaultPrevented r ∉ entries) → flagAfter true entries = true
  | [], _ => rfl
  | e :: rest, h => by
    have he : e.flag true = true := by
      unfold Entry.flag
      split
      · rfl
      · rename_i r
        exact absurd List.mem_cons_self (h r)
      · rfl
    show flagAfter (e.flag true) rest = true
    rw [he]
    exact flagAfter_true fun r hr => h r (List.mem_cons_of_mem _ hr)

/-- A flag that was not set is set in the end if it was set and not taken since. -/
theorem flagAfter_false_iff {entries : List Entry} : flagAfter false entries = true ↔
    ∃ pre post, entries = pre ++ .prevented :: post ∧
      ∀ r, .ended .takeDefaultPrevented r ∉ post := by
  constructor
  · induction entries using List.reverseRecOn with
    | nil => exact fun h => (by cases h)
    | append_singleton entries e ih =>
      intro h
      have h : e.flag (flagAfter false entries) = true := by
        rwa [flagAfter_append] at h
      by_cases hp : e = .prevented
      · subst hp
        exact ⟨entries, [], rfl, fun _ hr => (by cases hr)⟩
      · -- any other entry left the flag set, so it took nothing
        have ht : ∀ r, e ≠ .ended .takeDefaultPrevented r := by
          rintro r rfl
          cases h
        have hf : flagAfter false entries = true := by
          unfold Entry.flag at h
          split at h
          · exact absurd rfl hp
          · exact absurd rfl (ht _)
          · exact h
        obtain ⟨pre, post, rfl, hpost⟩ := ih hf
        refine ⟨pre, post ++ [e], by simp, fun r hr => ?_⟩
        rcases List.mem_append.1 hr with hr | hr
        · exact hpost r hr
        · exact ht r (List.mem_singleton.1 hr).symm
  · rintro ⟨pre, post, rfl, hpost⟩
    rw [flagAfter_append]
    exact flagAfter_true hpost

namespace World

variable {E : Engine} {u v w w' : World E}

/-- The flag is what the journal makes of it, nested emissions left out. -/
def FlagTold (w w' : World E) : Prop :=
  ∃ entries, w.Tells w' entries ∧
    w'.flag = flagAfter w.flag (outside Action.isEmit 0 entries)

namespace FlagTold

theorem of_eq (hj : w'.journal = w.journal) (hf : w'.flag = w.flag) : FlagTold w w' :=
  ⟨[], .of_eq hj, hf⟩

theorem trans (h : FlagTold u v) (h' : FlagTold v w) : FlagTold u w := by
  obtain ⟨entries, ht, hf⟩ := h
  obtain ⟨rest, ht', hf'⟩ := h'
  refine ⟨entries ++ rest, ht.trans ht', ?_⟩
  rw [hf', hf, ht.closed.outside_append, flagAfter_append]

/-- One more entry, and what it makes of the flag. -/
theorem step {e : Entry} (he : e.IsPlain) (hj : w'.journal = w.journal.push e)
    (hf : w'.flag = e.flag w.flag) : FlagTold w w' := by
  refine ⟨[e], ⟨by rw [hj, Array.toList_push], .cons he .nil⟩, ?_⟩
  have ho : outside Action.isEmit 0 [e] = [e] := by simp [outside, he.marks_eq]
  rw [hf, ho]
  rfl

end FlagTold

/-! ## Callbacks -/

theorem grant_flagTold (origin : Origin) (r : Request E.Callback) :
    FlagTold w (w.grant origin r) := by
  cases r with
  | item room template secs => exact .step (e := .registered ..) trivial rfl rfl
  | preventDefault => exact .step (e := .prevented) trivial rfl rfl
  | log line => exact .step (e := .logged ..) trivial rfl rfl
  | handler key callback =>
    refine .of_eq (subscribeScript_journal ..) ?_
    rw [flag, grant, subscribeScript_game]
    rfl
  | _ => exact .of_eq rfl rfl

/-- If the flag is told of nested actions, it is told of whatever calls somebody. -/
theorem flagTold_covers {run : Performer E}
    (hr : ∀ {a w w' r}, run a w = some (w', r) → FlagTold w w') : Covers run FlagTold where
  refl _ := .of_eq rfl rfl
  trans := .trans
  stride {w w'} h := by
    cases h with
    | nested a r h => exact hr h
    | script origin r =>
      exact finishRun_related (fun _ => .of_eq rfl rfl) .trans (fun _ _ => .of_eq rfl rfl)
        (fun _ => grant_flagTold origin) w r
    | did a r => exact .step (e := .did a r) trivial rfl rfl
    | failed module detail => exact .step (e := .failed module detail) trivial rfl rfl
    | _ => exact .of_eq rfl rfl
  hear _ _ _ _ _ := .step (e := .heard ..) trivial rfl rfl
  leave {_ _ _ place _ m} _ hu _ hv := (hu.trans hv).trans <| by
    cases place <;> exact .step (e := .left _ m.id) trivial rfl rfl
  command _ _ _ _ := .step (e := .commanded ..) trivial rfl rfl

/-! ## Actions -/

section Actions

variable {run : Performer E} (hr : ∀ {a w w' r}, run a w = some (w', r) → FlagTold w w')

include hr

theorem emit_flagTold {event : GameEvent} {b : Bool} (h : w.emit run event = some (w', b)) :
    ∃ entries, w.Tells w' entries ∧
      b = !flagAfter false (outside Action.isEmit 0 entries) ∧ w'.flag = w.flag := by
  rw [emit_eq] at h
  obtain ⟨v, hv, h⟩ := Option.map_eq_some_iff.1 h
  obtain ⟨rfl, rfl⟩ := Prod.mk.inj h
  -- between the flag that is put aside and the flag that is put back
  obtain ⟨entries, ht, hf⟩ := (flagTold_covers hr).emitPlain hv
  exact ⟨entries, ⟨ht.journal, ht.closed⟩, by rw [hf]; rfl, rfl⟩

theorem fire_flagTold {t : Timer (Task E)} (h : fire run w t = some w') : FlagTold w w' := by
  have hf : FlagTold w (w.note (.fired t.seq t.task.label?)) :=
    .step (e := .fired ..) trivial rfl rfl
  exact hf.trans ((flagTold_covers hr).strides (fire_strides h))

theorem runDue_flagTold {now : Float} {n : Nat} (h : w.runDue run now = some (w', n)) :
    FlagTold w w' := by
  have h₁ : FlagTold w { w with timers := w.timers.afterTaking now } := .of_eq rfl rfl
  exact foldlM_keeps (P := FlagTold w) (fun v t v' _ hv hf => hv.trans (fire_flagTold hr hf)) h₁
    (runDue_eq_some.1 h).1

end Actions

/-- What an action other than an emission tells is told by its brackets, too. -/
theorem FlagTold.block {w w' : World E} {a : Action} (r : Answer)
    (h : FlagTold (w.note (.began a)) w') (hk : a.isEmit = false) (ht : a ≠ .takeDefaultPrevented) :
    FlagTold w (w'.note (.ended a r)) := by
  obtain ⟨entries, ht', hf⟩ := h
  refine ⟨_, ht'.block, ?_⟩
  have hb (old : Bool) : (Entry.began a).flag old = old := rfl
  have he (old : Bool) : (Entry.ended a r).flag old = old := by
    unfold Entry.flag
    split <;> first | rfl | exact absurd ‹_› (by simp [ht])
  rw [ht'.closed.outside_block, if_neg (by simp [hk])]
  show w'.flag = flagAfter (Entry.flag w.flag (.began a)) (_ ++ [.ended a r])
  rw [hb, flagAfter_append, hf]
  exact (he _).symm

/-- An action that calls nobody, brackets and all. -/
theorem performPlain_flagTold (a : Action) (ha : ∀ event, a ≠ .emit event) :
    FlagTold w (((w.note (.began a)).performPlain a).1.note
      (.ended a ((w.note (.began a)).performPlain a).2)) := by
  have hk : a.isEmit = false := by
    cases a <;> first | rfl | exact absurd rfl (ha _)
  by_cases ht : a = .takeDefaultPrevented
  · subst ht
    exact ⟨_, Tells.block (.of_eq rfl), rfl⟩
  refine .block _ ?_ hk ht
  have h := (w.note (.began a)).plain a
  generalize ((w.note (.began a)).performPlain a).1 = v at h
  cases h with
  | prevented => exact .step (e := .prevented) trivial rfl rfl
  | taken => exact absurd rfl ht
  | aside _ _ _ _ _ hf => exact .of_eq rfl hf
  | _ => exact .of_eq rfl rfl

end World

open World

variable {E : Engine} {w w' : World E}

theorem perform_flagTold : ∀ (fuel : Nat) {a : Action} {w w' : World E} {r : Answer},
    perform fuel a w = some (w', r) → FlagTold w w'
  | 0, _, _, _, _, h => by cases h
  | fuel + 1, a, w, w', r, h => by
    obtain ⟨n, v, hn, hs, rfl⟩ := perform_cases h
    obtain rfl := Nat.succ.inj hn
    have hr : ∀ {a : Action} {w w' : World E} {r : Answer},
        perform fuel a w = some (w', r) → FlagTold w w' := perform_flagTold fuel
    cases hs with
    | emit hv =>
      -- nested in another emission it counts for nothing, and the flag is as before
      obtain ⟨entries, ht, -, hf⟩ := emit_flagTold hr hv
      refine ⟨_, ht.block, ?_⟩
      rw [ht.closed.outside_block]
      exact hf
    | emitPlain hv => exact ((flagTold_covers hr).emitPlain hv).block _ rfl Action.noConfusion
    | dispatch hv => exact ((flagTold_covers hr).dispatch hv).block _ rfl Action.noConfusion
    | runDue hv => exact (runDue_flagTold hr hv).block _ rfl Action.noConfusion
    | runCommand r hv => exact ((flagTold_covers hr).runCommand hv).block _ rfl Action.noConfusion
    | plain a hemit _ => exact performPlain_flagTold a hemit

/-- An emission answers that the default handling is not due exactly if, outside of the emissions
nested in it, somebody prevented it and no listener took that back since. It leaves the flag as it
was, and does not depend on it: with another flag before, the same happens and that flag is left. -/
theorem emit_flag_scoped {fuel : Nat} {event : GameEvent} {r : Answer}
    (h : perform fuel (.emit event) w = some (w', r)) :
    ∃ entries answer, r = .flag answer ∧ Closed entries ∧
      w'.journal.toList = w.journal.toList ++
        .began (.emit event) :: (entries ++ [.ended (.emit event) r]) ∧
      (answer = false ↔ ∃ pre post,
        outside Action.isEmit 0 entries = pre ++ .prevented :: post ∧
          ∀ r', .ended .takeDefaultPrevented r' ∉ post) ∧
      w'.flag = w.flag ∧
      ∀ b, perform fuel (.emit event) (w.setFlag b) = some (w'.setFlag b, r) := by
  obtain ⟨n, v, rfl, hs, rfl⟩ := perform_cases h
  cases hs with
  | plain a hemit _ => exact absurd rfl (hemit event)
  | @emit _ _ answer hv =>
    obtain ⟨entries, ht, hanswer, hf⟩ := emit_flagTold (perform_flagTold n) hv
    refine ⟨entries, answer, rfl, ht.closed, ht.block.journal, ?_, hf, fun b => ?_⟩
    · rw [← flagAfter_false_iff, hanswer]
      simp
    · -- the flag before is taken first, so all else is the same
      have hb : ((w.setFlag b).note (.began (.emit event))).emit (perform n) event =
          some (v.setFlag b, answer) := by
        rw [emit_eq] at hv ⊢
        obtain ⟨u, hu, he⟩ := Option.map_eq_some_iff.1 hv
        obtain ⟨rfl, rfl⟩ := Prod.mk.inj he
        have hu' : (((w.setFlag b).note (.began (.emit event))).setFlag false).emitPlain
            (perform n) event = some u := hu
        rw [hu']
        rfl
      show (World.step (perform n) (.emit event)
        ((w.setFlag b).note (.began (.emit event)))).bind _ = _
      simp only [World.step, hb]
      rfl

/-- A listener that prevents the default handling and then emits another event. -/
def guardian (_ : Nat) (_ : GameEvent) : Plan :=
  .ofList .keep [.preventDefault, .emit ⟨.unscoped "spawn", []⟩]

/-- A listener that takes back what was prevented. -/
def thief (_ : Nat) (_ : GameEvent) : Plan := .ofList .keep [.takeDefaultPrevented]

/-- What a listener of a nested emission takes back is not what was prevented around it. -/
theorem thief_takes_nothing :
    ∃ (w w' : World (.ofRuns (fun _ => ([], none)) fun _ => ([], none))) (entries : List Entry),
      w = ((World.empty "world").listen (some .tick) "guardian" guardian).listen
        (some (.unscoped "spawn")) "thief" thief ∧
      perform 3 (.emit Site.tickEvent) w = some (w', .flag false) ∧
      w'.journal.toList = w.journal.toList ++ .began (.emit Site.tickEvent) ::
        (entries ++ [.ended (.emit Site.tickEvent) (.flag false)]) ∧
      (∃ pre post, outside Action.isEmit 0 entries = pre ++ .prevented :: post ∧
        ∀ r', .ended .takeDefaultPrevented r' ∉ post) ∧
      w'.flag = false := by
  let w : World (.ofRuns (fun _ => ([], none)) fun _ => ([], none)) :=
    ((World.empty "world").listen (some .tick) "guardian" guardian).listen
      (some (.unscoped "spawn")) "thief" thief
  have hs : (perform 3 (.emit Site.tickEvent) w).map Prod.snd = some (.flag false) := rfl
  obtain ⟨⟨w', r⟩, hw', hr⟩ := Option.map_eq_some_iff.1 hs
  obtain ⟨entries, answer, rfl, -, hj, hanswer, hf, -⟩ := emit_flag_scoped hw'
  cases hr
  exact ⟨w, w', entries, rfl, hw', hj, hanswer.1 rfl, hf⟩

end LiveModules
