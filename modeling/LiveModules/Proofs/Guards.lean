import LiveModules.Script.Sandbox
import Mathlib.Data.List.Basic
import Mathlib.Logic.Relation

/-!
# Guards of a watchdog

A watchdog has one deadline, and a guard keeps the one that stood when it was made. However guards
are made and dropped, one inside of the other, the deadline is that of the outermost one that is
alive, and each guard keeps the deadline of the ones that it was made under (`Nest.Sound`). So a
call under a guard gets what is left to the outermost call and no more (`guards_nest`).
-/

namespace LiveModules.Script

open Relation

namespace Watchdog

/-- A guard that is alive. -/
structure Live where
  guard : Guard
  madeAt : Nat

/-- A watchdog with the guards that are alive, the innermost first. -/
structure Nest where
  watchdog : Watchdog
  live : List Live
  /-- When a guard was last made or dropped. -/
  clock : Nat

/-- The deadline that the outermost guard has set. -/
def outermost (budget : Option Nat) (live : List Live) : Option Nat :=
  budget.bind fun t => live.getLast?.map (·.madeAt + t)

/-- Each guard keeps the deadline that the ones outside of it have set. -/
def Saved (budget : Option Nat) : List Live → Prop
  | [] => True
  | g :: outer => g.guard.previous = outermost budget outer ∧ Saved budget outer

variable {budget : Option Nat} {w : Watchdog} {now t : Nat} {g : Live} {live outer : List Live}

theorem outermost_nil (budget : Option Nat) : outermost budget [] = none := by
  cases budget <;> rfl

theorem outermost_singleton (budget : Option Nat) (g : Live) :
    outermost budget [g] = budget.map (g.madeAt + ·) := by
  cases budget <;> rfl

theorem outermost_cons (h : outer ≠ []) :
    outermost budget (g :: outer) = outermost budget outer := by
  obtain ⟨g', outer, rfl⟩ := List.exists_cons_of_ne_nil h
  rw [outermost, List.getLast?_cons_cons, outermost]

theorem isSome_outermost : (outermost budget live).isSome ↔ budget.isSome ∧ live ≠ [] := by
  cases budget with
  | none => simp [outermost]
  | some t => simp [outermost, List.getLast?_isSome]

/-- A guard that is made under no other sets the deadline. -/
theorem guard_ofBudget (budget : Option Nat) (now : Nat) :
    (ofBudget budget).guard now = (⟨budget, budget.map (now + ·)⟩, ⟨none⟩) := by
  cases budget <;> rfl

/-- A guard whose own deadline would be no tighter changes nothing. -/
theorem guard_of_deadline_le
    (h : ∀ t, w.budget = some t → ∃ d, w.deadline = some d ∧ d ≤ now + t) :
    w.guard now = (w, ⟨w.deadline⟩) := by
  obtain ⟨_ | t, deadline⟩ := w
  · rfl
  · obtain ⟨d, rfl, hd⟩ := h t rfl
    simp only [guard, tighter, Nat.min_eq_left hd]

namespace Nest

variable {n n' : Nest}

def ofBudget (budget : Option Nat) : Nest := ⟨.ofBudget budget, [], 0⟩

/-- Makes a guard at time `now`. -/
def make (n : Nest) (now : Nat) : Nest :=
  ⟨(n.watchdog.guard now).1, ⟨(n.watchdog.guard now).2, now⟩ :: n.live, now⟩

/-- A guard is made, or the innermost is dropped. -/
inductive Step : Nest → Nest → Prop
  | make (n : Nest) (now : Nat) : n.clock ≤ now → Step n (n.make now)
  | drop (n : Nest) (g : Live) (outer : List Live) (now : Nat) : n.live = g :: outer →
      n.clock ≤ now → Step n ⟨n.watchdog.drop g.guard, outer, now⟩

/-- Guards were made and dropped since the watchdog had none. -/
def Reached (budget : Option Nat) (n : Nest) : Prop := ReflTransGen Step (ofBudget budget) n

structure Sound (budget : Option Nat) (n : Nest) : Prop where
  watchdog : n.watchdog = ⟨budget, outermost budget n.live⟩
  saved : Saved budget n.live
  past : ∀ g ∈ n.live, g.madeAt ≤ n.clock
  ordered : n.live.Pairwise fun inner outer => outer.madeAt ≤ inner.madeAt

namespace Sound

theorem start (budget : Option Nat) : (ofBudget budget).Sound budget where
  watchdog := by rw [ofBudget, outermost_nil]; rfl
  saved := trivial
  past := List.forall_mem_nil _
  ordered := .nil

/-- No guard was made before the outermost. -/
theorem exists_first (h : n.Sound budget) (hg : g ∈ n.live) :
    ∃ first ∈ n.live, n.live.getLast? = some first ∧ first.madeAt ≤ g.madeAt := by
  have hne : n.live ≠ [] := List.ne_nil_of_mem hg
  refine ⟨n.live.getLast hne, List.getLast_mem hne, List.getLast?_eq_some_getLast hne, ?_⟩
  have hlive := List.dropLast_append_getLast hne
  have hordered := h.ordered
  rw [← hlive] at hordered hg
  rcases List.mem_append.1 hg with hg | hg
  · exact (List.pairwise_append.1 hordered).2.2 g hg _ (List.mem_singleton_self _)
  · exact Nat.le_of_eq (congrArg (·.madeAt) (List.mem_singleton.1 hg).symm)

/-- A guard that is alive gives no more than the budget. -/
theorem deadline_le (h : n.Sound budget) (hg : g ∈ n.live) (ht : budget = some t) :
    ∃ d, n.watchdog.deadline = some d ∧ d ≤ g.madeAt + t := by
  obtain ⟨first, -, hlast, hle⟩ := h.exists_first hg
  subst ht
  refine ⟨first.madeAt + t, ?_, Nat.add_le_add_right hle t⟩
  rw [h.watchdog, outermost, hlast]
  rfl

/-- A guard that is made under another leaves the deadline as it is. -/
theorem guard_eq (h : n.Sound budget) (hne : n.live ≠ []) (hnow : n.clock ≤ now) :
    n.watchdog.guard now = (n.watchdog, ⟨n.watchdog.deadline⟩) := by
  obtain ⟨g, hg⟩ := List.exists_mem_of_ne_nil _ hne
  refine guard_of_deadline_le fun t ht => ?_
  rw [h.watchdog] at ht
  obtain ⟨d, hd, hle⟩ := h.deadline_le hg ht
  have := h.past g hg
  exact ⟨d, hd, by omega⟩

theorem make (h : n.Sound budget) (hnow : n.clock ≤ now) : (n.make now).Sound budget := by
  have hpast : ∀ g ∈ n.live, g.madeAt ≤ now := fun g hg => Nat.le_trans (h.past g hg) hnow
  refine ⟨?_, ⟨?_, h.saved⟩, ?_, List.pairwise_cons.2 ⟨hpast, h.ordered⟩⟩
  -- Under no other the guard sets the deadline; under another it finds one that is as tight.
  · by_cases hl : n.live = []
    · rw [Nest.make, h.watchdog, hl, outermost_nil, outermost_singleton]
      exact congrArg (·.1) (guard_ofBudget budget now)
    · rw [Nest.make, h.guard_eq hl hnow, outermost_cons hl]
      exact h.watchdog
  · by_cases hl : n.live = []
    · rw [h.watchdog, hl, outermost_nil]
      exact congrArg (·.2.previous) (guard_ofBudget budget now)
    · rw [h.guard_eq hl hnow, h.watchdog]
  · intro g hg
    rcases List.mem_cons.1 hg with rfl | hg
    · exact Nat.le_refl _
    · exact hpast g hg

theorem step (h : n.Sound budget) (hs : Step n n') : n'.Sound budget := by
  cases hs with
  | make now hnow => exact h.make hnow
  | drop g outer now hl hnow =>
    have hsaved := h.saved
    have hpast := h.past
    have hordered := h.ordered
    rw [hl] at hsaved hpast hordered
    exact ⟨by rw [h.watchdog, Watchdog.drop, hsaved.1], hsaved.2,
      fun g' hg' => Nat.le_trans (hpast g' (List.mem_cons_of_mem _ hg')) hnow, hordered.of_cons⟩

theorem run (h : n.Sound budget) (hr : ReflTransGen Step n n') : n'.Sound budget := by
  induction hr with
  | refl => exact h
  | tail _ hs ih => exact ih.step hs

end Sound

theorem Reached.sound (h : n.Reached budget) : n.Sound budget := (Sound.start budget).run h

end Nest

theorem drop_guard (w : Watchdog) (now : Nat) : (w.guard now).1.drop (w.guard now).2 = w := by
  obtain ⟨_ | t, deadline⟩ := w <;> rfl

end Watchdog

/-! ## Calls under guards -/

namespace Sandbox

theorem call_eq (s : Sandbox) (f : Value) (args : List Value) : s.call f args =
    let e := { s with watchdog := (s.watchdog.guard 0).1 }.callUnguarded f args
    (e, { s with heap := e.heap }) := by
  simp only [call, Watchdog.drop_guard]

end Sandbox

/-- While guards are alive the deadline is that of the outermost, whatever guards were made and
dropped inside of it, and without a guard or a budget there is none. No guard that is alive gives
more than the budget, and a call under guards runs as it would without a guard of its own. -/
theorem guards_nest {budget : Option Nat} {n : Watchdog.Nest} (h : n.Reached budget) :
    n.watchdog = ⟨budget, budget.bind fun t => n.live.getLast?.map (·.madeAt + t)⟩ ∧
    (n.watchdog.deadline.isSome ↔ budget.isSome ∧ n.live ≠ []) ∧
    (∀ now, n.clock ≤ now → n.live ≠ [] → (n.watchdog.guard now).1 = n.watchdog) ∧
    (∀ g outer, n.live = g :: outer → n.watchdog.drop g.guard =
      if outer = [] then .ofBudget budget else n.watchdog) ∧
    (∀ n', ReflTransGen Watchdog.Nest.Step n n' → n'.live = n.live → n'.watchdog = n.watchdog) ∧
    (∀ g ∈ n.live, ∀ t, budget = some t → ∃ d, n.watchdog.deadline = some d ∧ d ≤ g.madeAt + t) ∧
    ∀ (s : Sandbox) (f : Value) (args : List Value), s.watchdog = n.watchdog → n.clock = 0 →
      n.live ≠ [] → s.call f args =
        (s.callUnguarded f args, { s with heap := (s.callUnguarded f args).heap }) := by
  have hn := h.sound
  refine ⟨hn.watchdog, ?_, fun now hnow hne => ?_, fun g outer hl => ?_, fun n' hr hl => ?_,
    fun g hg t => hn.deadline_le hg, fun s f args hs hclock hne => ?_⟩
  · rw [hn.watchdog]
    exact Watchdog.isSome_outermost
  · rw [hn.guard_eq hne hnow]
  · have hsaved := hn.saved
    rw [hl] at hsaved
    rw [Watchdog.drop, hsaved.1, hn.watchdog, hl]
    split_ifs with houter
    · rw [houter, Watchdog.outermost_nil]
      rfl
    · rw [Watchdog.outermost_cons houter]
  · rw [(hn.run hr).watchdog, hl, hn.watchdog]
  · have hguard := hn.guard_eq hne (Nat.le_of_eq hclock)
    rw [Sandbox.call_eq, hs, hguard, ← hs]

/-- A guard made at 7 ends with the one that was made at 3. -/
theorem inner_guard_keeps_deadline :
    let outer := (Watchdog.Nest.ofBudget (some 10)).make 3
    let inner := outer.make 7
    inner.watchdog.deadline = some 13 ∧ inner.watchdog.drop ⟨some 13⟩ = outer.watchdog ∧
      outer.watchdog.drop ⟨none⟩ = .ofBudget (some 10) := by
  intro outer inner
  have houter : outer.Reached (some 10) := ReflTransGen.refl.tail (.make _ 3 (by decide))
  have hinner : inner.Reached (some 10) := houter.tail (.make _ 7 (by decide))
  obtain ⟨hw, -, -, hdrop, -, -, -⟩ := guards_nest hinner
  obtain ⟨-, -, hsame, hlast, -, -, -⟩ := guards_nest houter
  refine ⟨congrArg (·.deadline) hw, (hdrop _ _ rfl).trans ?_, hlast _ _ rfl⟩
  exact hsame 7 (by decide) (by decide)

end LiveModules.Script
