import LiveModules.World.Perform
import Mathlib.Tactic.SplitIfs

/-!
# Brackets in the journal

Whatever an action brings about stands in the journal between its beginning and its end, so what a
call tells is `Closed`. What is told outside of all actions of some kind (`outside`) can be put
together from the parts of a call: each nested action of the kind counts for nothing.
-/

namespace LiveModules

namespace Entry

/-- The entry is no beginning and no end. -/
def IsPlain : Entry → Prop
  | .began _ | .ended .. => False
  | _ => True

/-- The entry is the beginning or the end of an action of the kind. -/
def marks (kind : Action → Bool) : Entry → Bool
  | .began a | .ended a _ => kind a
  | _ => false

/-- How many actions of the kind are under way after the entry, `n` being those before. -/
def underWay (kind : Action → Bool) (n : Nat) : Entry → Nat
  | .began a => if kind a then n + 1 else n
  | .ended a _ => if kind a then n - 1 else n
  | _ => n

end Entry

/-- The entries that stand outside of all actions of the kind, `n` of which are under way. -/
def outside (kind : Action → Bool) : Nat → List Entry → List Entry
  | _, [] => []
  | n, e :: rest =>
    (if n = 0 ∧ ¬ e.marks kind then [e] else []) ++ outside kind (e.underWay kind n) rest

theorem outside_sublist (kind : Action → Bool) : ∀ (entries : List Entry) (n : Nat),
    (outside kind n entries).Sublist entries
  | [], _ => .slnil
  | e :: rest, n => by
    rw [outside]
    split_ifs
    · exact (outside_sublist kind rest _).cons_cons e
    · exact (outside_sublist kind rest _).cons e

/-- Every action that begins ends. -/
inductive Closed : List Entry → Prop
  | nil : Closed []
  | cons {e : Entry} {rest : List Entry} : e.IsPlain → Closed rest → Closed (e :: rest)
  | block (a : Action) (r : Answer) {inner rest : List Entry} : Closed inner → Closed rest →
      Closed (.began a :: (inner ++ .ended a r :: rest))

variable {kind : Action → Bool} {entries rest : List Entry}

theorem Closed.append (h : Closed entries) (hr : Closed rest) : Closed (entries ++ rest) := by
  induction h with
  | nil => exact hr
  | cons he _ ih => exact .cons he ih
  | block a r hi _ _ ih =>
    rw [List.cons_append, List.append_assoc, List.cons_append]
    exact .block a r hi ih

theorem Entry.IsPlain.marks_eq {e : Entry} (h : e.IsPlain) : e.marks kind = false := by
  cases e <;> first | rfl | exact h.elim

theorem Entry.IsPlain.underWay_eq {e : Entry} (h : e.IsPlain) (n : Nat) :
    e.underWay kind n = n := by
  cases e <;> first | rfl | exact h.elim

/-- Inside an action of the kind nothing is outside. -/
theorem Closed.outside_succ (h : Closed entries) :
    ∀ (n : Nat) (rest : List Entry),
      outside kind (n + 1) (entries ++ rest) = outside kind (n + 1) rest := by
  induction h with
  | nil => exact fun _ _ => rfl
  | cons he _ ih =>
    intro n rest
    simp [outside, he.underWay_eq, ih]
  | block a r _ _ ihi ihr =>
    intro n rest
    rw [List.cons_append, List.append_assoc, List.cons_append]
    by_cases hk : kind a <;> simp [outside, Entry.underWay, hk, ihi, ihr]

theorem Closed.outside_append (h : Closed entries) : ∀ rest : List Entry,
    outside kind 0 (entries ++ rest) = outside kind 0 entries ++ outside kind 0 rest := by
  induction h with
  | nil => exact fun _ => rfl
  | cons he _ ih =>
    intro rest
    simp [outside, he.underWay_eq, he.marks_eq, ih]
  | block a r hi _ ihi ihr =>
    intro rest
    rw [List.cons_append, List.append_assoc, List.cons_append]
    by_cases hk : kind a
    · simp [outside, Entry.underWay, Entry.marks, hk, hi.outside_succ, ihr]
    · simp [outside, Entry.underWay, Entry.marks, hk, ihi, ihr]

/-- An action of the kind counts for nothing; of any other, what it tells counts. -/
theorem Closed.outside_block (h : Closed entries) (a : Action) (r : Answer) :
    outside kind 0 (.began a :: (entries ++ [.ended a r])) =
      if kind a then [] else .began a :: (outside kind 0 entries ++ [.ended a r]) := by
  by_cases hk : kind a
  · simp [outside, Entry.underWay, Entry.marks, hk, h.outside_succ]
  · simp [outside, Entry.underWay, Entry.marks, hk, h.outside_append]

namespace World

variable {E : Engine} {u v w : World E}

/-- Between `v` and `w` the journal tells of `entries`, and whatever began then has ended. -/
structure Tells (v w : World E) (entries : List Entry) : Prop where
  journal : w.journal.toList = v.journal.toList ++ entries
  closed : Closed entries

namespace Tells

theorem of_eq (h : w.journal = v.journal) : Tells v w [] := ⟨by rw [h, List.append_nil], .nil⟩

theorem note (w : World E) {e : Entry} (he : e.IsPlain) : Tells w (w.note e) [e] :=
  ⟨Array.toList_push, .cons he .nil⟩

theorem trans (h : Tells u v entries) (h' : Tells v w rest) : Tells u w (entries ++ rest) :=
  ⟨by rw [h'.journal, h.journal, List.append_assoc], h.closed.append h'.closed⟩

theorem block {a : Action} {r : Answer} (h : Tells (v.note (.began a)) w entries) :
    Tells v (w.note (.ended a r)) (.began a :: (entries ++ [.ended a r])) := by
  refine ⟨?_, .block a r h.closed .nil⟩
  have hv : (v.note (.began a)).journal.toList = v.journal.toList ++ [.began a] :=
    Array.toList_push
  have hw : (w.note (.ended a r)).journal.toList = w.journal.toList ++ [.ended a r] :=
    Array.toList_push
  rw [hw, h.journal, hv]
  simp

end Tells

end World

end LiveModules
