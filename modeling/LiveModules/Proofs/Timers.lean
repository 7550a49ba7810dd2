import LiveModules.Timers
import Mathlib.Data.List.Nodup
import Mathlib.Data.List.Perm.Basic
import Mathlib.Tactic.SplitIfs

/-!
# What a queue of timers holds

Timers are numbered in the order of scheduling and stand in that order in the queue. What is due at
a time is a rearrangement of the timers that are not later (`TimerQueue.due_perm`), in the order of
the times and, at equal times, of scheduling (`TimerQueue.Numbered.due_sorted`). A time that is not
a number never comes.
-/

namespace LiveModules

theorem not_le_of_isNaN {x : Float} (h : x.isNaN = true) (y : Float) : ¬ x ≤ y := by
  intro hle
  have hle : x.toModel.unpack.le y.toModel.unpack = true := of_decide_eq_true hle
  have hx : x.toModel.unpack.isNaN = true := h
  rcases hu : x.toModel.unpack with _ | _ | _ | _ <;> rw [hu] at hx hle
  · cases hx
  · cases hle
  · cases hx
  · cases hx

variable {α : Type}

/-- `a` runs before `b`. -/
def Timer.Precedes (a b : Timer α) : Prop :=
  floatRank a.due < floatRank b.due ∨ floatRank a.due = floatRank b.due ∧ a.seq < b.seq

namespace TimerQueue

theorem runsBefore_iff {a b : Timer α} : runsBefore a b = true ↔
    floatRank a.due < floatRank b.due ∨ floatRank a.due = floatRank b.due ∧ a.seq ≤ b.seq := by
  simp [runsBefore]

variable {q : TimerQueue α} {now : Float}

/-- The numbers of the timers in the queue, in order. -/
def seqs (q : TimerQueue α) : List Nat := q.pending.map (·.seq)

/-- Timers have numbers that were given out, and stand in the order of their numbers. -/
structure Numbered (q : TimerQueue α) : Prop where
  lt : ∀ t ∈ q.pending, t.seq < q.nextSeq
  ascending : q.pending.Pairwise fun a b => a.seq < b.seq

theorem Numbered.empty : (empty : TimerQueue α).Numbered := ⟨fun _ ht => (by cases ht), .nil⟩

theorem Numbered.schedule (h : q.Numbered) (module : String) (due : Float) (task : α) :
    (q.schedule module due task).Numbered := by
  refine ⟨fun t ht => ?_, List.pairwise_append.2 ⟨h.ascending, List.pairwise_singleton _ _, ?_⟩⟩
  · rcases List.mem_append.1 ht with ht | ht
    · exact Nat.lt_succ_of_lt (h.lt t ht)
    · rw [List.mem_singleton.1 ht]
      exact Nat.lt_succ_self q.nextSeq
  · intro a ha b hb
    rw [List.mem_singleton.1 hb]
    exact h.lt a ha

theorem Numbered.afterTaking (h : q.Numbered) (now : Float) : (q.afterTaking now).Numbered :=
  ⟨fun t ht => h.lt t (List.mem_filter.1 ht).1, h.ascending.sublist List.filter_sublist⟩

theorem Numbered.eq_of_seq (h : q.Numbered) {t t' : Timer α} (ht : t ∈ q.pending)
    (ht' : t' ∈ q.pending) (hs : t.seq = t'.seq) : t = t' := by
  have hd : (q.pending.map (·.seq)).Nodup := List.pairwise_map.2 (h.ascending.imp Nat.ne_of_lt)
  exact List.inj_on_of_nodup_map hd ht ht' hs

/-! ## What is due -/

theorem due_perm (q : TimerQueue α) (now : Float) :
    (q.due now).Perm (q.pending.filter fun t => t.due ≤ now) :=
  List.mergeSort_perm _ _

theorem mem_due {t : Timer α} : t ∈ q.due now ↔ t ∈ q.pending ∧ t.due ≤ now := by
  rw [(q.due_perm now).mem_iff, List.mem_filter, decide_eq_true_iff]

theorem mem_afterTaking {t : Timer α} :
    t ∈ (q.afterTaking now).pending ↔ t ∈ q.pending ∧ ¬ t.due ≤ now := by
  simp [afterTaking]

/-- What is due and what stays are all that was there. -/
theorem due_append_afterTaking (q : TimerQueue α) (now : Float) :
    (q.due now ++ (q.afterTaking now).pending).Perm q.pending :=
  ((q.due_perm now).append_right _).trans (List.filter_append_perm _ _)

theorem Numbered.due_sorted (h : q.Numbered) (now : Float) :
    (q.due now).Pairwise Timer.Precedes := by
  have hs : (q.due now).Pairwise fun a b => runsBefore a b = true := by
    refine List.pairwise_mergeSort (fun a b c hab hbc => ?_) (fun a b => ?_) _
    · rw [runsBefore_iff] at hab hbc ⊢
      omega
    · rw [Bool.or_eq_true, runsBefore_iff, runsBefore_iff]
      omega
  have hd : (q.due now).Pairwise fun a b => a.seq ≠ b.seq :=
    (q.due_perm now).symm.pairwise (h.ascending.sublist List.filter_sublist |>.imp Nat.ne_of_lt)
      fun hab => hab.symm
  refine (hs.and hd).imp fun {a b} hab => ?_
  have := runsBefore_iff.1 hab.1
  rcases this with hlt | ⟨heq, hle⟩
  · exact .inl hlt
  · exact .inr ⟨heq, Nat.lt_of_le_of_ne hle hab.2⟩

end TimerQueue

end LiveModules
