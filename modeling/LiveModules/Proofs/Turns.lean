import LiveModules.Proofs.Perform

/-!
# What a world goes through

Besides the moves of actions there are those of loading: a turn is any of them. A pass is a turn or
something that the host does to the world from outside. What every pass keeps holds of each world
that is reached.
-/

namespace LiveModules

open Relation (ReflTransGen)

attribute [local irreducible] lastOf

open World in
/-- One small change of a world, of those that actions and loads consist of. -/
inductive Turn {E : Engine} (L : Licence) : World E → World E → Prop
  | move {w w'} : Move L w w' → Turn L w w'
  | beginLoad (w) (module : String) (modified : FileTime) : L.module module →
      Turn L w (w.beginLoad module modified)
  | truncateLog (w) (module : String) : L.module module → Turn L w (w.write module .truncateLog)
  | load (w) (module : String) : L.module module →
      Turn L w ((w.note (.loaded module)).write module .clearError)
  | closeRecord (w) (module : String) (failure : Option String) :
      Turn L w (w.closeRecord module failure)

/-- A turn, or what is done to a world from outside. -/
inductive Pass {E : Engine} (L : Licence) : World E → World E → Prop
  | turn {w w'} : Turn L w w' → Pass L w w'
  /-- The changes of files that were asked for are taken out. -/
  | settle (w) : Pass L w { w with disk := #[] }
  | unwritten (w) (module : String) (e : HostError) : Pass L w (w.note (.unwritten module e))
  | clock (w) (c : Clock) : Pass L w { w with clock := c }

abbrev Turns {E : Engine} (L : Licence) : World E → World E → Prop := ReflTransGen (Turn L)

abbrev Passes {E : Engine} (L : Licence) : World E → World E → Prop := ReflTransGen (Pass L)

variable {E : Engine} {L : Licence} {w w' : World E}

theorem Moves.turns (h : Moves L w w') : Turns L w w' :=
  ReflTransGen.mono (fun _ _ => Turn.move) _ _ h

theorem Turns.passes (h : Turns L w w') : Passes L w w' :=
  ReflTransGen.mono (fun _ _ => Pass.turn) _ _ h

namespace World

/-- A run of a module's text, up to the note on how it ended. -/
theorem finishLoad_turns {origin : Origin} (ho : origin.Licensed L w.journal.toList)
    (r : Run E.State E.Callback) :
    Turns L w ((w.write origin.module .truncateLog).finishRun origin r) :=
  .head (.truncateLog w origin.module ho.1) (finishRun_moves (w := w.write _ _) ho r).turns

theorem evaluate_turns {origin : Origin} {source : String}
    (h : w.evaluate origin source = (w', none)) (ho : origin.Licensed L w.journal.toList) :
    Turns L w (w'.write origin.module .clearError) := by
  obtain ⟨rfl, hr⟩ := Prod.mk.inj h
  rw [hr]
  exact .tail (finishLoad_turns ho _) (.load _ origin.module ho.1)

theorem evaluate_failed_turns {origin : Origin} {source detail : String}
    (h : w.evaluate origin source = (w', some detail)) (ho : origin.Licensed L w.journal.toList) :
    Turns L w (w'.writeError origin.module detail) := by
  obtain ⟨rfl, hr⟩ := Prod.mk.inj h
  rw [hr]
  exact .tail (finishLoad_turns ho _) (.move (.fail _ origin.module detail ho.1))

theorem reload_turns {module source : String} {modified : FileTime} (hm : L.module module) :
    Turns L w (w.reload module modified source) := by
  have ho : Origin.Licensed L (w.beginLoad module modified).journal.toList ⟨w.nextId, module⟩ :=
    ⟨hm, modified, by simp [beginLoad, replaceSurface, note]⟩
  have hb : Turn L w (w.beginLoad module modified) := .beginLoad w module modified hm
  unfold reload
  rcases he : (w.beginLoad module modified).evaluate ⟨w.nextId, module⟩ source with ⟨v, _ | detail⟩
  · have h := (evaluate_turns he ho).head hb
    exact .tail (.tail h (.move (notify_move _))) (.closeRecord _ module none)
  · have h := (evaluate_failed_turns he ho).head hb
    have hn : Turns L w ((v.broadcast ("Oh no some one broke " ++ module ++ "!")).writeError
      module detail) := .tail h (.move (notify_move _))
    exact .tail (.tail hn (.move (notify_move _))) (.closeRecord _ module (some detail))

theorem readFailed_turns {module source : String} (hm : L.module module) :
    Turns L w (w.readFailed module source) :=
  .tail (.single (.move (.fail w module _ hm))) (.move (notify_move _))

end World

/-! ## What every pass keeps -/

theorem Pass.nextId_le (h : Pass L w w') : w.nextId ≤ w'.nextId := by
  cases h with
  | turn h =>
    cases h with
    | move h => exact h.nextId_le
    | beginLoad module modified _ => exact Nat.le_add_right w.nextId 2
    | _ => exact Nat.le_refl w.nextId
  | _ => exact Nat.le_refl w.nextId

theorem Pass.listsGrow (h : Pass L w w') : World.ListsGrow w w' := by
  cases h with
  | turn h =>
    cases h with
    | move h => exact h.listsGrow
    | beginLoad module modified => exact .beginLoad module modified
    | _ => exact .of_subset fun _ _ _ => id
  | _ => exact .of_subset fun _ _ _ => id

theorem Pass.journal_cases (h : Pass L w w') :
    w'.journal = w.journal ∨ ∃ e, w'.journal = w.journal.push e := by
  cases h with
  | turn h =>
    cases h with
    | move h => exact h.journal_cases
    | beginLoad | load => exact .inr ⟨_, rfl⟩
    | _ => exact .inl rfl
  | unwritten => exact .inr ⟨_, rfl⟩
  | _ => exact .inl rfl

theorem Pass.journal_grows (h : Pass L w w') : w.journal.toList <+: w'.journal.toList := by
  rcases h.journal_cases with h | ⟨e, h⟩
  · exact h ▸ List.prefix_refl _
  · exact h ▸ ⟨[e], Array.toList_push.symm⟩

theorem Pass.licensed (ht : Pass L w w') (h : w.Licensed L) : w'.Licensed L := by
  have hj := ht.journal_grows.subset
  have hn := h.numbered.grow ht.nextId_le ht.listsGrow
  cases ht with
  | turn ht =>
    cases ht with
    | move hm => exact hm.licensed h
    | beginLoad module modified _ =>
      refine h.mono hj hn h.listeners (fun q key m hm => ?_) (fun _ _ => .inl) (fun _ => .inl)
      rw [World.listed_beginLoad] at hm
      split at hm
      · split at hm
        · rw [List.mem_singleton.1 hm]
          exact .inr trivial
        · cases hm
      · exact .inl hm
    | _ => exact h.mono hj hn h.listeners (fun _ _ _ => .inl) (fun _ _ => .inl) (fun _ => .inl)
  | _ => exact h.mono hj hn h.listeners (fun _ _ _ => .inl) (fun _ _ => .inl) (fun _ => .inl)

namespace Passes

theorem licensed (h : Passes L w w') (hw : w.Licensed L) : w'.Licensed L := by
  induction h with
  | refl => exact hw
  | tail _ h ih => exact h.licensed ih

/-- What every pass of a licensed world keeps, a sequence of passes keeps. -/
theorem induction {P : World E → Prop} (h : Passes L w w') (hw : w.Licensed L) (hP : P w)
    (ht : ∀ v v', v.Licensed L → P v → Pass L v v' → P v') : P w' := by
  induction h with
  | refl => exact hP
  | tail h₁ h₂ ih => exact ht _ _ (licensed h₁ hw) ih h₂

theorem journal_grows (h : Passes L w w') : w.journal.toList <+: w'.journal.toList := by
  induction h with
  | refl => exact List.prefix_refl _
  | tail _ h ih => exact ih.trans h.journal_grows

theorem nextId_le (h : Passes L w w') : w.nextId ≤ w'.nextId := by
  induction h with
  | refl => exact Nat.le_refl _
  | tail _ h ih => exact Nat.le_trans ih h.nextId_le

end Passes

end LiveModules
