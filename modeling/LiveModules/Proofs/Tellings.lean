import LiveModules.Proofs.Strides

/-!
# What is told outside of actions

What a stretch of the journal tells of some matter, all that stands inside an action left out
(`tellings`), can be put together from its parts. A callback by itself tells nothing but asides:
whatever else it brings about is an action (`strides_say`), and that is told in brackets
(`perform_tells`).
-/

namespace LiveModules

attribute [local irreducible] lastOf

variable {E : Engine} {β : Type} {f : Entry → Option β} {entries : List Entry} {bs bs' : List β}

/-- What `f` reads off the entries that stand outside of all actions, in order. -/
def tellings (f : Entry → Option β) (entries : List Entry) : List β :=
  (outside (fun _ => true) 0 entries).filterMap f

theorem Closed.tellings_append (h : Closed entries) (rest : List Entry) :
    tellings f (entries ++ rest) = tellings f entries ++ tellings f rest := by
  rw [tellings, h.outside_append, List.filterMap_append]
  rfl

theorem Closed.tellings_block (h : Closed entries) (a : Action) (r : Answer) :
    tellings f (.began a :: (entries ++ [.ended a r])) = [] := by
  rw [tellings, h.outside_block]
  rfl

/-- Entries on what happens while somebody is called. -/
def Entry.IsAside : Entry → Prop
  | .prevented | .registered .. | .failed .. | .did .. | .logged .. => True
  | _ => False

theorem Entry.IsAside.isPlain {e : Entry} (h : e.IsAside) : e.IsPlain := by
  cases e <;> trivial

namespace World

variable {u v w w' : World E}

/-- What is told between `w` and `w'` are whole actions, and besides them `bs`. -/
def Says (f : Entry → Option β) (bs : List β) (w w' : World E) : Prop :=
  ∃ entries, w.Tells w' entries ∧ tellings f entries = bs

namespace Says

theorem of_eq (h : w'.journal = w.journal) : Says f [] w w' := ⟨[], .of_eq h, rfl⟩

theorem trans (h : Says f bs u v) (h' : Says f bs' v w) : Says f (bs ++ bs') u w := by
  obtain ⟨entries, ht, rfl⟩ := h
  obtain ⟨rest, ht', rfl⟩ := h'
  exact ⟨entries ++ rest, ht.trans ht', ht.closed.tellings_append rest⟩

theorem step {e : Entry} (he : e.IsPlain) (h : w'.journal = w.journal.push e) :
    Says f (f e).toList w w' := by
  refine ⟨[e], ⟨by rw [h, Array.toList_push], .cons he .nil⟩, ?_⟩
  simp only [tellings, outside, he.marks_eq, Bool.false_eq_true, not_false_eq_true, and_self,
    ↓reduceIte, List.append_nil, List.filterMap_cons, List.filterMap_nil]
  cases f e <;> rfl

end Says

/-! ## Callbacks -/

section Asides

variable (hf : ∀ e : Entry, e.IsAside → f e = none)

include hf

theorem aside_speaks {e : Entry} (he : e.IsAside) (h : w'.journal = w.journal.push e) :
    Says f [] w w' := by
  have := Says.step (f := f) he.isPlain h
  rwa [hf e he] at this

theorem grant_speaks (origin : Origin) (r : Request E.Callback) :
    Says f [] w (w.grant origin r) := by
  cases r with
  | item room template secs => exact aside_speaks hf (e := .registered ..) trivial rfl
  | preventDefault => exact aside_speaks hf (e := .prevented) trivial rfl
  | log line => exact aside_speaks hf (e := .logged ..) trivial rfl
  | handler key callback => exact .of_eq (subscribeScript_journal ..)
  | _ => exact .of_eq rfl

theorem finishRun_speaks (origin : Origin) (r : Run E.State E.Callback) :
    Says f [] w (w.finishRun origin r) :=
  finishRun_related (fun _ => .of_eq rfl) .trans (fun _ _ => .of_eq rfl)
    (fun _ => grant_speaks hf origin) w r

variable {run : Performer E} (hr : ∀ {a w w' r}, run a w = some (w', r) → Says f [] w w')

include hr

theorem stride_speaks (h : Stride run w w') : Says f [] w w' := by
  cases h with
  | nested a r h => exact hr h
  | script origin r => exact finishRun_speaks hf origin r
  | did a r => exact aside_speaks hf (e := .did a r) trivial rfl
  | failed module detail => exact aside_speaks hf (e := .failed module detail) trivial rfl
  | _ => exact .of_eq rfl

theorem strides_say (h : Strides run w w') : Says f [] w w' := by
  induction h with
  | refl => exact .of_eq rfl
  | tail _ h ih => exact ih.trans (stride_speaks hf hr h)

end Asides

/-! ## Actions -/

section Closing

/-- The journal tells of whole actions only. -/
def Closes (w w' : World E) : Prop := ∃ entries, w.Tells w' entries

theorem Closes.of_speaks (h : Says f bs w w') : Closes w w' :=
  let ⟨entries, ht, _⟩ := h
  ⟨entries, ht⟩

theorem Closes.speaks (h : Closes w w') : Says (fun _ => (none : Option Unit)) [] w w' := by
  obtain ⟨entries, ht⟩ := h
  exact ⟨entries, ht, by rw [tellings, List.filterMap_none]⟩

theorem closes_of_note {e : Entry} (he : e.IsPlain) (h : w'.journal = w.journal.push e) :
    Closes w w' :=
  .of_speaks (Says.step (f := fun _ => (none : Option Unit)) he h)

variable {run : Performer E} (hr : ∀ {a w w' r}, run a w = some (w', r) → Closes w w')

include hr

theorem closes_covers : Covers run (Closes (E := E)) where
  refl _ := ⟨[], .of_eq rfl⟩
  trans := fun ⟨_, h⟩ ⟨_, h'⟩ => ⟨_, h.trans h'⟩
  stride h := .of_speaks (stride_speaks (f := fun _ => (none : Option Unit)) (fun _ _ => rfl)
    (fun h => (hr h).speaks) h)
  hear _ _ _ _ _ := closes_of_note (e := .heard ..) trivial rfl
  leave {_ _ w place event m} _ hu _ hv := by
    obtain ⟨_, hu⟩ := hu
    obtain ⟨_, hv⟩ := hv
    obtain ⟨_, hl⟩ : Closes w
        ((w.note (.left place m.id)).updateRoster (·.remove event.key m.id) place) := by
      cases place <;> exact closes_of_note (e := .left _ m.id) trivial rfl
    exact ⟨_, (hu.trans hv).trans hl⟩
  command _ _ _ _ := closes_of_note (e := .commanded ..) trivial rfl

theorem fires_close {timers : List (Timer (Task E))}
    (h : timers.foldlM (fire run) w = some w') : Closes w w' := by
  have hc : Covers run (Closes (E := E)) := closes_covers hr
  refine foldlM_keeps (P := Closes w) ?_ (hc.refl w) h
  intro v t v' _ hv hf
  have ht : Closes v (v.note (.fired t.seq t.task.label?)) :=
    closes_of_note (e := .fired ..) trivial rfl
  exact hc.trans (hc.trans hv ht) (hc.strides (fire_strides hf))

end Closing

theorem performPlain_closes (a : Action) : Closes w (w.performPlain a).1 := by
  have h := w.plain a
  generalize (w.performPlain a).1 = v at h
  cases h with
  | prevented => exact closes_of_note (e := .prevented) trivial rfl
  | _ => exact ⟨[], .of_eq rfl⟩

end World

open World

/-- An action is told in brackets. -/
theorem perform_tells : ∀ (fuel : Nat) {a : Action} {w w' : World E} {r : Answer},
    perform fuel a w = some (w', r) →
      ∃ inner, Closed inner ∧ w.Tells w' (.began a :: (inner ++ [.ended a r]))
  | 0, _, _, _, _, h => by cases h
  | fuel + 1, a, w, w', r, h => by
    obtain ⟨n, v, hn, hs, rfl⟩ := perform_cases h
    obtain rfl := Nat.succ.inj hn
    have hr : ∀ {a : Action} {w w' : World E} {r : Answer},
        perform fuel a w = some (w', r) → Closes w w' := fun h =>
      let ⟨_, _, ht⟩ := perform_tells fuel h
      ⟨_, ht⟩
    have hc : Covers (perform fuel) (Closes (E := E)) := closes_covers hr
    suffices Closes (w.note (.began a)) v by
      obtain ⟨inner, ht⟩ := this
      exact ⟨inner, ht.closed, ht.block⟩
    cases hs with
    | emit hv => exact hc.emit (fun _ _ => ⟨[], .of_eq rfl⟩) hv
    | emitPlain hv => exact hc.emitPlain hv
    | dispatch hv => exact hc.dispatch hv
    | runDue hv =>
      obtain ⟨entries, ht⟩ := fires_close hr (runDue_eq_some.1 hv).1
      exact ⟨entries, ht.journal, ht.closed⟩
    | runCommand r hv => exact hc.runCommand hv
    | plain a _ _ => exact performPlain_closes a

/-- Whatever an action brings about is told inside its brackets. -/
theorem perform_speaks {fuel : Nat} {a : Action} {w w' : World E} {r : Answer}
    (h : perform fuel a w = some (w', r)) : Says f [] w w' := by
  obtain ⟨inner, hc, ht⟩ := perform_tells fuel h
  exact ⟨_, ht, hc.tellings_block a r⟩

end LiveModules
