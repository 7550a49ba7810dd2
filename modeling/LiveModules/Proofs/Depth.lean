import LiveModules.Proofs.Strides

/-!
# Depth does not matter

`fuel` bounds how deep callbacks nest. What an action comes to with some fuel it comes to with more
(`perform_mono`), so the fuel with which something ends has no part in how it ends.
-/

namespace LiveModules

attribute [local irreducible] lastOf

variable {E : Engine}

/-- Whatever `p` comes to, `p'` comes to. -/
def Reaches {β : Type} (p p' : Option β) : Prop := ∀ b, p = some b → p' = some b

namespace Reaches

variable {β γ : Type} {p p' : Option β}

theorem refl (p : Option β) : Reaches p p := fun _ => id

theorem bind {f f' : β → Option γ} (h : Reaches p p') (hf : ∀ b, Reaches (f b) (f' b)) :
    Reaches (p.bind f) (p'.bind f') := by
  intro c hc
  obtain ⟨b, hb, hc⟩ := Option.bind_eq_some_iff.1 hc
  rw [h b hb]
  exact hf b c hc

theorem map (h : Reaches p p') (f : β → γ) : Reaches (p.map f) (p'.map f) := by
  intro c hc
  obtain ⟨b, hb, rfl⟩ := Option.map_eq_some_iff.1 hc
  rw [h b hb]
  rfl

theorem foldlM {σ : Type} {f f' : σ → β → Option σ} (h : ∀ s b, Reaches (f s b) (f' s b)) :
    ∀ (l : List β) (s : σ), Reaches (l.foldlM f s) (l.foldlM f' s)
  | [], _ => .refl _
  | b :: l, s => by
    rw [List.foldlM_cons, List.foldlM_cons]
    exact (h s b).bind fun s' => foldlM h l s'

end Reaches

namespace World

section Calls

variable {run run' : Performer E} (hr : ∀ a w, Reaches (run a w) (run' a w))

include hr

theorem follow_reaches : ∀ (p : Plan) (w : World E), Reaches (follow run p w) (follow run' p w)
  | .finish _, _ => .refl _
  | .act a next, w => (hr a w).bind fun r => follow_reaches (next r.2) _

theorem spawnCheck_reaches (owner : Owner) (w : World E) :
    Reaches (w.spawnCheck run owner) (w.spawnCheck run' owner) :=
  .bind (.foldlM (fun v _ => (hr _ v).bind fun _ => .refl _) _ _) fun _ => .refl _

theorem callSubscriber_reaches (place : Place) (event : GameEvent) (m : Member (Subscriber E))
    (w : World E) :
    Reaches (w.callSubscriber run place event m) (w.callSubscriber run' place event m) := by
  obtain ⟨id, ⟨label, react⟩ | f | surface⟩ := m
  · exact follow_reaches hr _ _
  · exact .refl _
  · exact .bind (spawnCheck_reaches hr _ _) fun _ => .refl _

theorem deliver_reaches (place : Place) (event : GameEvent) (state : World E × Nat)
    (m : Member (Subscriber E)) :
    Reaches (deliver run place event state m) (deliver run' place event state m) := by
  obtain ⟨w, n⟩ := state
  by_cases hc : (w.roster place).contains event.key m.id = true
  · rw [deliver_eq hc, deliver_eq hc]
    exact (callSubscriber_reaches hr place event m w).map _
  · rw [deliver_skip hc, deliver_skip hc]
    exact .refl _

theorem dispatch_reaches (place : Place) (event : GameEvent) (w : World E) :
    Reaches (w.dispatch run place event) (w.dispatch run' place event) :=
  .foldlM (deliver_reaches hr place event) _ _

theorem relay_reaches (event : GameEvent) (w : World E) :
    Reaches (w.relay run event) (w.relay run' event) :=
  .foldlM (fun v module => (dispatch_reaches hr (.surface module) event v).bind fun _ => .refl _)
    _ _

theorem callListener_reaches (event : GameEvent) (w : World E) (m : Member Listener) :
    Reaches (callListener run event w m) (callListener run' event w m) := by
  obtain ⟨id, ⟨label, react⟩ | _⟩ := m
  · exact .bind (follow_reaches hr _ _) fun _ => .refl _
  · exact relay_reaches hr event _

theorem emitPlain_reaches (event : GameEvent) (w : World E) :
    Reaches (w.emitPlain run event) (w.emitPlain run' event) :=
  .foldlM (callListener_reaches hr event) _ _

theorem emit_reaches (event : GameEvent) (w : World E) :
    Reaches (w.emit run event) (w.emit run' event) := by
  rw [emit_eq, emit_eq]
  exact (emitPlain_reaches hr event _).map _

theorem runCommand_reaches (player line : String) (w : World E) :
    Reaches (w.runCommand run player line) (w.runCommand run' player line) := by
  unfold runCommand
  simp only
  split
  · exact .refl _
  · split
    · exact .bind (follow_reaches hr _ _) fun _ => .refl _
    · exact .refl _

theorem fire_reaches (w : World E) (t : Timer (Task E)) :
    Reaches (fire run w t) (fire run' w t) := by
  unfold fire
  split
  · exact .bind (follow_reaches hr _ _) fun _ => .refl _
  · exact .refl _

theorem runDue_reaches (now : Float) (w : World E) :
    Reaches (w.runDue run now) (w.runDue run' now) :=
  .bind (.foldlM (fire_reaches hr) _ _) fun _ => .refl _

theorem step_reaches (a : Action) (w : World E) : Reaches (w.step run a) (w.step run' a) := by
  unfold step
  split
  · exact (emit_reaches hr _ w).map _
  · exact (emitPlain_reaches hr _ w).map _
  · exact (dispatch_reaches hr .emitter _ w).map _
  · exact (runDue_reaches hr _ w).map _
  · exact (runCommand_reaches hr _ _ w).map _
  · exact .refl _

end Calls

end World

/-- What an action comes to with some fuel it comes to with more. -/
theorem perform_mono {n k : Nat} (h : n ≤ k) (a : Action) (w : World E) :
    Reaches (perform n a w) (perform k a w) := by
  induction n generalizing k a w with
  | zero => exact fun _ h => (by cases h)
  | succ n ih =>
    obtain ⟨k, rfl⟩ : ∃ j, k = j + 1 := ⟨k - 1, by omega⟩
    exact .bind (World.step_reaches (fun a w => ih (by omega) a w) a _) fun _ => .refl _

end LiveModules
