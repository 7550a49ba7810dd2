import LiveModules.Proofs.Runs
import LiveModules.Proofs.Strides

/-!
# What every step of a site keeps up

A relation that is kept by strides, the notes around calls and the parts of a load (`Spans`) relates
the world before a scan, a load or a step of a run to the world after it.
-/

namespace LiveModules

attribute [local irreducible] lastOf

variable {E : Engine} {L : Licence} {C : FileTree → FileTree → Prop}

namespace World

/-- `R` covers all calls and relates what was before to what is after each part of a load. -/
structure Spans (run : Performer E) (R : World E → World E → Prop) : Prop extends
    Covers run R where
  beginLoad : ∀ w module modified, R w (w.beginLoad module modified)
  loaded : ∀ w module, R w (w.note (.loaded module))
  closeRecord : ∀ w module failure, R w (w.closeRecord module failure)
  settle : ∀ w, R w { w with disk := #[] }
  unwritten : ∀ w module e, R w (w.note (.unwritten module e))

namespace Spans

variable {run : Performer E} {R : World E → World E → Prop} (hR : Spans run R) {w w' : World E}

include hR

theorem evaluate (w : World E) (origin : Origin) (source : String) :
    R w (w.evaluate origin source).1 := by
  have hw : R w ((w.write origin.module .truncateLog).finishRun origin
      (E.load origin.module source)) :=
    hR.trans (hR.stride (.write w _ _)) (hR.stride (.script _ _ _))
  rcases hf : (E.load origin.module source).failure with _ | detail <;>
    simp only [World.evaluate, noteOutcome, hf]
  · exact hR.trans hw (hR.loaded ..)
  · exact hR.trans hw (hR.stride (.failed ..))

theorem reload (w : World E) (module source : String) (modified : FileTime) :
    R w (w.reload module modified source) := by
  have h := hR.trans (hR.beginLoad w module modified)
    (hR.evaluate (w.beginLoad module modified) ⟨w.nextId, module⟩ source)
  unfold World.reload
  rcases he : (w.beginLoad module modified).evaluate ⟨w.nextId, module⟩ source with ⟨v, _ | detail⟩
  · rw [he] at h
    have hs : R v (v.loadSucceeded module) :=
      hR.trans (hR.stride (.write v _ _)) (hR.stride (.notify ..))
    exact hR.trans (hR.trans h hs) (hR.closeRecord ..)
  · rw [he] at h
    have hs : R v (v.loadFailed module detail) :=
      hR.trans (hR.trans (hR.stride (.notify v _)) (hR.stride (.write ..))) (hR.stride (.notify ..))
    exact hR.trans (hR.trans h hs) (hR.closeRecord ..)

theorem readFailed (w : World E) (module source : String) : R w (w.readFailed module source) :=
  hR.trans (hR.trans (hR.stride (.failed w _ _)) (hR.stride (.write ..))) (hR.stride (.notify ..))

/-! ## Sites -/

variable {s s' : Site E}

theorem settleSite (s : Site E) : R s.world s.settle.world := by
  refine Site.settle_keeps (P := fun t => R s.world t.world) (hR.settle s.world) ?_
  intro t change _ h
  rcases t.makeChange_cases change with ⟨files, -, ht⟩ | ⟨e, ht⟩
  · rwa [ht]
  · rw [ht]
    exact hR.trans h (hR.unwritten ..)

theorem reloadSite (s : Site E) (name source : String) (modified : FileTime) :
    R s.world (s.reload name modified source).world := by
  rw [Site.reload_eq]
  exact hR.trans (hR.reload s.world name source modified)
    (hR.settleSite { s with world := s.world.reload name modified source })

theorem readFailedSite (s : Site E) (name : String) (e : FileError) :
    R s.world (s.readFailed name e).world := by
  rw [Site.readFailed_eq]
  exact hR.trans (hR.readFailed s.world name e.message)
    (hR.settleSite { s with world := s.world.readFailed name e.message })

theorem scan (s : Site E) : R s.world s.scan.1.world := by
  have h := s.scanned
  generalize s.scan = r at h
  cases h with
  | visited names _ _ _ =>
    refine Site.visitAll_keeps (P := fun t => R s.world t.world) (s := s.opened)
      (hR.refl s.world) fun t name _ h => ?_
    exact Site.visit_keeps (P := fun t => R s.world t.world) h
      (fun e => hR.trans h (hR.readFailedSite t name e))
      fun modified source => hR.trans h (hR.reloadSite t name source modified)
  | _ => exact hR.refl s.world

end Spans

/-- What spans the calls of all depths and a change of the clock spans every step. -/
theorem Spans.step {R : World E → World E → Prop} (hR : ∀ fuel, Spans (perform fuel) R)
    (hclock : ∀ w c, R w { w with clock := c }) {s s' : Site E} (h : Site.Step L C s s') :
    R s.world s'.world := by
  cases h with
  | change => exact (hR 0).refl s.world
  | clock c => exact hclock s.world c
  | scan => exact (hR 0).scan s
  | reload name modified source => exact (hR 0).reloadSite s name source modified
  | act fuel a r _ h =>
    obtain ⟨w, h₁, rfl⟩ := Site.act_inv h
    exact (hR fuel).trans ((hR fuel).stride (.nested a r h₁))
      ((hR fuel).settleSite { s with world := w })
  | dispatch fuel module event n h =>
    obtain ⟨w, h₁, rfl⟩ := Site.dispatch_inv h
    exact (hR fuel).trans ((hR fuel).dispatch h₁) ((hR fuel).settleSite { s with world := w })
  | checkSpawns fuel owner keys h =>
    obtain ⟨w, h₁, rfl⟩ := Site.checkSpawns_inv h
    exact (hR fuel).trans ((hR fuel).strides (spawnCheck_strides h₁))
      ((hR fuel).settleSite { s with world := w })

end World

end LiveModules
