import LiveModules.Proofs.Loads

/-!
# Worlds without what was said

Nothing that a scan does looks at the notices or at the journal (`reload_deaf`), so two worlds that
differ in these only are told apart by no load. What a load or a file that cannot be read adds to
the notices is a matter of the module alone (`reload_adds`, `readFailed_adds`).
-/

namespace LiveModules

attribute [local irreducible] lastOf

variable {E : Engine}

namespace World

variable {u v w w' : World E} {ns ns' : List Notice}

/-- The world without its notices and its journal. -/
def hush (w : World E) : World E :=
  { w with
    journal := #[]
    game := { w.game with history := .empty, bus := .empty } }

/-- `f` looks neither at the notices nor at the journal. -/
def Deaf (f : World E → World E) : Prop := ∀ w, (f w).hush = (f w.hush).hush

theorem Deaf.congr {f : World E → World E} (hf : Deaf f) (h : w'.hush = w.hush) :
    (f w').hush = (f w).hush := by
  rw [hf w', h, ← hf w]

theorem Deaf.comp {f g : World E → World E} (hf : Deaf f) (hg : Deaf g) :
    Deaf fun w => f (g w) := fun w => hf.congr (hg w)

theorem grant_deaf (origin : Origin) (r : Request E.Callback) :
    Deaf fun w : World E => w.grant origin r := by
  intro w
  cases r with
  | handler key callback =>
    have hcurrent : w.hush.isCurrent origin = w.isCurrent origin := rfl
    simp only [grant, subscribeScript, hcurrent]
    split <;> rfl
  | _ => rfl

theorem grantAll_deaf (origin : Origin) : ∀ requests : List (Request E.Callback),
    Deaf fun w : World E => w.grantAll origin requests
  | [] => fun _ => rfl
  | r :: requests => (grantAll_deaf origin requests).comp (grant_deaf origin r)

theorem finishRun_deaf (origin : Origin) (r : Run E.State E.Callback) :
    Deaf fun w : World E => w.finishRun origin r :=
  (grantAll_deaf origin r.requests).comp
    (g := fun w => { w with states := w.states.insert origin.surface r.state }) fun _ => rfl

theorem conclude_deaf (module : String) (failure : Option String) :
    Deaf fun w : World E => w.conclude module failure := by
  cases failure <;> exact fun _ => rfl

theorem reload_deaf (module : String) (modified : FileTime) (source : String) :
    Deaf fun w : World E => w.reload module modified source := by
  intro w
  have hrun : (w.afterRun module modified source).hush =
      (w.hush.afterRun module modified source).hush :=
    (finishRun_deaf ⟨w.nextId, module⟩ (E.load module source)).congr rfl
  simp only [reload_eq]
  exact (conclude_deaf module _).congr hrun

theorem readFailed_deaf (module source : String) :
    Deaf fun w : World E => w.readFailed module source := fun _ => rfl

/-- The notices `ns` came between `w` and `w'`. -/
structure Adds (ns : List Notice) (w w' : World E) : Prop where
  history : w'.game.history = ns.foldl .push w.game.history
  bus : w'.game.bus = ns.foldl .publish w.game.bus

namespace Adds

theorem of_eq (h : w'.game = w.game) : Adds [] w w' := ⟨by rw [h]; rfl, by rw [h]; rfl⟩

theorem trans (h : Adds ns u v) (h' : Adds ns' v w) : Adds (ns ++ ns') u w :=
  ⟨by rw [h'.history, h.history, List.foldl_append], by rw [h'.bus, h.bus, List.foldl_append]⟩

end Adds

theorem reload_adds (w : World E) (module : String) (modified : FileTime) (source : String) :
    Adds ((E.load module source).notices module) w (w.reload module modified source) :=
  ⟨reload_notices.1, reload_notices.2⟩

theorem readFailed_adds (w : World E) (module source : String) :
    Adds [loadError module (HostError.moduleRead module source).message] w
      (w.readFailed module source) := ⟨rfl, rfl⟩

end World

namespace Site

theorem settle_hush (s : Site E) : s.settle.world.hush = { s.world.hush with disk := #[] } := by
  obtain ⟨journal, h⟩ := s.settle_world
  rw [h]
  rfl

theorem settle_adds {w : World E} {ns : List Notice} {s : Site E} (h : World.Adds ns w s.world) :
    World.Adds ns w s.settle.world := by
  obtain ⟨journal, hs⟩ := s.settle_world
  rw [hs]
  exact ⟨h.history, h.bus⟩

theorem reload_adds (s : Site E) (name : String) (modified : FileTime) (source : String) :
    World.Adds ((E.load name source).notices name) s.world
      (s.reload name modified source).world := by
  rw [reload_eq]
  exact settle_adds (World.reload_adds ..)

theorem readFailed_adds (s : Site E) (name : String) (e : FileError) :
    World.Adds [World.loadError name (HostError.moduleRead name e.message).message] s.world
      (s.readFailed name e).world := by
  rw [readFailed_eq]
  exact settle_adds (World.readFailed_adds ..)

end Site

end LiveModules
