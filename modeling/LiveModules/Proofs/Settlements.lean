import LiveModules.Proofs.Runs

/-!
# Between settlements

A site settles after everything that its world goes through: an action, a file that could not be
read, or a load (`World.Stretch`). What is kept when a site settles and every change of files is
possible, and by all that happens otherwise, holds at the end of a run (`Site.Run.lasts`).
-/

namespace LiveModules

open Artifacts

attribute [local irreducible] lastOf

variable {E : Engine} {L : Licence} {C : FileTree → FileTree → Prop}

/-- What a world goes through before its site settles. -/
inductive World.Stretch (L : Licence) : World E → World E → Prop
  | moves {w w'} : Moves L w w' → Stretch L w w'
  | readFailed (w) (name source : String) : L.module name → Stretch L w (w.readFailed name source)
  | reload (w) (name : String) (modified : FileTime) (source : String) : L.module name →
      Stretch L w (w.reload name modified source)

theorem World.Stretch.turns {w w' : World E} (h : Stretch L w w') : Turns L w w' := by
  cases h with
  | moves h => exact h.turns
  | readFailed name source hn => exact readFailed_turns hn
  | reload name modified source hn => exact reload_turns hn

/-- The entry tells of a change of files that was not possible. -/
def Entry.isUnwritten : Entry → Bool
  | .unwritten .. => true
  | _ => false

namespace Site

variable {s s' s₀ : Site E} {P : Site E → Prop} {name : String} {names : List String}

/-- Every change of the files that tell of modules was possible. -/
def AllWritten (s : Site E) : Prop :=
  ∀ module e, .unwritten module e ∉ s.world.journal.toList

theorem AllWritten.of_passes (h : s'.AllWritten) (hp : Passes L s.world s'.world) : s.AllWritten :=
  fun module e he => h module e (hp.journal_grows.subset he)

theorem AllWritten.of_any (h : s.world.journal.toList.any Entry.isUnwritten = false) :
    s.AllWritten :=
  fun _ _ he => absurd rfl (List.any_eq_false.1 h _ he)

/-- Where every change is possible in the end, the first one was. -/
theorem AllWritten.made {change : String × ArtifactWrite} {changes : List (String × ArtifactWrite)}
    (h : (changes.foldl makeChange (s.makeChange change)).AllWritten) :
    ∃ files, make s.files s.world.root change.1 change.2 = .ok files ∧
      s.makeChange change = { s with files } := by
  rcases s.makeChange_cases change with hmade | ⟨e, hs⟩
  · exact hmade
  · -- what was not possible is noted, and the note stays to the end
    refine absurd ?_ (h change.1 e)
    have hp : Passes .all (s.makeChange change).world
        (changes.foldl makeChange (s.makeChange change)).world :=
      makeChanges_keep (P := fun t => Passes .all _ t.world) .refl
        fun t c _ h => h.trans (makeChange_passes t c)
    refine hp.journal_grows.subset ?_
    rw [hs]
    simp [World.note]

/-- `P` is kept as long as every change of files is possible. -/
structure Lasting (L : Licence) (C : FileTree → FileTree → Prop) (P : Site E → Prop) : Prop where
  change : ∀ {s files}, P s → C s.files files → P { s with files }
  clock : ∀ {s}, P s → ∀ clock, P { s with world := { s.world with clock } }
  mark : ∀ {s}, P s → ∀ scanning, P { s with scanning }
  opened : ∀ {s}, P s → s.rootIsDir = true → P s.opened
  settle : ∀ {s w}, P s → World.Stretch L s.world w → { s with world := w }.settle.AllWritten →
    P { s with world := w }.settle

namespace Lasting

variable (hP : Lasting L C P)

include hP

theorem visit (h : P s) (hn : L.module name) :
    (s.visit name).1.AllWritten → P (s.visit name).1 :=
  visit_keeps (P := fun t => t.AllWritten → P t) (fun _ => h)
    (fun e => by
      rw [readFailed_eq]
      exact hP.settle h (.readFailed s.world name _ hn))
    fun modified source => by
      rw [reload_eq]
      exact hP.settle h (.reload s.world name modified source hn)

theorem visitAll (h : P s) (hn : ∀ name ∈ names, L.module name) :
    (s.visitAll names).1.AllWritten → P (s.visitAll names).1 :=
  visitAll_keeps (P := fun t => t.AllWritten → P t) (fun _ => h)
    fun _ name hm ih hw =>
      hP.visit (ih (hw.of_passes (visit_passes (L := L) (hn name hm)))) (hn name hm) hw

theorem scan (h : P s) (hn : ∀ name, s.Sees name → L.module name) (hw : s.scan.1.AllWritten) :
    P s.scan.1 := by
  have hs := s.scanned
  generalize s.scan = r at hs hw
  cases hs with
  | skipped => exact h
  | noRoot => exact h
  | stopped e _ hd => exact hP.mark (hP.opened h hd) false
  | visited names _ hd hnames =>
    exact hP.mark (hP.visitAll (hP.opened h hd) (fun name hm => hn name ⟨names, hnames, hm⟩) hw)
      false

theorem step (hs : Step L C s s') (hl : s.world.Licensed L) (h : P s) (hw : s'.AllWritten) :
    P s' := by
  cases hs with
  | change files hc => exact hP.change h hc
  | clock c => exact hP.clock h c
  | scan hn => exact hP.scan h hn hw
  | reload name modified source hn =>
    rw [reload_eq] at hw ⊢
    exact hP.settle h (.reload s.world name modified source hn) hw
  | act fuel a r ha hs =>
    obtain ⟨w, h₁, rfl⟩ := act_inv hs
    exact hP.settle h (.moves (perform_moves fuel ha hl h₁)) hw
  | dispatch fuel module event n hs =>
    obtain ⟨w, h₁, rfl⟩ := dispatch_inv hs
    exact hP.settle h (.moves (World.dispatch_moves (perform_moves fuel) hl h₁)) hw
  | checkSpawns fuel owner keys hs =>
    obtain ⟨w, h₁, rfl⟩ := checkSpawns_inv hs
    exact hP.settle h (.moves (World.spawnCheck_moves (perform_moves fuel) hl h₁)) hw

end Lasting

/-- What is kept as long as every change of files is possible holds at the end of a run in which
every one was. -/
theorem Run.lasts (h : Run L C s₀ s) (hP : Lasting L C P) (h₀ : P s₀) (hw : s.AllWritten) : P s :=
  h.induction (P := fun s => s.AllWritten → P s) (fun _ _ _ _ _ => h₀)
    (fun _ _ hl ih hs hw => hP.step hs hl (ih (hw.of_passes (hs.passes hl))) hw) hw

end Site

end LiveModules
