import LiveModules.Proofs.Drives
import LiveModules.Proofs.Turns

/-!
# Runs of a site

A run is a sequence of steps from a start: somebody changes the files, time passes, a scan, a load
of a given text, an action, a dispatch to one surface, a check of spawn rules. Every run of a site
is a sequence of passes of its world (`Site.Run.passes`).
-/

namespace LiveModules

open Relation (ReflTransGen)

attribute [local irreducible] lastOf

variable {E : Engine}

/-- A language whose texts and functions are known by what they ask for and how they end. -/
def Engine.ofRuns (text : String → List (Request Nat) × Option String)
    (function : Nat → List (Request Nat) × Option String) : Engine where
  State := Unit
  Callback := Nat
  load _ source := ⟨(text source).1, (text source).2, ()⟩
  call _ callback _ := ⟨(function callback).1, (function callback).2, ()⟩

namespace Site

/-- A site where nothing has happened yet. -/
def start (root : String) (files : FileTree) (extension : Option String) : Site E :=
  ⟨(World.empty root).attachRelay, files, extension, false⟩

/-- The site when a scan begins to look at names. -/
def opened (s : Site E) : Site E := { s with scanning := true }.openDirs.1

theorem opened_files (s : Site E) :
    s.opened.files = (Artifacts.ensureDirs s.files s.world.root).1 := by
  rw [opened, openDirs]

theorem visitAll_cons_fst (s : Site E) (name : String) (rest : List String) :
    (s.visitAll (name :: rest)).1 = ((s.visit name).1.visitAll rest).1 := by
  rw [visitAll]

/-- A scan looks at `name`. -/
def Sees (s : Site E) (name : String) : Prop :=
  ∃ names, s.opened.moduleNames = .ok names ∧ name ∈ names

/-- What a scan comes to. -/
inductive Scanned (s : Site E) : Site E × Except HostError ScanReport → Prop
  | skipped : s.scanning = true → Scanned s (s, .ok { ScanReport.empty with skipped := true })
  | noRoot (e : HostError) : s.scanning = false → Scanned s (s, .error e)
  | stopped (e : HostError) : s.scanning = false → s.rootIsDir = true →
      Scanned s ({ s.opened with scanning := false }, .error e)
  | visited (names : List String) : s.scanning = false → s.rootIsDir = true →
      s.opened.moduleNames = .ok names →
      Scanned s ({ (s.opened.visitAll names).1 with scanning := false },
        .ok (report (s.opened.visitAll names).1.world.records.keys
          (s.opened.visitAll names).2))

theorem scanned (s : Site E) : Scanned s s.scan := by
  unfold scan
  split
  · rename_i h
    exact .skipped h
  · rename_i h
    have hs : s.scanning = false := by simpa using h
    have hself : { s with scanning := false } = s := by rw [← hs]
    simp only [scanNow]
    split
    · rw [hself]
      exact .noRoot _ hs
    · rename_i hdir
      have hdir : s.rootIsDir = true := by simpa [rootIsDir] using hdir
      split
      · rename_i s₁ e ho
        have : s₁ = s.opened := (congrArg Prod.fst ho).symm
        subst this
        exact .stopped e hs hdir
      · rename_i s₁ ho
        have : s₁ = s.opened := (congrArg Prod.fst ho).symm
        subst this
        split
        · exact .stopped _ hs hdir
        · rename_i names hn
          exact .visited names hs hdir hn

/-- One step of a run: `C` says how others may change the files. -/
inductive Step (L : Licence) (C : FileTree → FileTree → Prop) : Site E → Site E → Prop
  | change (s) (files : FileTree) : C s.files files → Step L C s { s with files }
  | clock (s) (c : Clock) : Step L C s { s with world := { s.world with clock := c } }
  | scan (s) : (∀ name, s.Sees name → L.module name) → Step L C s s.scan.1
  | reload (s) (name : String) (modified : FileTime) (source : String) : L.module name →
      Step L C s (s.reload name modified source)
  | act {s s'} (fuel : Nat) (a : Action) (r : Answer) : L.action a →
      s.act fuel a = some (s', r) → Step L C s s'
  | dispatch {s s'} (fuel : Nat) (module : String) (event : GameEvent) (n : Nat) :
      s.dispatch fuel module event = some (s', n) → Step L C s s'
  | checkSpawns {s s'} (fuel : Nat) (owner : String) (keys : List SpawnKey) :
      s.checkSpawns fuel owner = some (s', keys) → Step L C s s'

/-- A run from a start. -/
def Run (L : Licence) (C : FileTree → FileTree → Prop) (s₀ s : Site E) : Prop :=
  (∃ root files extension, s₀ = start root files extension) ∧ ReflTransGen (Step L C) s₀ s

variable {L : Licence} {C : FileTree → FileTree → Prop} {s s' s₀ : Site E}

/-! ## What each part of a scan keeps, the scan keeps -/

/-- A change of files is made, or it is noted that it was not possible. -/
theorem makeChange_cases (s : Site E) (change : String × ArtifactWrite) :
    (∃ files, Artifacts.make s.files s.world.root change.1 change.2 = .ok files ∧
      s.makeChange change = { s with files }) ∨
    ∃ e, s.makeChange change = { s with world := s.world.note (.unwritten change.1 e) } := by
  simp only [makeChange]
  split
  · rename_i files hm
    exact .inl ⟨files, hm, rfl⟩
  · rename_i e _
    exact .inr ⟨e, rfl⟩

theorem makeChanges_keep {P : Site E → Prop} {changes : List (String × ArtifactWrite)} (h : P s)
    (hstep : ∀ t, ∀ change ∈ changes, P t → P (t.makeChange change)) :
    P (changes.foldl makeChange s) :=
  List.foldlRecOn changes makeChange h fun t ht change hc => hstep t change hc ht

theorem settle_keeps {P : Site E → Prop}
    (h : P { s with world := { s.world with disk := #[] } })
    (hstep : ∀ t, ∀ change ∈ s.world.disk.toList, P t → P (t.makeChange change)) :
    P s.settle := by
  unfold settle
  rw [← Array.foldl_toList]
  exact makeChanges_keep h hstep

/-- To look at a name does nothing, reports a file that could not be read, or loads a module. -/
theorem visit_keeps {P : Site E → Prop} {name : String} (h : P s)
    (hf : ∀ e, P (s.readFailed name e))
    (hr : ∀ modified source, P (s.reload name modified source)) : P (s.visit name).1 := by
  unfold visit
  split
  · exact hf _
  · exact h
  · split
    · unfold readAndReload
      split
      · exact hf _
      · exact hr _ _
    · exact h

theorem visitAll_keeps {P : Site E → Prop} : ∀ {names : List String} {s : Site E}, P s →
    (∀ t, ∀ name ∈ names, P t → P (t.visit name).1) → P (s.visitAll names).1
  | [], _, h, _ => h
  | name :: rest, s, h, hstep => by
    rw [visitAll_cons_fst]
    exact visitAll_keeps (hstep s name List.mem_cons_self h) fun t n hn =>
      hstep t n (List.mem_cons_of_mem _ hn)

/-! ## Runs are passes of the world -/

theorem makeChange_passes (s : Site E) (change : String × ArtifactWrite) :
    Passes L s.world (s.makeChange change).world := by
  rcases s.makeChange_cases change with ⟨files, -, h⟩ | ⟨e, h⟩
  · rw [h]
  · rw [h]
    exact .single (.unwritten s.world _ _)

theorem settle_passes (s : Site E) : Passes L s.world s.settle.world :=
  settle_keeps (P := fun t => Passes L s.world t.world) (.single (.settle s.world))
    fun t change _ h => h.trans (makeChange_passes t change)

theorem readFailed_passes {name : String} {e : FileError} (hn : L.module name) :
    Passes L s.world (s.readFailed name e).world := by
  rw [readFailed_eq]
  exact (World.readFailed_turns hn).passes.trans
    (settle_passes { s with world := s.world.readFailed name e.message })

theorem reload_passes {name source : String} {modified : FileTime} (hn : L.module name) :
    Passes L s.world (s.reload name modified source).world := by
  rw [reload_eq]
  exact (World.reload_turns hn).passes.trans
    (settle_passes { s with world := s.world.reload name modified source })

theorem visit_passes {name : String} (hn : L.module name) :
    Passes L s.world (s.visit name).1.world :=
  visit_keeps (P := fun t => Passes L s.world t.world) .refl (fun _ => readFailed_passes hn)
    fun _ _ => reload_passes hn

theorem visitAll_passes {names : List String} (hn : ∀ name ∈ names, L.module name) :
    Passes L s.world (s.visitAll names).1.world :=
  visitAll_keeps (P := fun t => Passes L s.world t.world) .refl
    fun _ name hm h => h.trans (visit_passes (hn name hm))

theorem scan_passes (hn : ∀ name, s.Sees name → L.module name) :
    Passes L s.world s.scan.1.world := by
  have h := s.scanned
  generalize s.scan = r at h
  cases h with
  | visited names _ _ hs =>
    exact visitAll_passes (s := s.opened) fun name hm => hn name ⟨names, hs, hm⟩
  | _ => exact .refl

theorem Step.passes (h : Step L C s s') (hw : s.world.Licensed L) :
    Passes L s.world s'.world := by
  cases h with
  | change => exact .refl
  | clock c => exact .single (.clock s.world c)
  | scan hn => exact scan_passes hn
  | reload name modified source hn => exact reload_passes hn
  | act fuel a r ha h =>
    obtain ⟨w, h₁, rfl⟩ := act_inv h
    exact (perform_moves fuel ha hw h₁).turns.passes.trans (settle_passes { s with world := w })
  | dispatch fuel module event n h =>
    obtain ⟨w, h₁, rfl⟩ := dispatch_inv h
    exact (World.dispatch_moves (perform_moves fuel) hw h₁).turns.passes.trans
      (settle_passes { s with world := w })
  | checkSpawns fuel owner keys h =>
    obtain ⟨w, h₁, rfl⟩ := checkSpawns_inv h
    exact (World.spawnCheck_moves (perform_moves fuel) hw h₁).turns.passes.trans
      (settle_passes { s with world := w })

theorem start_licensed (root : String) (files : FileTree) (extension : Option String) :
    (start root files extension : Site E).world.Licensed L where
  listeners := by
    intro key m hm
    rw [List.mem_singleton.1 hm]
    trivial
  subscribers := by
    intro place key m hm
    cases place <;> cases hm
  commands := by
    intro key c hc
    cases hc
  tasks := by
    intro t ht
    cases ht
  numbered := by
    refine ⟨fun place key m hm => ?_, fun place key key' m hm => ?_⟩ <;>
    · cases place <;> cases hm

/-- What every step keeps, from a start on, holds at the end of a run; each step begins in a world
that is licensed. -/
theorem Run.induction {P : Site E → Prop} (h : Run L C s₀ s)
    (h₀ : ∀ root files extension, s₀ = start root files extension → P s₀)
    (hs : ∀ s s', s.world.Licensed L → P s → Step L C s s' → P s') : P s := by
  obtain ⟨⟨root, files, extension, rfl⟩, h⟩ := h
  suffices s.world.Licensed L ∧ P s from this.2
  induction h with
  | refl => exact ⟨start_licensed root files extension, h₀ _ _ _ rfl⟩
  | tail _ h ih => exact ⟨(h.passes ih.1).licensed ih.1, hs _ _ ih.1 ih.2 h⟩

theorem Run.tail (h : Run L C s₀ s) (hs : Step L C s s') : Run L C s₀ s' := ⟨h.1, h.2.tail hs⟩

theorem Run.refl (root : String) (files : FileTree) (extension : Option String) :
    Run L C (start root files extension : Site E) (start root files extension) :=
  ⟨⟨root, files, extension, rfl⟩, .refl⟩

/-- Performs actions in turn. -/
def actAll (fuel : Nat) (s : Site E) : List Action → Option (Site E)
  | [] => some s
  | a :: rest => (s.act fuel a).bind fun r => r.1.actAll fuel rest

theorem Run.actAll {fuel : Nat} : ∀ {actions : List Action} {s : Site E}, Run L C s₀ s →
    (∀ a ∈ actions, L.action a) → s.actAll fuel actions = some s' → Run L C s₀ s'
  | [], s, h, _, hs => Option.some.inj hs ▸ h
  | a :: rest, s, h, ha, hs => by
    obtain ⟨⟨s₁, r⟩, h₁, hs⟩ := Option.bind_eq_some_iff.1 hs
    have h₂ := h.tail (.act fuel a r (ha a List.mem_cons_self) h₁)
    exact h₂.actAll (fun b hb => ha b (List.mem_cons_of_mem _ hb)) hs

theorem Run.passes (h : Run L C s₀ s) : Passes L s₀.world s.world :=
  h.induction (P := fun s => Passes L s₀.world s.world) (fun _ _ _ _ => .refl)
    fun _ _ hw ih hs => ih.trans (hs.passes hw)

/-- Every world that is passed through from the start of a run is licensed. -/
theorem Run.licensed (h : Run L C s₀ s) {w : World E} (hw : Passes L s₀.world w) :
    w.Licensed L := by
  obtain ⟨⟨root, files, extension, rfl⟩, -⟩ := h
  exact hw.licensed (start_licensed root files extension)

/-- What every pass of a licensed world keeps, from the start on, holds of every world that is
passed through. -/
theorem Run.passed_induction {P : World E → Prop} (h : Run L C s₀ s)
    (h₀ : ∀ root, P (World.empty root : World E).attachRelay)
    (ht : ∀ w w', w.Licensed L → P w → Pass L w w' → P w') {w : World E}
    (hw : Passes L s₀.world w) : P w := by
  obtain ⟨⟨root, files, extension, rfl⟩, -⟩ := h
  exact hw.induction (start_licensed root files extension) (h₀ root) ht

/-- What every pass of a licensed world keeps, from the start on, holds of the world that a run
reaches. -/
theorem Run.world_induction {P : World E → Prop} (h : Run L C s₀ s)
    (h₀ : ∀ root, P (World.empty root : World E).attachRelay)
    (ht : ∀ w w', w.Licensed L → P w → Pass L w w' → P w') : P s.world :=
  h.passed_induction h₀ ht h.passes

end Site

end LiveModules
