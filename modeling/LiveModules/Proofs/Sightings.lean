import LiveModules.Proofs.Reloads
import LiveModules.Proofs.Runs
import LiveModules.Proofs.Walks

/-!
# Which scans load a module

A scan loads a module exactly if it finds its file, as a text that can be read, with another time of
modification than the module was last loaded with (`scan_loads`); any other scan leaves the module
untouched (`scan_untouched`). What carries this is that a scan comes to each name once at most.
-/

namespace LiveModules

open World Artifacts

attribute [local irreducible] lastOf

namespace Site

variable {E : Engine} {s : Site E} {name : String}

/-- The time of modification of the file of a module, if it is a text that can be read. -/
def text? (s : Site E) (name : String) : Option FileTime :=
  match s.stat name, s.readText name with
  | .ok (.file modified), .ok _ => some modified
  | _, _ => none

/-- The site when a scan that looks at `names` comes to `name`. -/
def turnOf (s : Site E) (names : List String) (name : String) : Site E :=
  (s.opened.visitAll (names.takeWhile (· ≠ name))).1

/-- The time of modification with which a scan finds the file of a module: none if the scan fails or
is skipped, or if the name is not in the directory or does not lead to a text that can be read. -/
def sighting (s : Site E) (name : String) : Option FileTime :=
  match s.scan.2, s.opened.moduleNames with
  | .ok report, .ok names =>
    if report.skipped = true ∨ name ∉ names then none else (s.turnOf names name).text? name
  | _, _ => none

/-! ## One scan -/

theorem settle_untouched (s : Site E) : Untouched name s.world s.settle.world :=
  settle_keeps (P := fun t => Untouched name s.world t.world) (.of_eq rfl rfl rfl)
    fun t change _ h => by
      rcases t.makeChange_cases change with ⟨files, -, ht⟩ | ⟨e, ht⟩ <;> rw [ht]
      · exact h
      · exact h.trans (.note _ fun _ _ => Entry.noConfusion)

theorem readFailed_untouched (module : String) (e : FileError) :
    Untouched name s.world (s.readFailed module e).world := by
  rw [readFailed_eq]
  exact (World.readFailed_untouched module e.message).trans
    (settle_untouched { s with world := s.world.readFailed module e.message })

/-- Once the world has loaded a module, the site only makes its changes of files. -/
theorem untouched_reload (s : Site E) (module : String) (modified : FileTime) (source : String) :
    Untouched name (s.world.reload module modified source)
      (s.reload module modified source).world := by
  rw [reload_eq]
  exact settle_untouched { s with world := s.world.reload module modified source }

/-- To look at a name loads its module, or touches no module at all. -/
theorem visit_cases (s : Site E) (module : String) :
    ((∀ name, Untouched name s.world (s.visit module).1.world) ∧
      (s.text? module = none ∨ s.text? module = s.world.modified? module)) ∨
    ∃ modified source, s.text? module = some modified ∧
      s.world.modified? module ≠ some modified ∧
      (s.visit module).1 = s.reload module modified source := by
  unfold visit text?
  rcases s.stat module with e | modified | _
  · exact .inl ⟨fun _ => readFailed_untouched module e, .inl rfl⟩
  · dsimp only
    by_cases hr : s.world.needsReload module modified = true
    · rw [if_pos hr]
      unfold readAndReload
      rcases s.readText module with e | source
      · exact .inl ⟨fun _ => readFailed_untouched module e, .inl rfl⟩
      · exact .inr ⟨modified, source, rfl, World.needsReload_iff.1 hr, rfl⟩
    · rw [if_neg hr]
      refine .inl ⟨fun _ => .refl _, ?_⟩
      have hm : s.world.modified? module = some modified := by
        rwa [World.needsReload_iff, not_not] at hr
      rcases s.readText module with e | source
      · exact .inl rfl
      · exact .inr hm.symm
  · exact .inl ⟨fun _ => .refl _, .inl rfl⟩

theorem visit_untouched {module : String} (hn : name ≠ module) :
    Untouched name s.world (s.visit module).1.world := by
  rcases s.visit_cases module with ⟨h, -⟩ | ⟨modified, source, -, -, h⟩
  · exact h name
  · rw [h]
    exact (World.reload_untouched hn modified source).trans
      (s.untouched_reload module modified source)

theorem visitAll_untouched {names : List String} (hn : name ∉ names) :
    Untouched name s.world (s.visitAll names).1.world :=
  visitAll_keeps (P := fun t => Untouched name s.world t.world) (.refl _) fun _ _ hm h =>
    h.trans (visit_untouched fun he => hn (he ▸ hm))

theorem visitAll_append : ∀ (a : List String) {b : List String} {s : Site E},
    (s.visitAll (a ++ b)).1 = ((s.visitAll a).1.visitAll b).1
  | [], _, _ => rfl
  | name :: a, b, s => by
    rw [List.cons_append, visitAll_cons_fst, visitAll_cons_fst, visitAll_append a]

/-- The names of a directory that a scan looks at, each once. -/
theorem moduleNames_nodup {names : List String} (h : s.moduleNames = .ok names) : names.Nodup := by
  obtain ⟨path, -, h⟩ := Except.bind_eq_ok_iff.1 h
  obtain ⟨listed, hl, h⟩ := Except.bind_eq_ok_iff.1 h
  rw [← Except.ok.inj h, (List.mergeSort_perm _ _).nodup_iff]
  refine List.Nodup.filter _ ?_
  obtain ⟨place, -, hl⟩ := Except.bind_eq_ok_iff.1 hl
  split at hl
  · rw [← Except.ok.inj hl]
    refine List.Nodup.filterMap (fun p p' n hp hp' => ?_) (Table.keys_nodup _)
    simp only [Option.mem_def, Option.ite_none_right_eq_some] at hp hp'
    rw [← List.dropLast_append_getLast? n hp.2, ← List.dropLast_append_getLast? n hp'.2, hp.1,
      hp'.1]
  · cases hl
  · cases hl

/-- A name that is listed once has names before it and names behind it. -/
theorem split_names {names : List String} (hd : names.Nodup) (hn : name ∈ names) :
    ∃ before after, names = before ++ name :: after ∧ name ∉ before ∧ name ∉ after := by
  obtain ⟨before, after, rfl⟩ := List.append_of_mem hn
  obtain ⟨hnot, -⟩ := List.nodup_cons.1 (List.nodup_middle.1 hd)
  rw [List.mem_append, not_or] at hnot
  exact ⟨before, after, rfl, hnot⟩

theorem takeWhile_ne {before rest : List String} (hn : name ∉ before) :
    (before ++ name :: rest).takeWhile (· ≠ name) = before := by
  rw [List.takeWhile_append_of_pos, List.takeWhile_cons_of_neg (by simp), List.append_nil]
  exact fun m hm => decide_eq_true fun he => hn (he ▸ hm)

/-- A scan looks at each name once: before and after its turn, a module is untouched. -/
theorem visitAll_of_mem {names : List String} (hd : names.Nodup) (hn : name ∈ names) :
    ∃ rest, name ∉ rest ∧ Untouched name s.world (s.turnOf names name).world ∧
      (s.opened.visitAll names).1 = (((s.turnOf names name).visit name).1.visitAll rest).1 := by
  obtain ⟨before, rest, rfl, hbefore, hrest⟩ := split_names hd hn
  have hturn : (before ++ name :: rest).takeWhile (· ≠ name) = before := takeWhile_ne hbefore
  refine ⟨rest, hrest, ?_, ?_⟩
  · rw [turnOf, hturn]
    exact visitAll_untouched (s := s.opened) hbefore
  · rw [turnOf, hturn, visitAll_append, visitAll_cons_fst]

/-- A scan comes to a name once, or it finds no file for it and leaves its module untouched. -/
theorem scan_cases (s : Site E) (name : String) :
    (s.sighting name = none ∧ Untouched name s.world s.scan.1.world) ∨
    ∃ names rest, name ∉ rest ∧ Untouched name s.world (s.turnOf names name).world ∧
      s.sighting name = (s.turnOf names name).text? name ∧
      s.scan.1.world = (((s.turnOf names name).visit name).1.visitAll rest).1.world := by
  unfold sighting
  have hs := s.scanned
  generalize s.scan = r at hs
  cases hs with
  | skipped =>
    refine .inl ⟨?_, .refl _⟩
    split
    · rename_i report _ hr _
      cases hr
      rfl
    · rfl
  | noRoot | stopped => exact .inl ⟨rfl, .refl _⟩
  | visited names _ _ hnames =>
    rw [hnames]
    dsimp only
    by_cases hn : name ∈ names
    · obtain ⟨rest, hrest, hturn, hv⟩ := visitAll_of_mem (moduleNames_nodup hnames) hn
      refine .inr ⟨names, rest, hrest, hturn, if_neg ?_, by rw [hv]⟩
      rintro (h | h)
      · cases h
      · exact h hn
    · exact .inl ⟨if_pos (.inr hn), visitAll_untouched (s := s.opened) hn⟩

/-- A scan that finds no version of a file other than the recorded one leaves its module
untouched. -/
theorem scan_untouched (h : s.sighting name = none ∨ s.sighting name = s.world.modified? name) :
    Untouched name s.world s.scan.1.world := by
  rcases s.scan_cases name with ⟨-, hu⟩ | ⟨names, rest, hrest, hu, hs, hw⟩
  · exact hu
  rw [hs, ← hu.modified?_eq] at h
  rw [hw]
  refine (hu.trans ?_).trans (visitAll_untouched hrest)
  rcases (s.turnOf names name).visit_cases name with ⟨hv, -⟩ | ⟨modified, source, ht, hm, -⟩
  · exact hv name
  · rw [ht] at h
    exact absurd h.symm (not_or.2 ⟨fun h => hm h.symm, nofun⟩)

/-- A scan that finds another version of a file than the recorded one loads its module once. -/
theorem scan_loads {modified : FileTime} (h : s.sighting name = some modified)
    (hm : s.world.modified? name ≠ some modified) :
    s.scan.1.world.modified? name = some modified ∧
      s.scan.1.world.generation name = s.world.generation name + 1 := by
  rcases s.scan_cases name with ⟨hn, -⟩ | ⟨names, rest, hrest, hu, hs, hw⟩
  · rw [hn] at h
    cases h
  rw [hs] at h
  rw [← hu.modified?_eq] at hm
  rcases (s.turnOf names name).visit_cases name with ⟨-, ht | ht⟩ | ⟨modified', source, ht, -, hv⟩
  · rw [h] at ht
    cases ht
  · exact absurd (ht.symm.trans h) hm
  · cases ht.symm.trans h
    rw [hv] at hw
    -- the names behind this one leave alone what the load made of the record
    have hafter : Untouched name ((s.turnOf names name).world.reload name modified source)
        s.scan.1.world := by
      rw [hw]
      exact ((s.turnOf names name).untouched_reload name modified source).trans
        (visitAll_untouched hrest)
    obtain ⟨hr, hg⟩ := (s.turnOf names name).world.reload_record name modified source
    rw [hafter.modified?_eq, hafter.generation_eq, hr, hg, hu.generation_eq]
    exact ⟨rfl, rfl⟩

/-- After a scan, a module was last loaded from what the scan found, if it found anything. -/
theorem scan_modified? (s : Site E) (name : String) :
    s.sighting name = none ∨ s.sighting name = s.scan.1.world.modified? name := by
  rcases hs : s.sighting name with _ | modified
  · exact .inl rfl
  · by_cases hm : s.world.modified? name = some modified
    · rw [(scan_untouched (.inr (hs.trans hm.symm))).modified?_eq, hm]
      exact .inr rfl
    · rw [(scan_loads hs hm).1]
      exact .inr rfl

/-! ## Many scans -/

/-- How many of the times that scans find differ from the one found before them, `last` being the
one before the first. -/
def loads (last : Option FileTime) : List (Option FileTime) → Nat
  | [] => 0
  | none :: rest => loads last rest
  | some modified :: rest =>
    if last = some modified then loads last rest else loads (some modified) rest + 1

/-- Scans, each after somebody has put the files in some state. -/
def rescan (s : Site E) : List FileTree → Site E
  | [] => s
  | files :: rest => { s with files }.scan.1.rescan rest

/-- What each of these scans finds for a name. -/
def sightings (s : Site E) (name : String) : List FileTree → List (Option FileTime)
  | [] => []
  | files :: rest => { s with files }.sighting name :: { s with files }.scan.1.sightings name rest

/-- Scans that find nothing but the recorded version of a file leave its module untouched. -/
theorem rescan_untouched : ∀ {trees : List FileTree} {s : Site E},
    (∀ found ∈ s.sightings name trees, found = none ∨ found = s.world.modified? name) →
    Untouched name s.world (s.rescan trees).world
  | [], _, _ => .refl _
  | files :: rest, s, h => by
    have hu := scan_untouched (s := { s with files }) (h _ List.mem_cons_self)
    refine hu.trans (rescan_untouched fun found hm => ?_)
    rw [hu.modified?_eq]
    exact h found (List.mem_cons_of_mem _ hm)

/-- The number of loads is the number of scans that found a version of the file other than the one
before it. -/
theorem generation_rescan : ∀ (trees : List FileTree) (s : Site E),
    (s.rescan trees).world.generation name =
      s.world.generation name + loads (s.world.modified? name) (s.sightings name trees)
  | [], _ => rfl
  | files :: rest, s => by
    rw [rescan, generation_rescan rest, sightings]
    rcases hs : { s with files }.sighting name with _ | modified <;> rw [hs]
    · have hu := scan_untouched (s := { s with files }) (.inl hs)
      simp only [loads, hu.generation_eq, hu.modified?_eq]
    · simp only [loads]
      by_cases hm : s.world.modified? name = some modified
      · have hu := scan_untouched (s := { s with files }) (.inr (hs.trans hm.symm))
        rw [if_pos hm, hu.generation_eq, hu.modified?_eq]
      · obtain ⟨hr, hg⟩ := scan_loads hs hm
        rw [if_neg hm, hr, hg]
        exact Nat.add_right_comm ..

end Site

end LiveModules
