import LiveModules.Proofs.ByteOrder
import LiveModules.Proofs.Loads
import LiveModules.Proofs.Rescans
import LiveModules.Proofs.Tellings

/-!
# What a scan reports

A scan comes to each name once, in the order of bytes, and what it makes of the name is a matter of
what is found then (`Finding`), of the version that is recorded, and of how the text is evaluated.
So the lists of a report are what they say (`scan_classifies`).
-/

namespace LiveModules

open World

attribute [local irreducible] lastOf

namespace Site

variable {E : Engine} {s t : Site E} {name : String} {names : List String} {v : Sighting}
  {recorded : Option FileTime}

/-! ## One name -/

/-- What is found under a name, `recorded` being the version that was loaded last. -/
inductive Finding (recorded : Option FileTime) (t : Site E) (name : String) : Sighting → Prop
  | noFile : t.stat name = .ok .dir → Finding recorded t name .passedOver
  | lost (e : FileError) : t.stat name = .error e → Finding recorded t name .failed
  | known (modified : FileTime) : t.stat name = .ok (.file modified) → recorded = some modified →
      Finding recorded t name .unchanged
  | unreadable (modified : FileTime) (e : FileError) : t.stat name = .ok (.file modified) →
      recorded ≠ some modified → t.readText name = .error e → Finding recorded t name .failed
  | broken (modified : FileTime) (source detail : String) :
      t.stat name = .ok (.file modified) → recorded ≠ some modified →
      t.readText name = .ok source → (E.load name source).failure = some detail →
      Finding recorded t name .failed
  | loaded (modified : FileTime) (source : String) :
      t.stat name = .ok (.file modified) → recorded ≠ some modified →
      t.readText name = .ok source → (E.load name source).failure = none →
      Finding recorded t name .reloaded

/-- A new version is found that can be read, so it is evaluated. -/
def Evaluates (recorded : Option FileTime) (t : Site E) (name : String) : Prop :=
  ∃ modified source, t.stat name = .ok (.file modified) ∧ recorded ≠ some modified ∧
    t.readText name = .ok source

theorem reload_stateOf (modified : FileTime) (source : String) :
    (s.reload name modified source).world.stateOf name = .active ↔
      (E.load name source).failure = none := by
  obtain ⟨journal, h⟩ := s.reload_world name modified source
  rw [h, World.stateOf, World.reload_records, if_pos rfl]
  cases (E.load name source).failure <;> simp [Record.close]

theorem visit_finding (t : Site E) (name : String) :
    Finding (t.world.modified? name) t name (t.visit name).2 := by
  unfold visit
  split
  · exact .lost _ ‹_›
  · exact .noFile ‹_›
  · rename_i modified hstat
    split
    · rename_i hnew
      have hnew := World.needsReload_iff.1 hnew
      unfold readAndReload
      split
      · exact .unreadable modified _ hstat hnew ‹_›
      · rename_i source hread
        dsimp only
        split
        · rename_i hactive
          exact .loaded modified source hstat hnew hread ((reload_stateOf ..).1 hactive)
        · rename_i hactive
          rw [reload_stateOf] at hactive
          obtain ⟨detail, hf⟩ := Option.ne_none_iff_exists'.1 hactive
          exact .broken modified source detail hstat hnew hread hf
    · rename_i hold
      rw [World.needsReload_iff, not_not] at hold
      exact .known modified hstat hold

theorem Finding.unique {v' : Sighting} (h : Finding recorded t name v)
    (h' : Finding recorded t name v') : v = v' := by
  cases h <;> cases h' <;> simp_all

theorem visit_eq_iff : (t.visit name).2 = v ↔ Finding (t.world.modified? name) t name v :=
  ⟨fun h => h ▸ t.visit_finding name, fun h => (t.visit_finding name).unique h⟩

theorem finding_passedOver : Finding recorded t name .passedOver ↔ t.stat name = .ok .dir :=
  ⟨fun h => by cases h; assumption, .noFile⟩

theorem finding_unchanged : Finding recorded t name .unchanged ↔
    ∃ modified, t.stat name = .ok (.file modified) ∧ recorded = some modified := by
  constructor
  · intro h
    cases h with
    | known modified hstat hold => exact ⟨modified, hstat, hold⟩
  · rintro ⟨modified, hstat, hold⟩
    exact .known modified hstat hold

theorem finding_failed : Finding recorded t name .failed ↔ (∃ e, t.stat name = .error e) ∨
    ∃ modified, t.stat name = .ok (.file modified) ∧ recorded ≠ some modified ∧
      ((∃ e, t.readText name = .error e) ∨
        ∃ source detail, t.readText name = .ok source ∧
          (E.load name source).failure = some detail) := by
  constructor
  · intro h
    cases h with
    | lost e hstat => exact .inl ⟨e, hstat⟩
    | unreadable modified e hstat hnew hread => exact .inr ⟨modified, hstat, hnew, .inl ⟨e, hread⟩⟩
    | broken modified source detail hstat hnew hread hf =>
      exact .inr ⟨modified, hstat, hnew, .inr ⟨source, detail, hread, hf⟩⟩
  · rintro (⟨e, hstat⟩ | ⟨modified, hstat, hnew, ⟨e, hread⟩ | ⟨source, detail, hread, hf⟩⟩)
    · exact .lost e hstat
    · exact .unreadable modified e hstat hnew hread
    · exact .broken modified source detail hstat hnew hread hf

theorem finding_reloaded : Finding recorded t name .reloaded ↔
    ∃ modified source, t.stat name = .ok (.file modified) ∧ recorded ≠ some modified ∧
      t.readText name = .ok source ∧ (E.load name source).failure = none := by
  constructor
  · intro h
    cases h with
    | loaded modified source hstat hnew hread hf => exact ⟨modified, source, hstat, hnew, hread, hf⟩
  · rintro ⟨modified, source, hstat, hnew, hread, hf⟩
    exact .loaded modified source hstat hnew hread hf

/-! ## All names in turn -/

theorem visitAll_names : ∀ (names : List String) (s : Site E),
    (s.visitAll names).2.map (·.1) = names
  | [], _ => rfl
  | name :: rest, _ => congrArg (name :: ·) (visitAll_names rest _)

theorem visitAll_cons_snd (s : Site E) (name : String) (rest : List String) :
    (s.visitAll (name :: rest)).2 =
      (name, (s.visit name).2) :: ((s.visit name).1.visitAll rest).2 := (rfl)

/-- What is made of a name, if each name is looked at once, is made of it in its turn. -/
theorem mem_visitAll : ∀ {names : List String} {s : Site E}, names.Nodup →
    ((name, v) ∈ (s.visitAll names).2 ↔
      name ∈ names ∧ ((s.visitAll (names.takeWhile (· ≠ name))).1.visit name).2 = v)
  | [], _, _ => by simp [visitAll]
  | n :: rest, s, hd => by
    obtain ⟨hn, hd⟩ := List.nodup_cons.1 hd
    rw [visitAll_cons_snd, List.mem_cons, mem_visitAll hd, List.mem_cons]
    by_cases he : name = n
    · subst he
      simp [visitAll, hn, eq_comm]
    · have htake : (n :: rest).takeWhile (· ≠ name) = n :: rest.takeWhile (· ≠ name) :=
        List.takeWhile_cons_of_pos (by simpa using Ne.symm he)
      rw [htake, visitAll_cons_fst]
      simp [he]

/-! ## The order of names -/

theorem moduleNames_ascending (h : s.moduleNames = .ok names) :
    names.Pairwise fun a b => compare a b = .lt := by
  have hd := moduleNames_nodup h
  obtain ⟨path, -, h⟩ := Except.bind_eq_ok_iff.1 h
  obtain ⟨listed, -, h⟩ := Except.bind_eq_ok_iff.1 h
  have hle (a b : String) : (compare a b != .gt) = (compare a b).isLE := by
    cases compare a b <;> rfl
  have hsorted : names.Pairwise fun a b : String => (compare a b).isLE = true := by
    rw [← Except.ok.inj h]
    simp only [hle]
    refine List.pairwise_mergeSort (fun _ _ _ => Std.TransCmp.isLE_trans) (fun a b => ?_) _
    have hswap : compare b a = (compare a b).swap := Std.OrientedCmp.eq_swap
    rw [hswap]
    cases compare a b <;> rfl
  refine (hsorted.and hd).imp fun {a b} ⟨hab, hne⟩ => ?_
  cases hc : compare a b with
  | lt => rfl
  | eq => exact absurd (Std.LawfulEqOrd.eq_of_compare hc) hne
  | gt => rw [hc] at hab; cases hab

/-- The texts are in the order of their bytes, each before the next. -/
def Rising (names : List String) : Prop := names.Pairwise fun a b => Text.utf8 a < Text.utf8 b

theorem rising_of_compare (h : names.Pairwise fun a b => compare a b = .lt) : Rising names :=
  h.imp Text.utf8_lt_of_compare

theorem Rising.sublist {names' : List String} (h : Rising names) (hs : names'.Sublist names) :
    Rising names' :=
  List.Pairwise.sublist hs h

/-! ## The evaluations of a scan -/

/-- The module that is loaded. -/
def loading? : Entry → Option String
  | .loading module _ _ => some module
  | _ => none

theorem makeChange_speaks (s : Site E) (change : String × ArtifactWrite) :
    Says loading? [] s.world (s.makeChange change).world := by
  rcases s.makeChange_cases change with ⟨files, -, h⟩ | ⟨e, h⟩ <;> rw [h]
  · exact .of_eq rfl
  · exact .step (e := .unwritten ..) trivial rfl

theorem settle_speaks (s : Site E) : Says loading? [] s.world s.settle.world :=
  settle_keeps (P := fun t => Says loading? [] s.world t.world) (.of_eq rfl)
    fun t change _ h => h.trans (t.makeChange_speaks change)

theorem aside_loading? (e : Entry) (h : e.IsAside) : loading? e = none := by
  cases e <;> first | rfl | exact h.elim

theorem readFailed_speaks (e : FileError) :
    Says loading? [] s.world (s.readFailed name e).world := by
  have hw : Says loading? [] s.world (s.world.readFailed name e.message) :=
    .step (e := .failed ..) trivial rfl
  rw [readFailed_eq]
  exact hw.trans (settle_speaks { s with world := s.world.readFailed name e.message })

theorem world_reload_speaks {w : World E} (modified : FileTime) (source : String) :
    Says loading? [name] w (w.reload name modified source) := by
  rw [World.reload_eq]
  have hbegin : Says loading? [name] w ((w.beginLoad name modified).write name .truncateLog) :=
    .step (e := .loading ..) trivial rfl
  have hrun : Says loading? [] ((w.beginLoad name modified).write name .truncateLog)
      (w.afterRun name modified source) :=
    finishRun_speaks aside_loading? ⟨w.nextId, name⟩ (E.load name source)
  have hclose : Says loading? [] (w.afterRun name modified source)
      ((w.afterRun name modified source).conclude name (E.load name source).failure) := by
    cases (E.load name source).failure with
    | none => exact .step (e := .loaded name) trivial rfl
    | some detail => exact .step (e := .failed name detail) trivial rfl
  exact (hbegin.trans hrun).trans hclose

theorem reload_speaks (modified : FileTime) (source : String) :
    Says loading? [name] s.world (s.reload name modified source).world := by
  rw [reload_eq]
  exact (world_reload_speaks modified source).trans
    (settle_speaks { s with world := s.world.reload name modified source })

theorem visit_speaks (t : Site E) (name : String) :
    Evaluates (t.world.modified? name) t name ∧
        Says loading? [name] t.world (t.visit name).1.world ∨
      ¬ Evaluates (t.world.modified? name) t name ∧
        Says loading? [] t.world (t.visit name).1.world := by
  unfold visit Evaluates
  rcases t.stat name with e | modified | _
  · exact .inr ⟨nofun, readFailed_speaks e⟩
  · dsimp only
    split
    · rename_i hnew
      have hnew := World.needsReload_iff.1 hnew
      unfold readAndReload
      rcases t.readText name with e | source
      · exact .inr ⟨nofun, readFailed_speaks e⟩
      · exact .inl ⟨⟨modified, source, rfl, hnew, rfl⟩, reload_speaks modified source⟩
    · rename_i hold
      rw [World.needsReload_iff, not_not] at hold
      refine .inr ⟨?_, .of_eq rfl⟩
      rintro ⟨_, _, h, hnew, -⟩
      cases h
      exact hnew hold
  · exact .inr ⟨nofun, .of_eq rfl⟩

/-- The names are evaluated in turn, those whose text is to be evaluated. -/
theorem visitAll_speaks : ∀ {names : List String} (s : Site E), names.Nodup →
    ∃ evaluated, evaluated.Sublist names ∧
      Says loading? evaluated s.world (s.visitAll names).1.world ∧
      ∀ name, name ∈ evaluated ↔ name ∈ names ∧ Evaluates (s.world.modified? name)
        (s.visitAll (names.takeWhile (· ≠ name))).1 name
  | [], _, _ => ⟨[], .slnil, .of_eq rfl, by simp⟩
  | n :: rest, s, hd => by
    obtain ⟨hn, hd⟩ := List.nodup_cons.1 hd
    obtain ⟨evaluated, hsub, hspeaks, hmem⟩ := visitAll_speaks (s.visit n).1 hd
    have hne : ∀ name ∈ rest, name ≠ n := fun name hm he => hn (he ▸ hm)
    have hmem (name : String) : name ∈ evaluated ↔ name ∈ rest ∧
        Evaluates (s.world.modified? name)
          (s.visitAll ((n :: rest).takeWhile (· ≠ name))).1 name := by
      rw [hmem]
      refine and_congr_right fun hm => ?_
      rw [(visit_untouched (hne name hm)).modified?_eq,
        List.takeWhile_cons_of_pos (by simpa using (hne name hm).symm), visitAll_cons_fst]
    have hself : (s.visitAll ((n :: rest).takeWhile (· ≠ n))).1 = s := by
      rw [List.takeWhile_cons_of_neg (by simp), visitAll]
    rw [visitAll_cons_fst]
    rcases s.visit_speaks n with ⟨hev, hv⟩ | ⟨hev, hv⟩
    · refine ⟨n :: evaluated, hsub.cons_cons n, hv.trans hspeaks, fun name => ?_⟩
      rw [List.mem_cons, List.mem_cons, hmem, or_and_right]
      refine or_congr_left ⟨fun he => ⟨he, ?_⟩, And.left⟩
      rw [he, hself]
      exact hev
    · refine ⟨evaluated, hsub.cons n, hv.trans hspeaks, fun name => ?_⟩
      rw [List.mem_cons, hmem, or_and_right]
      refine (or_iff_right ?_).symm
      rintro ⟨rfl, h⟩
      rw [hself] at h
      exact hev h

/-! ## The report -/

theorem mem_report {sightings : List (String × Sighting)} :
    name ∈ (sightings.filter (·.2 = v)).map (·.1) ↔ (name, v) ∈ sightings := by
  simp

theorem visited_of_ok {report : ScanReport} (h : s.scan.2 = .ok report)
    (hrun : report.skipped = false) : ∃ names, s.scanning = false ∧ s.rootIsDir = true ∧
      s.opened.moduleNames = .ok names ∧
      s.scan.1 = { (s.opened.visitAll names).1 with scanning := false } ∧
      report = Site.report (s.opened.visitAll names).1.world.records.keys
        (s.opened.visitAll names).2 := by
  have hs := s.scanned
  generalize s.scan = r at hs h
  cases hs with
  | skipped => cases h; cases hrun
  | noRoot | stopped => cases h
  | visited names hscan hdir hnames =>
    cases h
    exact ⟨names, hscan, hdir, hnames, rfl, rfl⟩

/-- What is made of each name of a scan. -/
theorem mem_sightings (hnames : s.opened.moduleNames = .ok names) :
    (name, v) ∈ (s.opened.visitAll names).2 ↔
      name ∈ names ∧ Finding (s.world.modified? name) (s.turnOf names name) name v := by
  have hd := moduleNames_nodup hnames
  rw [mem_visitAll hd]
  refine and_congr_right fun hn => ?_
  obtain ⟨-, -, hturn, -⟩ := visitAll_of_mem (s := s) hd hn
  rw [← hturn.modified?_eq]
  exact visit_eq_iff

theorem mem_missing {known : List String} {sightings : List (String × Sighting)} :
    name ∈ (Site.report known sightings).missing ↔ name ∈ known ∧
      (name, .unchanged) ∉ sightings ∧ (name, .failed) ∉ sightings ∧
      (name, .reloaded) ∉ sightings := by
  have hseen : (sightings.any fun e => e.1 == name && e.2 != .passedOver) = true ↔
      (name, .unchanged) ∈ sightings ∨ (name, .failed) ∈ sightings ∨
        (name, .reloaded) ∈ sightings := by
    simp only [List.any_eq_true, Bool.and_eq_true, beq_iff_eq, bne_iff_ne]
    constructor
    · rintro ⟨⟨n, v⟩, hm, rfl, hv⟩
      cases v <;> simp_all
    · rintro (hm | hm | hm) <;> exact ⟨_, hm, rfl, Sighting.noConfusion⟩
  rw [Site.report, List.mem_filter, Bool.not_eq_true', ← Bool.not_eq_true, hseen]
  simp only [not_or]

/-- A name that leads to no file leaves its module alone. -/
theorem visit_of_noFile (h : t.stat name = .ok .dir) : (t.visit name).1 = t := by
  unfold visit
  rw [h]

theorem untouched_of_noFile (hnames : s.opened.moduleNames = .ok names)
    (h : name ∈ names → (s.turnOf names name).stat name = .ok .dir) :
    Untouched name s.world (s.opened.visitAll names).1.world := by
  by_cases hn : name ∈ names
  · obtain ⟨rest, hrest, hturn, hw⟩ := visitAll_of_mem (s := s) (moduleNames_nodup hnames) hn
    rw [hw, visit_of_noFile (h hn)]
    exact hturn.trans (visitAll_untouched hrest)
  · exact visitAll_untouched (s := s.opened) hn

/-- What the report of a scan says of the names that the scan looks at. -/
structure Reports (s : Site E) (names : List String) (report : ScanReport) : Prop where
  listed : s.opened.moduleNames = .ok names
  /-- The entries of the directory that can hold a module. -/
  entries : ∃ place, s.files.RootAt s.world.root place ∧ ∀ name, name ∈ names ↔
    s.Holds name ∧ ∃ node, s.files.node? (place ++ [name]) = some node
  rising : Rising names
  unchanged : ∀ name, name ∈ report.unchanged ↔ name ∈ names ∧
    ∃ modified, (s.turnOf names name).stat name = .ok (.file modified) ∧
      s.world.modified? name = some modified
  failed : ∀ name, name ∈ report.failed ↔ name ∈ names ∧
    ((∃ e, (s.turnOf names name).stat name = .error e) ∨
      ∃ modified, (s.turnOf names name).stat name = .ok (.file modified) ∧
        s.world.modified? name ≠ some modified ∧
        ((∃ e, (s.turnOf names name).readText name = .error e) ∨
          ∃ source detail, (s.turnOf names name).readText name = .ok source ∧
            (E.load name source).failure = some detail))
  reloaded : ∀ name, name ∈ report.reloaded ↔ name ∈ names ∧
    ∃ modified source, (s.turnOf names name).stat name = .ok (.file modified) ∧
      s.world.modified? name ≠ some modified ∧ (s.turnOf names name).readText name = .ok source ∧
      (E.load name source).failure = none
  /-- What is left out leads to something that is no file. -/
  noFile : ∀ name ∈ names, (s.turnOf names name).stat name = .ok .dir ↔
    name ∉ report.unchanged ∧ name ∉ report.failed ∧ name ∉ report.reloaded
  missing : ∀ name, name ∈ report.missing ↔ name ∈ s.scan.1.world.records.keys ∧
    name ∉ report.unchanged ∧ name ∉ report.failed ∧ name ∉ report.reloaded
  /-- The module of any other name keeps its record. -/
  records : ∀ name, name ∉ report.unchanged → name ∉ report.failed → name ∉ report.reloaded →
    s.scan.1.world.records.find? name = s.world.records.find? name
  lists : ∀ list ∈ [report.unchanged, report.failed, report.reloaded, report.missing], Rising list
  disjoint : [report.unchanged, report.failed, report.reloaded, report.missing].Pairwise
    List.Disjoint
  evaluated : ∃ evaluated, Says loading? evaluated s.world s.scan.1.world ∧ Rising evaluated ∧
    ∀ name, name ∈ evaluated ↔ name ∈ names ∧
      Evaluates (s.world.modified? name) (s.turnOf names name) name
  /-- Where no entry is a link, each name leads to what it led to when the scan began. -/
  look : s.world.disk = #[] → s.files.Plain s.world.root → ∀ name ∈ names,
    (s.turnOf names name).stat name = s.stat name ∧
      (s.turnOf names name).readText name = s.readText name

/-- What the host writes before the first name changes no entry that can hold a module. -/
theorem opened_entries {place : List String} (hroot : s.files.RootAt s.world.root place)
    (hnames : s.opened.moduleNames = .ok names) (name : String) : name ∈ names ↔
      s.Holds name ∧ ∃ node, s.files.node? (place ++ [name]) = some node := by
  obtain ⟨hroot', hc⟩ := Artifacts.ensureDirs_rootAt hroot
  rw [← opened_files] at hroot' hc
  rw [mem_moduleNames hroot' hnames]
  refine and_congr_right fun hn => ?_
  rw [node?_of_confined hc hn]

theorem noFile_iff (hnames : s.opened.moduleNames = .ok names) (hn : name ∈ names) :
    (s.turnOf names name).stat name = .ok .dir ↔
      (name, .unchanged) ∉ (s.opened.visitAll names).2 ∧
        (name, .failed) ∉ (s.opened.visitAll names).2 ∧
        (name, .reloaded) ∉ (s.opened.visitAll names).2 := by
  have hmem {v : Sighting} : (name, v) ∈ (s.opened.visitAll names).2 ↔
      Finding (s.world.modified? name) (s.turnOf names name) name v :=
    (mem_sightings hnames).trans (and_iff_right hn)
  -- some sighting of the name there is
  obtain ⟨⟨_, v⟩, hv, rfl⟩ := List.mem_map.1 ((visitAll_names names s.opened).symm ▸ hn)
  rw [← @finding_passedOver E (s.turnOf names _) _ (s.world.modified? _)]
  constructor
  · intro h
    simp only [hmem]
    exact ⟨fun h' => Sighting.noConfusion (h.unique h'),
      fun h' => Sighting.noConfusion (h.unique h'), fun h' => Sighting.noConfusion (h.unique h')⟩
  · rintro ⟨hu, hf, hr⟩
    cases v with
    | passedOver => exact hmem.1 hv
    | unchanged => exact absurd hv hu
    | failed => exact absurd hv hf
    | reloaded => exact absurd hv hr

theorem scan_classifies {report : ScanReport} (h : s.scan.2 = .ok report)
    (hrun : report.skipped = false) : ∃ names, s.Reports names report := by
  obtain ⟨names, hscan, hdir, hnames, hs, rfl⟩ := visited_of_ok h hrun
  have hworld : s.scan.1.world = (s.opened.visitAll names).1.world := by rw [hs]
  have hrise : Rising names := rising_of_compare (moduleNames_ascending hnames)
  have hnd := moduleNames_nodup hnames
  have hmem {v : Sighting} {name : String} :
      name ∈ ((s.opened.visitAll names).2.filter (·.2 = v)).map (·.1) ↔
        name ∈ names ∧ Finding (s.world.modified? name) (s.turnOf names name) name v :=
    mem_report.trans (mem_sightings hnames)
  have hlist (v : Sighting) :
      (((s.opened.visitAll names).2.filter (·.2 = v)).map (·.1)).Sublist names := by
    have := (List.filter_sublist (p := fun e => decide (e.2 = v))
      (l := (s.opened.visitAll names).2)).map (·.1)
    rwa [visitAll_names] at this
  have hdisj {v v' : Sighting} (hv : v ≠ v') : List.Disjoint
      (((s.opened.visitAll names).2.filter (·.2 = v)).map (·.1))
      (((s.opened.visitAll names).2.filter (·.2 = v')).map (·.1)) :=
    fun name hm hm' => hv ((hmem.1 hm).2.unique (hmem.1 hm').2)
  refine ⟨names, hnames, ?_, hrise, fun name => ?_, fun name => ?_, fun name => ?_,
    fun name hn => ?_, fun name => ?_, fun name hu hf hr => ?_, ?_, ?_, ?_, ?_⟩
  · obtain ⟨place, hroot⟩ := exists_rootAt hdir
    exact ⟨place, hroot, opened_entries hroot hnames⟩
  · exact hmem.trans (and_congr_right fun _ => finding_unchanged)
  · exact hmem.trans (and_congr_right fun _ => finding_failed)
  · exact hmem.trans (and_congr_right fun _ => finding_reloaded)
  · simp only [noFile_iff hnames hn, ← mem_report]
    rfl
  · rw [hworld, mem_missing]
    simp only [← mem_report]
    rfl
  · rw [hworld]
    refine (untouched_of_noFile hnames fun hn => ?_).record
    rw [noFile_iff hnames hn, ← mem_report, ← mem_report, ← mem_report]
    exact ⟨hu, hf, hr⟩
  · intro list hl
    simp only [List.mem_cons, List.not_mem_nil, or_false] at hl
    rcases hl with rfl | rfl | rfl | rfl
    · exact hrise.sublist (hlist .unchanged)
    · exact hrise.sublist (hlist .failed)
    · exact hrise.sublist (hlist .reloaded)
    · exact (rising_of_compare (Table.keys_ascending _)).sublist List.filter_sublist
  · have hmissing {v : Sighting} (hv : v = .unchanged ∨ v = .failed ∨ v = .reloaded) :
        List.Disjoint (((s.opened.visitAll names).2.filter (·.2 = v)).map (·.1))
          (Site.report (s.opened.visitAll names).1.world.records.keys
            (s.opened.visitAll names).2).missing := by
      intro name hm hm'
      obtain ⟨-, hu, hf, hr⟩ := mem_missing.1 hm'
      rw [mem_report] at hm
      rcases hv with rfl | rfl | rfl
      · exact hu hm
      · exact hf hm
      · exact hr hm
    refine .cons ?_ (.cons ?_ (.cons ?_ (List.pairwise_singleton _ _))) <;>
      simp only [List.mem_cons, List.not_mem_nil, or_false, forall_eq_or_imp, forall_eq]
    · exact ⟨hdisj Sighting.noConfusion, hdisj Sighting.noConfusion, hmissing (.inl rfl)⟩
    · exact ⟨hdisj Sighting.noConfusion, hmissing (.inr (.inl rfl))⟩
    · exact hmissing (.inr (.inr rfl))
  · obtain ⟨evaluated, hsub, hspeaks, hev⟩ := visitAll_speaks s.opened hnd
    rw [hworld]
    exact ⟨evaluated, hspeaks, hrise.sublist hsub, hev⟩
  · intro ho hplain name hn
    obtain ⟨place, hroot⟩ := exists_rootAt hdir
    exact turnOf_look ⟨hscan, ho⟩ hroot hplain hnames hn

/-- Names that are listed in order are looked at in that order. -/
theorem moduleNames_of_list (path listed : List String)
    (hp : FilePath.ofText s.world.root = .ok path) (hl : s.files.list path = .ok listed)
    (hf : (listed.filter fun n => FileName.isText n && ModuleName.eligible n s.extension) = names)
    (hs : names.Pairwise fun a b => (compare a b != .gt) = true) : s.moduleNames = .ok names := by
  rw [moduleNames_eq hp hl, hf, List.mergeSort_of_pairwise hs]

end Site

/-- A module, a file that cannot be loaded, and a directory. -/
def threeEntries : FileTree :=
  (oneModule.put ["world", "b.lua"] (.file "oops".toUTF8 ⟨100, 0⟩ true)).put ["world", "c.lua"] .dir

theorem three_entries_classified : ∃ (s : Site stumbler) (report : ScanReport),
    s = .start "world" threeEntries none ∧ s.scan.2 = .ok report ∧ report.skipped = false ∧
      "a.lua" ∈ report.reloaded ∧ "b.lua" ∈ report.failed ∧ "c.lua" ∉ report.unchanged ∧
      "c.lua" ∉ report.failed ∧ "c.lua" ∉ report.reloaded := by
  let s : Site stumbler := .start "world" threeEntries none
  have hnames : s.opened.moduleNames = .ok ["a.lua", "b.lua", "c.lua"] :=
    Site.moduleNames_of_list ["world"] [errorsDir, logsDir, "a.lua", "b.lua", "c.lua"]
      (by decide +kernel)
      (by decide +kernel) (by decide +kernel) (by decide +kernel)
  obtain ⟨-, report, hok⟩ := s.scan_of_names rfl (by decide +kernel)
    (Option.isNone_iff_eq_none.1 (by decide +kernel)) hnames
  obtain ⟨hrun, -⟩ := Site.scan_ok (s := s) ⟨rfl, rfl⟩ hok
  obtain ⟨names, h⟩ := Site.scan_classifies hok hrun
  cases hnames.symm.trans h.listed
  refine ⟨s, report, rfl, hok, hrun, (h.reloaded _).2 ⟨by decide, ⟨100, 0⟩, "late", ?_⟩,
    (h.failed _).2 ⟨by decide, .inr ⟨⟨100, 0⟩, ?_, ?_, .inr ⟨"oops", "oops", ?_⟩⟩⟩,
    (h.noFile _ (by decide)).1 ?_⟩ <;> decide +kernel

end LiveModules
