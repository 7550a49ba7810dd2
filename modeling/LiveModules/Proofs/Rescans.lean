import LiveModules.Proofs.ErrorFiles
import LiveModules.Proofs.Sightings
import Mathlib.Logic.Function.Iterate

/-!
# Scans of files that do not change

In a directory without links (`Plain`) what a scan writes is confined to the two directories for the
files that tell of modules (`scan_kept`), so a scan finds the files as they were when it began, and
whatever it loaded or could not load is left alone by the scans after it (`scans_load_changes`).
-/

namespace LiveModules

open World Artifacts FileTree

attribute [local irreducible] lastOf

/-- No entry of the watched directory is a link, nor is anything that the host writes to. -/
structure FileTree.Plain (t : FileTree) (root : String) : Prop where
  tidy : Tidy t root
  entries : ∀ place, t.RootAt root place → ∀ name node, t.node? (place ++ [name]) = some node →
    FileName.IsEntry name ∧ ∀ target, node ≠ .link target

namespace Site

variable {E : Engine} {s s' : Site E} {name : String} {place : List String}

/-! ## Nothing is left to write -/

/-- No scan is under way, and no change of files is due. -/
structure Idle (s : Site E) : Prop where
  scanning : s.scanning = false
  settled : s.world.disk = #[]

theorem settle_disk (s : Site E) : s.settle.world.disk = #[] :=
  settle_keeps (P := fun t => t.world.disk = #[]) rfl fun t change _ h => by
    rcases t.makeChange_cases change with ⟨files, -, ht⟩ | ⟨e, ht⟩ <;>
    · rw [ht]
      exact h

theorem reload_settled (s : Site E) (name : String) (modified : FileTime) (source : String) :
    (s.reload name modified source).world.disk = #[] := by
  rw [reload_eq]
  exact settle_disk _

theorem readFailed_settled (s : Site E) (name : String) (e : FileError) :
    (s.readFailed name e).world.disk = #[] := by
  rw [readFailed_eq]
  exact settle_disk _

theorem visit_disk (h : s.world.disk = #[]) : (s.visit name).1.world.disk = #[] :=
  visit_keeps (P := fun t => t.world.disk = #[]) h (s.readFailed_settled name)
    (s.reload_settled name)

theorem visitAll_disk {names : List String} (h : s.world.disk = #[]) :
    (s.visitAll names).1.world.disk = #[] :=
  visitAll_keeps (P := fun t => t.world.disk = #[]) h fun _ _ _ => visit_disk

theorem Idle.scan (h : s.Idle) : s.scan.1.Idle := by
  have hs := s.scanned
  generalize s.scan = r at hs
  cases hs with
  | visited => exact ⟨rfl, visitAll_disk (s := s.opened) h.settled⟩
  | stopped => exact ⟨rfl, h.settled⟩
  | _ => exact h

theorem Idle.rescan : ∀ {trees : List FileTree} {s : Site E}, s.Idle → (s.rescan trees).Idle
  | [], _, h => h
  | files :: rest, s, h => by
    have hs : ({ s with files } : Site E).Idle := ⟨h.scanning, h.settled⟩
    rw [Site.rescan]
    exact Idle.rescan hs.scan

/-! ## What a scan keeps of the files -/

/-- The files changed only where the host writes. -/
structure FilesKept (place : List String) (s s' : Site E) : Prop where
  rooted : s'.world.root = s.world.root
  extension : s'.extension = s.extension
  files : Confined s.files s'.files place
  tidy : Tidy s'.files s'.world.root

theorem FilesKept.refl (h : Tidy s.files s.world.root) : FilesKept place s s :=
  ⟨rfl, rfl, .refl, h⟩

theorem FilesKept.trans {s'' : Site E} (h : FilesKept place s s') (h' : FilesKept place s' s'') :
    FilesKept place s s'' :=
  ⟨h'.rooted.trans h.rooted, h'.extension.trans h.extension, h.files.trans h'.files, h'.tidy⟩

theorem FilesKept.rootAt (h : FilesKept place s s') (hroot : s.files.RootAt s.world.root place) :
    s'.files.RootAt s'.world.root place :=
  h.rooted ▸ hroot.mono h.files.ways

theorem settle_kept {w : World E} (ht : Turns .entries s.world w) (ho : s.world.disk = #[])
    (hroot : s.files.RootAt s.world.root place) (htidy : Tidy s.files s.world.root) :
    FilesKept place s { s with world := w }.settle := by
  have hr := ht.root
  refine settle_keeps ⟨hr, rfl, .refl, hr ▸ htidy⟩ fun t change hc h => ?_
  have hname := ht.named (by simp [ho]) change hc
  rcases t.makeChange_cases change with ⟨files, hm, hs⟩ | ⟨e, hs⟩ <;> rw [hs]
  · have hmade := made_of_make h.tidy hname hm
    exact h.trans ⟨rfl, rfl, hmade.confined (h.rootAt hroot), hmade.tidy h.tidy⟩
  · exact h.trans ⟨rfl, rfl, .refl, h.tidy⟩

theorem readFailed_filesKept (hn : FileName.IsEntry name) (ho : s.world.disk = #[])
    (hroot : s.files.RootAt s.world.root place) (htidy : Tidy s.files s.world.root)
    (e : FileError) : FilesKept place s (s.readFailed name e) := by
  rw [readFailed_eq]
  exact settle_kept (World.readFailed_turns hn) ho hroot htidy

theorem reload_filesKept (hn : FileName.IsEntry name) (ho : s.world.disk = #[])
    (hroot : s.files.RootAt s.world.root place) (htidy : Tidy s.files s.world.root)
    (modified : FileTime) (source : String) :
    FilesKept place s (s.reload name modified source) := by
  rw [reload_eq]
  exact settle_kept (World.reload_turns hn) ho hroot htidy

theorem visit_kept (hn : FileName.IsEntry name) (ho : s.world.disk = #[])
    (hroot : s.files.RootAt s.world.root place) (htidy : Tidy s.files s.world.root) :
    FilesKept place s (s.visit name).1 :=
  visit_keeps (.refl htidy) (readFailed_filesKept hn ho hroot htidy)
    (reload_filesKept hn ho hroot htidy)

theorem visitAll_kept {names : List String} (hn : ∀ name ∈ names, FileName.IsEntry name)
    (ho : s.world.disk = #[]) (hroot : s.files.RootAt s.world.root place)
    (htidy : Tidy s.files s.world.root) : FilesKept place s (s.visitAll names).1 :=
  (visitAll_keeps (P := fun t => FilesKept place s t ∧ t.world.disk = #[]) ⟨.refl htidy, ho⟩
    fun _ name hm h => ⟨h.1.trans (visit_kept (hn name hm) h.2 (h.1.rootAt hroot) h.1.tidy),
      visit_disk h.2⟩).1

theorem opened_kept (hroot : s.files.RootAt s.world.root place)
    (htidy : Tidy s.files s.world.root) : FilesKept place s s.opened := by
  obtain ⟨htidy', hc, -⟩ := ensureDirs_confined hroot htidy
  rw [← opened_files] at htidy' hc
  exact ⟨rfl, rfl, hc, htidy'⟩

/-! ## What a scan finds -/

theorem not_eligible_errorsDir (extension : Option String) :
    ModuleName.eligible errorsDir extension = false := rfl

theorem not_eligible_logsDir (extension : Option String) :
    ModuleName.eligible logsDir extension = false := rfl

/-- A name that can hold a module. -/
def Holds (s : Site E) (name : String) : Prop :=
  FileName.isText name = true ∧ ModuleName.eligible name s.extension = true

theorem mem_moduleNames {names : List String} (hroot : s.files.RootAt s.world.root place)
    (h : s.moduleNames = .ok names) :
    name ∈ names ↔ s.Holds name ∧ ∃ node, s.files.node? (place ++ [name]) = some node := by
  obtain ⟨path, hp, h⟩ := Except.bind_eq_ok_iff.1 h
  obtain ⟨listed, hl, h⟩ := Except.bind_eq_ok_iff.1 h
  rw [← Except.ok.inj h, List.mem_mergeSort, List.mem_filter, mem_list (hroot.resolve hp) hl,
    and_comm, Bool.and_eq_true]
  rfl

/-- What a name that can hold a module leads to is no matter of what the host writes. -/
theorem FilesKept.holds_iff (h : FilesKept place s s') : s'.Holds name ↔ s.Holds name := by
  rw [Holds, Holds, h.extension]

/-- What the host writes is no entry that can hold a module. -/
theorem node?_of_confined {t t' : FileTree} (hc : Confined t t' place) (hn : s.Holds name) :
    t'.node? (place ++ [name]) = t.node? (place ++ [name]) := by
  have hne {dir : String} (hd : ModuleName.eligible dir s.extension = false) :
      ¬ place ++ [dir] <+: place ++ [name] := by
    rw [List.prefix_append_right_inj, List.cons_prefix_cons]
    rintro ⟨rfl, -⟩
    rw [hn.2] at hd
    cases hd
  exact hc.elsewhere _ (hne (not_eligible_errorsDir _)) (hne (not_eligible_logsDir _))

theorem FilesKept.node?_eq (h : FilesKept place s s') (hn : s.Holds name) :
    s'.files.node? (place ++ [name]) = s.files.node? (place ++ [name]) :=
  node?_of_confined h.files hn

theorem FilesKept.plain (h : FilesKept place s s') (hroot : s.files.RootAt s.world.root place)
    (hplain : s.files.Plain s.world.root) : s'.files.Plain s'.world.root := by
  refine ⟨h.tidy, fun place' hroot' name node hn => ?_⟩
  cases hroot'.unique (h.rootAt hroot)
  have htidy {dir : String} (hd : TidyDir s'.files place dir) (hne : FileName.IsEntry dir)
      (hp : place ++ [dir] <+: place ++ [name]) :
      FileName.IsEntry name ∧ ∀ target, node ≠ .link target := by
    rw [List.prefix_append_right_inj, List.cons_prefix_cons] at hp
    obtain ⟨rfl, -⟩ := hp
    exact ⟨hne, fun target ht => hd.no_link target (hn.trans (congrArg some ht))⟩
  -- the directories that the host makes are entries of the root, too
  by_cases he : place ++ [errorsDir] <+: place ++ [name]
  · exact htidy (h.tidy.errors place hroot') isEntry_errorsDir he
  by_cases hl : place ++ [logsDir] <+: place ++ [name]
  · exact htidy (h.tidy.logs place hroot') isEntry_logsDir hl
  rw [h.files.elsewhere _ he hl] at hn
  exact hplain.entries place hroot name node hn

/-- The file of a module is as it was, whatever the host wrote. -/
theorem FilesKept.look_eq (h : FilesKept place s s') (hroot : s.files.RootAt s.world.root place)
    (hplain : s.files.Plain s.world.root) (he : FileName.IsEntry name) (hn : s.Holds name) :
    s'.stat name = s.stat name ∧ s'.readText name = s.readText name := by
  have hnode := h.node?_eq hn
  have hl : ∀ target, s.files.node? (place ++ [name]) ≠ some (.link target) :=
    fun target ht => (hplain.entries place hroot name _ ht).2 target rfl
  unfold stat readText pathOf
  rw [h.rooted]
  rcases hp : FilePath.ofText (joinPath s.world.root name) with e | path
  · exact ⟨rfl, rfl⟩
  have hres : s'.files.resolve path = s.files.resolve path := by
    rw [FilePath.ofText_joinPath he hp, hroot.resolve_entry he hl]
    have hroot' := h.rootAt hroot
    rw [h.rooted] at hroot'
    exact hroot'.resolve_entry he (hnode ▸ hl)
  have hfound (found : List String) (hf : s.files.resolve path = .ok found) :
      s'.files.node? found = s.files.node? found := by
    rw [FilePath.ofText_joinPath he hp, hroot.resolve_entry he hl] at hf
    split at hf
    · cases hf
    · rwa [← Except.ok.inj hf]
  exact look_congr hres hfound

theorem FilesKept.text?_eq (h : FilesKept place s s') (hroot : s.files.RootAt s.world.root place)
    (hplain : s.files.Plain s.world.root) (he : FileName.IsEntry name) (hn : s.Holds name) :
    s'.text? name = s.text? name := by
  obtain ⟨hstat, hread⟩ := h.look_eq hroot hplain he hn
  unfold text?
  rw [hstat, hread]

theorem text?_eq_none (hroot : s.files.RootAt s.world.root place) (he : FileName.IsEntry name)
    (hn : s.files.node? (place ++ [name]) = none) : s.text? name = none := by
  have hstat : ∃ e, s.stat name = .error e := by
    unfold stat pathOf
    rcases hp : FilePath.ofText (joinPath s.world.root name) with e | path
    · exact ⟨e, rfl⟩
    show ∃ e, s.files.stat path = .error e
    rw [FileTree.stat, FilePath.ofText_joinPath he hp, hroot.resolve_entry he (by simp [hn])]
    split
    · exact ⟨_, rfl⟩
    · exact ⟨.notFound, by simp only [bind, Except.bind, hn]; rfl⟩
  obtain ⟨e, hstat⟩ := hstat
  unfold text?
  rw [hstat]

/-- A scan that comes to its end found the watched directory and the names in it. -/
theorem scan_ok (h : s.Idle) {report : ScanReport} (hok : s.scan.2 = .ok report) :
    report.skipped = false ∧ s.rootIsDir = true ∧ ∃ names, s.opened.moduleNames = .ok names := by
  have hs := s.scanned
  generalize s.scan = r at hs hok
  cases hs with
  | skipped hscan =>
    rw [h.scanning] at hscan
    cases hscan
  | noRoot | stopped => cases hok
  | visited names _ hd hnames =>
    cases hok
    exact ⟨rfl, hd, names, hnames⟩

section Plain

variable (h : s.Idle) (hroot : s.files.RootAt s.world.root place)
  (hplain : s.files.Plain s.world.root)

include hroot hplain

theorem isEntry_of_mem {names : List String} (hnames : s.opened.moduleNames = .ok names)
    (hn : name ∈ names) : FileName.IsEntry name := by
  have hk := opened_kept hroot hplain.tidy
  obtain ⟨-, node, hnode⟩ := (mem_moduleNames (hk.rootAt hroot) hnames).1 hn
  exact ((hk.plain hroot hplain).entries place (hk.rootAt hroot) name node hnode).1

include h

theorem visitAll_opened_kept {names : List String} (hn : ∀ name ∈ names, FileName.IsEntry name) :
    FilesKept place s (s.opened.visitAll names).1 :=
  have hk := opened_kept hroot hplain.tidy
  hk.trans (visitAll_kept hn h.settled (hk.rootAt hroot) hk.tidy)

/-- A scan writes only where the host writes, whether or not it comes to its end. -/
theorem scan_kept : FilesKept place s s.scan.1 := by
  have hs := s.scanned
  generalize s.scan = r at hs
  cases hs with
  | visited names _ _ hnames =>
    have hk := visitAll_opened_kept h hroot hplain fun _ => isEntry_of_mem hroot hplain hnames
    exact ⟨hk.rooted, hk.extension, hk.files, hk.tidy⟩
  | stopped =>
    have hk := opened_kept hroot hplain.tidy
    exact ⟨hk.rooted, hk.extension, hk.files, hk.tidy⟩
  | _ => exact .refl hplain.tidy

/-- A scan comes to a name of the directory when only the host has written since it began. -/
theorem turnOf_kept {names : List String} (hnames : s.opened.moduleNames = .ok names)
    (hn : name ∈ names) :
    FileName.IsEntry name ∧ s.Holds name ∧ FilesKept place s (s.turnOf names name) := by
  have he := isEntry_of_mem hroot hplain hnames hn
  have hk := opened_kept hroot hplain.tidy
  have hholds : s.Holds name := ((mem_moduleNames (hk.rootAt hroot) hnames).1 hn).1
  have hsub : names.takeWhile (· ≠ name) ⊆ names := List.IsPrefix.subset <| List.takeWhile_prefix _
  exact ⟨he, hholds,
    visitAll_opened_kept h hroot hplain fun _ hm => isEntry_of_mem hroot hplain hnames (hsub hm)⟩

theorem turnOf_look {names : List String} (hnames : s.opened.moduleNames = .ok names)
    (hn : name ∈ names) : (s.turnOf names name).stat name = s.stat name ∧
      (s.turnOf names name).readText name = s.readText name := by
  obtain ⟨he, hholds, hk⟩ := turnOf_kept h hroot hplain hnames hn
  exact hk.look_eq hroot hplain he hholds

theorem turnOf_text? {names : List String} (hnames : s.opened.moduleNames = .ok names)
    (hn : name ∈ names) :
    FileName.IsEntry name ∧ s.Holds name ∧ (s.turnOf names name).text? name = s.text? name := by
  obtain ⟨he, hholds, hk⟩ := turnOf_kept h hroot hplain hnames hn
  exact ⟨he, hholds, hk.text?_eq hroot hplain he hholds⟩

/-- What a scan finds is the file of a module as it was at the beginning. -/
theorem text?_of_sighting {modified : FileTime} (hs : s.sighting name = some modified) :
    FileName.IsEntry name ∧ s.Holds name ∧ s.text? name = some modified := by
  unfold sighting at hs
  split at hs
  · rename_i report names _ hnames
    split at hs
    · cases hs
    · rename_i hn
      obtain ⟨he, hholds, ht⟩ := turnOf_text? h hroot hplain hnames (not_not.1 (not_or.1 hn).2)
      exact ⟨he, hholds, ht.symm.trans hs⟩
  · cases hs

/-- A scan that comes to its end finds the file of every module. -/
theorem sighting_eq {report : ScanReport} (hok : s.scan.2 = .ok report)
    (he : FileName.IsEntry name) (hholds : s.Holds name) : s.sighting name = s.text? name := by
  obtain ⟨hskipped, -, names, hnames⟩ := scan_ok h hok
  unfold sighting
  rw [hok, hnames]
  dsimp only
  by_cases hn : name ∈ names
  · rw [if_neg (by simp [hskipped, hn])]
    exact (turnOf_text? h hroot hplain hnames hn).2.2
  · rw [if_pos (.inr hn)]
    have hk := opened_kept hroot hplain.tidy
    have hnode : s.opened.files.node? (place ++ [name]) = none := by
      rw [mem_moduleNames (hk.rootAt hroot) hnames, not_and, not_exists] at hn
      exact Option.eq_none_iff_forall_ne_some.2 (hn hholds)
    rw [hk.node?_eq hholds] at hnode
    exact (text?_eq_none hroot he hnode).symm

end Plain

/-- A directory stays plain when a version of a module's file is put there. -/
theorem put_plain (hroot : s.files.RootAt s.world.root place)
    (hplain : s.files.Plain s.world.root) (he : FileName.IsEntry name) (hn : s.Holds name)
    (hd : s.files.node? (place ++ [name]) ≠ some .dir) (content : ByteArray)
    (modified : FileTime) (readable : Bool) :
    let t := s.files.put (place ++ [name]) (.file content modified readable)
    t.RootAt s.world.root place ∧ t.Plain s.world.root := by
  intro t
  have hne : place ++ [name] ≠ [] := by simp
  have hleaf : IsLeaf (s.files.node? (place ++ [name])) := by
    intro node hnode
    have hl := (hplain.entries place hroot name node hnode).2
    rcases node with ⟨content, modified, readable⟩ | _ | target
    · exact ⟨content, modified, readable, rfl⟩
    · exact absurd hnode hd
    · exact absurd rfl (hl target)
  have hc : LeafChange s.files t (place ++ [name]) := .put hne hleaf content modified readable
  have hroot' : t.RootAt s.world.root place := hroot.mono hc.extends
  have tidy {dir : String} (hdir : ModuleName.eligible dir s.extension = false)
      (h : TidyDir s.files place dir) : TidyDir t place dir := by
    have hself : t.node? (place ++ [dir]) = s.files.node? (place ++ [dir]) := by
      refine hc.elsewhere _ fun hp => ?_
      have hp : dir = name := by simpa using hp
      rw [← hp] at hn
      exact absurd (hn.2.symm.trans hdir) nofun
    have hin (module : String) :
        t.node? (place ++ [dir, module]) = s.files.node? (place ++ [dir, module]) :=
      hc.elsewhere _ (by simp)
    refine ⟨fun target => ?_, fun module target => ?_, fun h' module => ?_⟩
    · rw [hself]
      exact h.no_link target
    · rw [hin]
      exact h.no_link_in module target
    · rw [hself] at h'
      rw [hin]
      exact h.none_in h' module
  refine ⟨hroot', ⟨fun p hp => ?_, fun p hp => ?_⟩, fun p hp name' node hnode => ?_⟩ <;>
    cases hp.unique hroot'
  · exact tidy (not_eligible_errorsDir _) (hplain.tidy.errors place hroot)
  · exact tidy (not_eligible_logsDir _) (hplain.tidy.logs place hroot)
  · rw [node?_put hne] at hnode
    split at hnode
    · rename_i hp
      have hp : name' = name := by simpa using hp
      cases hnode
      exact ⟨hp ▸ he, fun target => FileNode.noConfusion⟩
    · exact hplain.entries place hroot name' node hnode

/-! ## Scans that find nothing new -/

/-- The file of every module was loaded as it is now, or it is no text that can be read. -/
structure Quiet (place : List String) (s : Site E) : Prop where
  idle : s.Idle
  rootAt : s.files.RootAt s.world.root place
  plain : s.files.Plain s.world.root
  loaded : ∀ name, FileName.IsEntry name → s.Holds name →
    s.text? name = none ∨ s.text? name = s.world.modified? name

theorem quiet_of_scan (h : s.Idle) (hplain : s.files.Plain s.world.root) {report : ScanReport}
    (hok : s.scan.2 = .ok report) : ∃ place, Quiet place s.scan.1 := by
  obtain ⟨-, hdir, -⟩ := scan_ok h hok
  obtain ⟨place, hroot⟩ := exists_rootAt hdir
  have hk := scan_kept h hroot hplain
  refine ⟨place, h.scan, hk.rootAt hroot, hk.plain hroot hplain, fun name he hn => ?_⟩
  rw [hk.holds_iff] at hn
  rw [hk.text?_eq hroot hplain he hn, ← sighting_eq h hroot hplain hok he hn]
  exact s.scan_modified? name

theorem Quiet.untouched (h : Quiet place s) (name : String) :
    Untouched name s.world s.scan.1.world := by
  refine scan_untouched ?_
  rcases hs : s.sighting name with _ | modified
  · exact .inl rfl
  · obtain ⟨he, hholds, ht⟩ := text?_of_sighting h.idle h.rootAt h.plain hs
    rcases h.loaded name he hholds with hl | hl
    · rw [ht] at hl
      cases hl
    · exact .inr (ht.symm.trans hl)

theorem Quiet.scan (h : Quiet place s) : Quiet place s.scan.1 := by
  have hk := scan_kept h.idle h.rootAt h.plain
  refine ⟨h.idle.scan, hk.rootAt h.rootAt, hk.plain h.rootAt h.plain, fun name he hn => ?_⟩
  rw [hk.holds_iff] at hn
  rw [hk.text?_eq h.rootAt h.plain he hn, (h.untouched name).modified?_eq]
  exact h.loaded name he hn

theorem Quiet.iterate {s₀ : Site E} (h : Quiet place s₀) (name : String) : ∀ n : Nat,
    Untouched name s₀.world ((fun s => s.scan.1)^[n] s₀).world
  | 0 => .refl _
  | n + 1 => (h.untouched name).trans (h.scan.iterate name n)

/-- The generation of a module is the number of scans that found its file with another time of
modification than the load before. Each such scan loads it once, any other scan leaves it untouched,
and so do all scans after it that find the file as it was. Where there are no links, a scan finds
the file that is there when it begins, and files that nobody changes are never loaded again. -/
theorem scans_load_changes (root : String) (start : FileTree) (extension : Option String)
    (trees : List FileTree) (name : String) :
    let s₀ : Site E := .start root start extension
    (s₀.rescan trees).world.generation name = loads none (s₀.sightings name trees) ∧
    ∀ files, let s : Site E := { s₀.rescan trees with files }
      (s.sighting name = none ∨ s.sighting name = s.world.modified? name →
        Untouched name s.world s.scan.1.world) ∧
      (∀ modified, s.sighting name = some modified → s.world.modified? name ≠ some modified →
        s.scan.1.world.modified? name = some modified ∧
        s.scan.1.world.generation name = s.world.generation name + 1) ∧
      (∀ later, (∀ found ∈ s.scan.1.sightings name later, found = none ∨ found = s.sighting name) →
        Untouched name s.scan.1.world (s.scan.1.rescan later).world) ∧
      (files.Plain s.world.root → ∀ report, s.scan.2 = .ok report →
        (FileName.IsEntry name → s.Holds name → s.sighting name = s.text? name) ∧
        ∀ n, Untouched name s.scan.1.world ((fun u => u.scan.1)^[n] s.scan.1).world) := by
  intro s₀
  refine ⟨?_, fun files => ?_⟩
  · rw [generation_rescan]
    exact Nat.zero_add _
  intro s
  have hidle : s.Idle := by
    have h₀ : s₀.Idle := ⟨rfl, rfl⟩
    exact ⟨h₀.rescan.scanning, h₀.rescan.settled⟩
  refine ⟨scan_untouched, fun _ => scan_loads, fun later hf => ?_, fun hplain report hok => ?_⟩
  · refine rescan_untouched fun found hm => ?_
    rcases hf found hm with hf | hf
    · exact .inl hf
    · rw [hf]
      exact s.scan_modified? name
  · obtain ⟨place, hq⟩ := quiet_of_scan hidle hplain hok
    refine ⟨fun he hn => ?_, hq.iterate name⟩
    obtain ⟨-, hdir, -⟩ := scan_ok hidle hok
    obtain ⟨place, hroot⟩ := exists_rootAt hdir
    exact sighting_eq hidle hroot hplain hok he hn

/-! ## One module -/

theorem moduleNames_eq {path listed : List String} (hp : FilePath.ofText s.world.root = .ok path)
    (hl : s.files.list path = .ok listed) :
    s.moduleNames = .ok ((listed.filter fun n =>
      FileName.isText n && ModuleName.eligible n s.extension).mergeSort fun a b =>
        compare a b != .gt) := by
  simp only [moduleNames, hp, bind, Except.bind, hl]
  rfl

/-- A scan that finds its directory looks at the names in it. -/
theorem scan_eq {names : List String} (h : s.scanning = false) (hd : s.rootIsDir = true)
    (ho : { s with scanning := true }.openDirs.2 = none) (hn : s.opened.moduleNames = .ok names) :
    s.scan = ({ (s.opened.visitAll names).1 with scanning := false },
      .ok (report (s.opened.visitAll names).1.world.records.keys (s.opened.visitAll names).2)) := by
  have hd : { s with scanning := true }.rootIsDir = true := hd
  rcases he : { s with scanning := true }.openDirs with ⟨s₁, fault⟩
  have hs₁ : s.opened = s₁ := congrArg Prod.fst he
  rw [he] at ho
  cases ho
  rw [hs₁] at hn
  simp only [scan, scanNow, h, hd, he, hn, hs₁, Bool.false_eq_true, Bool.not_true, ↓reduceIte]

/-- When a scan comes to its end. -/
theorem scan_of_names {names : List String} (h : s.scanning = false) (hd : s.rootIsDir = true)
    (ho : { s with scanning := true }.openDirs.2 = none) (hn : s.opened.moduleNames = .ok names) :
    s.scan.1.world = (s.opened.visitAll names).1.world ∧ ∃ report, s.scan.2 = .ok report := by
  rw [scan_eq h hd ho hn]
  exact ⟨rfl, _, rfl⟩

end Site

/-- A watched directory with one module. -/
def oneModule : FileTree := bareFiles.put ["world", "a.lua"] (.file "late".toUTF8 ⟨100, 0⟩ true)

theorem oneModule_nodes {place : List String} {node : FileNode}
    (h : oneModule.node? place = some node) :
    (place = ["world", "a.lua"] ∨ bareFiles.node? place = some node) ∧
      ∀ target, node ≠ .link target := by
  rw [oneModule, node?_put (List.cons_ne_nil _ _)] at h
  split at h
  · cases h
    exact ⟨.inl ‹_›, fun _ => FileNode.noConfusion⟩
  · refine ⟨.inr h, fun target ht => ?_⟩
    rw [(bareFiles_nodes h).2] at ht
    cases ht

theorem oneModule_plain : oneModule.Plain "world" := by
  have hroot : oneModule.RootAt "world" ["world"] := ⟨by decide +kernel, rfl⟩
  refine ⟨.of_no_link (fun place target h => (oneModule_nodes h).2 target rfl) hroot rfl rfl, ?_⟩
  intro place h name node hn
  cases h.unique hroot
  obtain ⟨hp, hl⟩ := oneModule_nodes hn
  refine ⟨?_, hl⟩
  rcases hp with hp | hb
  · have hname : name = "a.lua" := by simpa using hp
    exact hname ▸ ⟨by decide, by decide, by decide, by decide⟩
  · have hname : name = logsDir ∨ name = errorsDir := by simpa using (bareFiles_nodes hb).1
    rcases hname with rfl | rfl
    · exact isEntry_logsDir
    · exact isEntry_errorsDir

/-- A file that nobody changes is loaded once, however often it is scanned. -/
theorem unchanged_file_loads_once :
    ∃ (s : Site stumbler) (report : ScanReport), s = .start "world" oneModule none ∧
      oneModule.Plain "world" ∧ s.scan.2 = .ok report ∧ s.scan.1.world.generation "a.lua" = 1 ∧
      ∀ n, ((fun u => u.scan.1)^[n] s.scan.1).world.generation "a.lua" = 1 := by
  let s : Site stumbler := .start "world" oneModule none
  have hnames : s.opened.moduleNames = .ok ["a.lua"] := by
    have hp : FilePath.ofText s.opened.world.root = .ok ["world"] := by decide +kernel
    have hl : s.opened.files.list ["world"] = .ok [errorsDir, logsDir, "a.lua"] := by
      decide +kernel
    have hf : [errorsDir, logsDir, "a.lua"].filter (fun n =>
        FileName.isText n && ModuleName.eligible n s.opened.extension) = ["a.lua"] := by
      decide +kernel
    rw [Site.moduleNames_eq hp hl, hf, List.mergeSort_singleton]
  obtain ⟨hw, report, hok⟩ := s.scan_of_names rfl (by decide +kernel)
    (Option.isNone_iff_eq_none.1 (by decide +kernel)) hnames
  have hgen : (s.opened.visitAll ["a.lua"]).1.world.generation "a.lua" = 1 := by decide +kernel
  rw [← hw] at hgen
  obtain ⟨-, hscan⟩ := Site.scans_load_changes (E := stumbler) "world" oneModule none [] "a.lua"
  have hs : { (Site.start "world" oneModule none : Site stumbler).rescan [] with
    files := oneModule } = s := rfl
  obtain ⟨-, -, -, h⟩ := hscan oneModule
  simp only [hs] at h
  obtain ⟨-, hsame⟩ := h oneModule_plain report hok
  refine ⟨s, report, rfl, oneModule_plain, hok, hgen, fun n => ?_⟩
  rw [(hsame n).generation_eq, hgen]

end LiveModules
