import LiveModules.Proofs.Absences

/-!
# The ways out of a scan

A scan that comes to no report leaves the world as it was, and one that is skipped leaves everything
as it was. A file that fails leaves one notice and what tells of its failure (`scan_contains`), and
the scan does with the other files what it does when the file is not there (`scan_exits`). Every
way out ends the scan, so scans that follow each other are never skipped (`Run.scanning`).
-/

namespace LiveModules

open World Artifacts FileTree

attribute [local irreducible] lastOf

namespace Artifacts

variable {t : FileTree} {root module name : String}

/-- What went wrong is written beside the logs. -/
theorem edited_log (htidy : Tidy t root) (hm : FileName.IsEntry module)
    (hn : FileName.IsEntry name) (detail : String) :
    logContent? (edited root t (module, .writeError detail)) root name =
      logContent? t root name := by
  refine (content_eq _ root logsDir name).trans (Eq.trans ?_ (content_eq t root logsDir name).symm)
  rw [place?_edited htidy hm (.inr rfl) hn]
  rcases hp : place? t root logsDir name with _ | p
  · rfl
  have hne : place? t root errorsDir module ≠ some p := fun he =>
    absurd (place?_inj htidy (.inl rfl) (.inr rfl) hm hn he hp).1 (by decide)
  have hp' : p ≠ [] := (place?_no_link htidy (.inr rfl) hn hp).1
  have hsame : (edited root t (module, .writeError detail)).nodes.find? p = t.nodes.find? p :=
    (find?_edited htidy hm p).trans (if_neg hne)
  simp only [Option.bind_some, node?_of_ne_nil hp', hsame]

theorem DirEnsured.log {t' : FileTree} {place : List String} {dir : String}
    (h : DirEnsured t t' (place ++ [dir])) (hroot : t.RootAt root place) (htidy : Tidy t root)
    (hn : FileName.IsEntry name) : logContent? t' root name = logContent? t root name := by
  rcases h with rfl | ⟨hnone, hp⟩
  · rfl
  have hdir : DirEnsured t t' (place ++ [dir]) := .inr ⟨hnone, hp⟩
  have htidy' := hdir.tidy hroot htidy
  have hroot' := hroot.mono hdir.extends
  have hin : t'.node? (place ++ [logsDir, name]) = t.node? (place ++ [logsDir, name]) := by
    rw [hp, if_neg (by simp)]
  refine (content_eq _ root logsDir name).trans (Eq.trans ?_ (content_eq t root logsDir name).symm)
  have hhere (found : List String) : place? t root logsDir name = some found ↔ _ :=
    place?_eq_some_iff htidy (.inr rfl) hn
  have hthere (found : List String) : place? t' root logsDir name = some found ↔ _ :=
    place?_eq_some_iff htidy' (.inr rfl) hn
  rcases hl : place? t root logsDir name with _ | p
  · -- the place may be new, but then nothing stands there
    rcases hl' : place? t' root logsDir name with _ | p'
    · rfl
    obtain ⟨htext, hlong, place', hr, hd, rfl⟩ := (hthere p').1 hl'
    cases hr.unique hroot'
    have habsent : t.node? (place ++ [logsDir]) = none := by
      by_contra hsome
      rw [hp] at hd
      split at hd
      · rename_i he
        exact hsome (he ▸ hnone)
      · rw [(hhere (place ++ [logsDir, name])).2 ⟨htext, hlong, place, hroot, hd, rfl⟩] at hl
        cases hl
    have hempty := (htidy.logs place hroot).none_in habsent name
    simp [hin, hempty]
  · obtain ⟨htext, hlong, place', hr, hd, rfl⟩ := (hhere p).1 hl
    cases hr.unique hroot
    have hd' := hdir.extends _ _ (fun _ _ _ => FileNode.noConfusion) hd
    rw [(hthere (place ++ [logsDir, name])).2 ⟨htext, hlong, place, hroot', hd', rfl⟩,
      Option.bind_some, Option.bind_some, hin]

/-- No log changes when the directories are made. -/
theorem ensureDirs_log {place : List String} (hroot : t.RootAt root place) (htidy : Tidy t root)
    (hn : FileName.IsEntry name) :
    logContent? (ensureDirs t root).1 root name = logContent? t root name := by
  refine (ensureDirs_induction (P := fun t' => t'.RootAt root place ∧ Tidy t' root ∧
    logContent? t' root name = logContent? t root name) ⟨hroot, htidy, rfl⟩ ?_).2.2
  rintro t₁ t₂ dir hd ⟨hroot₁, htidy₁, he⟩ h
  have hdir := dirEnsured_of_artifactDir hroot₁ hd h
  exact ⟨hroot₁.mono hdir.extends, hdir.tidy hroot₁ htidy₁, (hdir.log hroot₁ htidy₁ hn).trans he⟩

end Artifacts

namespace Site

variable {E : Engine} {L : Licence} {C : FileTree → FileTree → Prop} {s s₀ t : Site E}
  {place names : List String} {name module : String}

/-! ## Scans that come to no report -/

/-- A scan that comes to no report did not find its directory, could not make the directories that
the host writes to, or could not list the names. -/
theorem scan_error {e : HostError} (h : s.scan.2 = .error e) : s.scan.1.world = s.world ∧
    (e = .directoryNotFound s.world.root ∧ s.scan.1.files = s.files ∨
      s.scan.1.files = (ensureDirs s.files s.world.root).1 ∧
        ((ensureDirs s.files s.world.root).2 = some e ∨
          ∃ fault : FileError, e = .scanFailed s.world.root fault.message)) := by
  unfold scan at h ⊢
  split at h
  · cases h
  rename_i hscan
  rw [if_neg hscan]
  simp only [scanNow] at h ⊢
  split at h
  · rename_i hdir
    rw [if_pos hdir]
    cases h
    exact ⟨rfl, .inl ⟨rfl, rfl⟩⟩
  rename_i hdir
  rw [if_neg hdir]
  split at h
  · rename_i s₁ fault ho
    cases h
    obtain rfl : s.opened = s₁ := congrArg Prod.fst ho
    exact ⟨rfl, .inr ⟨s.opened_files, .inl (congrArg Prod.snd ho)⟩⟩
  · rename_i s₁ ho
    obtain rfl : s.opened = s₁ := congrArg Prod.fst ho
    split at h
    · rename_i fault hnames
      cases h
      exact ⟨rfl, .inr ⟨s.opened_files, .inr ⟨fault, rfl⟩⟩⟩
    · cases h

theorem scan_skipped {report : ScanReport} (h : s.scan.2 = .ok report) :
    (report.skipped = true ↔ s.scanning = true) ∧ (report.skipped = true → s.scan.1 = s) := by
  have hs := s.scanned
  generalize s.scan = r at hs h
  cases hs with
  | skipped hscan =>
    cases h
    exact ⟨iff_of_true rfl hscan, fun _ => rfl⟩
  | noRoot | stopped => cases h
  | visited names hscan =>
    cases h
    exact ⟨by simp [Site.report, hscan], nofun⟩

/-! ## The end of a scan -/

theorem scan_scanning (h : s.scanning = false) : s.scan.1.scanning = false := by
  have hs := s.scanned
  generalize s.scan = r at hs
  cases hs with
  | visited | stopped => rfl
  | _ => exact h

theorem settle_scanning (s : Site E) : s.settle.scanning = s.scanning :=
  settle_keeps (P := fun u => u.scanning = s.scanning) rfl fun u change _ h => by
    rcases u.makeChange_cases change with ⟨files, -, hu⟩ | ⟨e, hu⟩ <;>
    · rw [hu]
      exact h

/-- Between steps no scan is under way. -/
theorem Run.scanning (h : Run L C s₀ s) : s.scanning = false := by
  refine h.induction (P := fun s => s.scanning = false) (fun _ _ _ hs => hs ▸ rfl) ?_
  intro s s' _ ih hs
  cases hs with
  | change => exact ih
  | clock => exact ih
  | scan => exact scan_scanning ih
  | reload name modified source =>
    rw [reload_eq]
    exact (settle_scanning _).trans ih
  | act fuel a r _ h =>
    obtain ⟨_, -, rfl⟩ := act_inv h
    exact (settle_scanning _).trans ih
  | dispatch fuel module event n h =>
    obtain ⟨_, -, rfl⟩ := dispatch_inv h
    exact (settle_scanning _).trans ih
  | checkSpawns fuel owner keys h =>
    obtain ⟨_, -, rfl⟩ := checkSpawns_inv h
    exact (settle_scanning _).trans ih

/-! ## A file that fails -/

theorem eq_of_parts {s t : Site E} (hw : s.world = t.world) (hf : s.files = t.files)
    (he : s.extension = t.extension) (hs : s.scanning = t.scanning) : s = t := by
  cases s
  cases t
  cases hw
  cases hf
  cases he
  cases hs
  rfl

/-- The site when a file was found not to be readable: one more notice was given, and what went
wrong was written. -/
def blamed (t : Site E) (name detail : String) (journal : Array Entry) : Site E :=
  { t with
    world := { t.world.notify (World.loadError name detail) with journal }
    files := edited t.world.root t.files (name, .writeError detail) }

theorem readFailed_files (ho : t.world.disk = #[]) (name : String) (e : FileError) :
    (t.readFailed name e).files = edited t.world.root t.files
      (name, .writeError (HostError.moduleRead name e.message).message) := by
  rw [readFailed_eq, settle_files]
  show editAll _ _ (t.world.disk.push _).toList = _
  rw [ho]
  rfl

theorem readFailed_blamed (ho : t.world.disk = #[]) (name : String) (e : FileError) :
    ∃ journal, t.readFailed name e =
      t.blamed name (HostError.moduleRead name e.message).message journal := by
  obtain ⟨journal, hw⟩ := settle_world { t with world := t.world.readFailed name e.message }
  rw [← ho] at hw
  have hfiles := readFailed_files ho name e
  rw [readFailed_eq] at hfiles ⊢
  exact ⟨journal, eq_of_parts hw hfiles (settle_extension _) (settle_scanning _)⟩

/-! ## The log of a file that fails -/

theorem visit_log (hm : FileName.IsEntry module) (hn : FileName.IsEntry name)
    (ho : s.world.disk = #[]) (htidy : Tidy s.files s.world.root)
    (h : module ≠ name ∨ ∃ e, s.visit module = (s.readFailed module e, .failed)) :
    logContent? (s.visit module).1.files s.world.root name =
      logContent? s.files s.world.root name := by
  have hfail (e : FileError) : logContent? (s.readFailed module e).files s.world.root name =
      logContent? s.files s.world.root name := by
    rw [readFailed_files ho]
    exact edited_log htidy hm hn _
  rcases h with hne | ⟨e, hv⟩
  · refine visit_keeps (P := fun t => logContent? t.files s.world.root name = _) rfl hfail
      fun modified source => ?_
    rw [reload_files ho]
    refine (content_editAll htidy (isEntry_writes hm _) hn fun c hc he => ?_).1
    obtain ⟨write, -, rfl⟩ := List.mem_map.1 hc
    exact hne he
  · rw [hv]
    exact hfail e

/-- What a scan makes of a file that fails in its turn, and of what the file's module holds. -/
structure Contained (s : Site E) (names : List String) (name detail : String)
    (report : ScanReport) : Prop where
  turn : ∃ journal, (s.turnOf names name).visit name =
    ((s.turnOf names name).blamed name detail journal, .failed)
  reported : name ∈ report.failed
  record : s.scan.1.world.records.find? name = s.world.records.find? name
  surface : s.scan.1.world.surfaces.find? name = s.world.surfaces.find? name

theorem scan_contains (ho : s.world.disk = #[]) {report : ScanReport} (h : s.scan.2 = .ok report)
    (hrun : report.skipped = false) (hnames : s.opened.moduleNames = .ok names) (hn : name ∈ names)
    {e : FileError} (hun : Unreadable (s.world.modified? name) (s.turnOf names name) name e) :
    Contained s names name (HostError.moduleRead name e.message).message report := by
  obtain ⟨_, -, -, hnames₁, hs₁, rfl⟩ := visited_of_ok h hrun
  cases hnames.symm.trans hnames₁
  obtain ⟨rest, hrest, hturn, hv⟩ := visitAll_of_mem (s := s) (moduleNames_nodup hnames) hn
  have hvisit : (s.turnOf names name).visit name =
      ((s.turnOf names name).readFailed name e, .failed) :=
    visit_of_unreadable (hturn.modified?_eq ▸ hun)
  have hall : Untouched name s.world s.scan.1.world := by
    rw [hs₁, hv, hvisit]
    exact (hturn.trans (readFailed_untouched name e)).trans (visitAll_untouched hrest)
  have hsettled : (s.turnOf names name).world.disk = #[] := visitAll_disk (s := s.opened) ho
  obtain ⟨journal, hblamed⟩ := readFailed_blamed hsettled name e
  refine ⟨⟨journal, by rw [hvisit, hblamed]⟩, ?_, hall.record, hall.surface⟩
  rw [Site.report, mem_report, mem_visitAll (moduleNames_nodup hnames)]
  exact ⟨hn, congrArg Prod.snd hvisit⟩

theorem visitAll_log (hentry : ∀ other ∈ names, FileName.IsEntry other)
    (hn : FileName.IsEntry name) (hnot : name ∉ names) (ho : s.world.disk = #[])
    (hroot : s.files.RootAt s.world.root place) (htidy : Tidy s.files s.world.root) :
    logContent? (s.visitAll names).1.files s.world.root name =
      logContent? s.files s.world.root name := by
  refine (visitAll_keeps (P := fun t => FilesKept place s t ∧ t.world.disk = #[] ∧
    logContent? t.files s.world.root name = logContent? s.files s.world.root name)
    ⟨.refl htidy, ho, rfl⟩ ?_).2.2
  rintro t other hm ⟨hk, ht, hl⟩
  have hlog := visit_log (hentry other hm) hn ht hk.tidy (.inl fun he => hnot (he ▸ hm))
  rw [hk.rooted] at hlog
  exact ⟨hk.trans (visit_kept (hentry other hm) ht (hk.rootAt hroot) hk.tidy), visit_disk ht,
    hlog.trans hl⟩

/-- The log of a module whose file fails stays, whatever comes of the other files. -/
theorem scan_log (hs : s.Secluded place name) (ho : s.world.disk = #[]) {report : ScanReport}
    (h : s.scan.2 = .ok report) (hrun : report.skipped = false)
    (hnames : s.opened.moduleNames = .ok names) (hn : name ∈ names) {e : FileError}
    (hun : Unreadable (s.world.modified? name) (s.turnOf names name) name e) :
    logContent? s.scan.1.files s.world.root name = logContent? s.files s.world.root name := by
  obtain ⟨_, -, -, hnames₁, hs₁, rfl⟩ := visited_of_ok h hrun
  cases hnames.symm.trans hnames₁
  have hentry : ∀ other ∈ names, FileName.IsEntry other := by
    intro other hm
    by_cases he : other = name
    · exact he ▸ hs.entry.1
    · exact hs.entry.2 other ⟨he, (opened_entries hs.rootAt hnames other).1 hm⟩
  obtain ⟨before, after, rfl, hbefore, hafter⟩ := split_names (moduleNames_nodup hnames) hn
  rw [turnOf, takeWhile_ne hbefore] at hun
  have hkept : Untouched name s.world (s.opened.visitAll before).1.world :=
    visitAll_untouched (s := s.opened) hbefore
  rw [← hkept.modified?_eq] at hun
  have hvisit := visit_of_unreadable hun
  rw [hs₁, visitAll_append, visitAll_cons_fst]
  -- the directories are made, then come the names before the file, the file, and those behind it
  have hk := opened_kept hs.rootAt hs.tidy
  have hk₁ : FilesKept place s (s.opened.visitAll before).1 :=
    hk.trans <| visitAll_kept (fun other hm => hentry other (List.mem_append_left _ hm)) ho
      (hk.rootAt hs.rootAt) hk.tidy
  have ho₁ : (s.opened.visitAll before).1.world.disk = #[] :=
    visitAll_disk (s := s.opened) ho
  have hk₂ := hk₁.trans <| visit_kept hs.entry.1 ho₁ (hk₁.rootAt hs.rootAt) hk₁.tidy
  have hmade : logContent? s.opened.files s.world.root name =
      logContent? s.files s.world.root name := by
    rw [opened_files]
    exact ensureDirs_log hs.rootAt hs.tidy hs.entry.1
  have hlog₁ := visitAll_log (s := s.opened)
    (fun other hm => hentry other (List.mem_append_left _ hm)) hs.entry.1 hbefore ho
    (hk.rootAt hs.rootAt) hk.tidy
  have hlog₂ := visit_log hs.entry.1 hs.entry.1 ho₁ hk₁.tidy (.inr ⟨e, hvisit⟩)
  have hlog₃ := visitAll_log
    (fun other hm => hentry other (List.mem_append_right before (List.mem_cons_of_mem name hm)))
    hs.entry.1 hafter (visit_disk ho₁) (hk₂.rootAt hs.rootAt) hk₂.tidy
  rw [hk₁.rooted] at hlog₂
  rw [hk₂.rooted] at hlog₃
  exact hlog₃.trans (hlog₂.trans (hlog₁.trans hmade))

/-! ## All ways out -/

/-- A scan that comes to no report leaves the world as it was, a scan that is skipped leaves
everything, and after any other no scan is under way. Of a file that fails in its turn, one notice
and what is written beside the logs tells; the log of its module stays, and the other files are
dealt with as if the file were not there, unless a link leads over it or over what tells of it. -/
theorem scan_exits (s : Site E) :
    (∀ e, s.scan.2 = .error e → s.scan.1.world = s.world ∧
      (e = .directoryNotFound s.world.root ∧ s.scan.1.files = s.files ∨
        s.scan.1.files = (ensureDirs s.files s.world.root).1 ∧
          ((ensureDirs s.files s.world.root).2 = some e ∨
            ∃ fault : FileError, e = .scanFailed s.world.root fault.message))) ∧
    (∀ report, s.scan.2 = .ok report →
      (report.skipped = true ↔ s.scanning = true) ∧ (report.skipped = true → s.scan.1 = s)) ∧
    (s.world.disk = #[] → ∀ report, s.scan.2 = .ok report → report.skipped = false →
      ∀ names, s.opened.moduleNames = .ok names → ∀ name ∈ names, ∀ e,
      Unreadable (s.world.modified? name) (s.turnOf names name) name e →
      let detail := (HostError.moduleRead name e.message).message
      Contained s names name detail report ∧ ∀ place, s.Secluded place name →
        logContent? s.scan.1.files s.world.root name = logContent? s.files s.world.root name ∧
        ∃ report', (s.without place name).scan.2 = .ok report' ∧
          Spared s place name detail report report') ∧
    (s.scanning = false → s.scan.1.scanning = false) ∧
    ∀ L C s₀, Run L C s₀ s → s.scanning = false ∧
      ∀ report, s.scan.2 = .ok report → report.skipped = false := by
  refine ⟨fun e => scan_error, fun report => scan_skipped, ?_, scan_scanning, ?_⟩
  · intro ho report h hrun names hnames name hn e hun
    refine ⟨scan_contains ho h hrun hnames hn hun, fun place hs => ?_⟩
    exact ⟨scan_log hs ho h hrun hnames hn hun, scan_spares hs ho h hrun hnames hn hun⟩
  · intro L C s₀ hr
    refine ⟨hr.scanning, fun report h => ?_⟩
    rw [← Bool.not_eq_true, (scan_skipped h).1, hr.scanning]
    exact Bool.false_ne_true

end Site

/-- A module, and a file that nobody may read. -/
def sealedFile : FileTree :=
  oneModule.put ["world", "b.lua"] (.file "late".toUTF8 ⟨100, 0⟩ false)

theorem sealedFile_plain : sealedFile.Plain "world" := by
  let s : Site stumbler := .start "world" oneModule none
  have hroot : s.files.RootAt s.world.root ["world"] := ⟨by decide +kernel, rfl⟩
  have he : FileName.IsEntry "b.lua" := ⟨by decide, by decide, by decide, by decide⟩
  have hnone : oneModule.node? ["world", "b.lua"] = none :=
    Option.isNone_iff_eq_none.1 (by decide +kernel)
  exact (Site.put_plain hroot oneModule_plain he ⟨by decide, by decide⟩
    (fun h => nomatch hnone.symm.trans h) "late".toUTF8 ⟨100, 0⟩ false).2

/-- The module is loaded, and of the file that cannot be read one notice tells. -/
theorem sealed_file_contained : ∃ (s : Site stumbler) (report report' : ScanReport),
    s = .start "world" sealedFile none ∧ s.scan.2 = .ok report ∧ report.failed = ["b.lua"] ∧
      report.reloaded = ["a.lua"] ∧
      Site.Contained s ["a.lua", "b.lua"] "b.lua"
        (HostError.moduleRead "b.lua" FileError.notPermitted.message).message report ∧
      (s.without ["world"] "b.lua").scan.2 = .ok report' ∧
      Site.Spared s ["world"] "b.lua"
        (HostError.moduleRead "b.lua" FileError.notPermitted.message).message report report' := by
  let s : Site stumbler := .start "world" sealedFile none
  have hnames : s.opened.moduleNames = .ok ["a.lua", "b.lua"] :=
    Site.moduleNames_of_list ["world"] [errorsDir, logsDir, "a.lua", "b.lua"]
      (by decide +kernel)
      (by decide +kernel) (by decide +kernel) (by decide +kernel)
  have hscan := congrArg Prod.snd (s.scan_eq rfl (by decide +kernel)
    (Option.isNone_iff_eq_none.1 (by decide +kernel)) hnames)
  have hun : Site.Unreadable (s.world.modified? "b.lua")
      (s.turnOf ["a.lua", "b.lua"] "b.lua") "b.lua" .notPermitted :=
    .inr ⟨⟨100, 0⟩, by decide +kernel, nofun, by decide +kernel⟩
  have hleaf : IsLeaf (sealedFile.node? (["world"] ++ ["b.lua"])) := by
    rw [sealedFile, List.singleton_append, node?_put (List.cons_ne_nil _ _), if_pos rfl]
    exact fun n hn => ⟨_, _, _, (Option.some.inj hn).symm⟩
  have hsecluded : s.Secluded ["world"] "b.lua" :=
    Site.secluded_of_plain ⟨by decide +kernel, rfl⟩ sealedFile_plain ⟨by decide, by decide⟩
      ⟨by decide, by decide, by decide, by decide⟩ hleaf
  obtain ⟨-, -, hfails, -⟩ := s.scan_exits
  obtain ⟨hcontained, hspared⟩ := hfails rfl _ hscan rfl _ hnames "b.lua" (by decide) _ hun
  obtain ⟨-, report', hok', hsp⟩ := hspared ["world"] hsecluded
  exact ⟨s, _, report', rfl, hscan, by decide +kernel, by decide +kernel, hcontained, hok', hsp⟩

/-- A file that is no text, and a module that is reached over what tells of the file. -/
def detour : FileTree :=
  ((bareFiles.put ["world", errorsDir, "a.lua"] (.link "../b.lua")).put ["world", "a.lua"]
    (.file ⟨#[255]⟩ ⟨100, 0⟩ true)).put ["world", "b.lua"] (.file "late".toUTF8 ⟨100, 0⟩ true)

/-- Where a link leads from what tells of a file to a module, the module is lost when the file
fails; without the file it is loaded. -/
theorem failure_overwrites_module : ∃ (s : Site stumbler) (report report' : ScanReport),
    s = .start "world" detour none ∧ s.opened.moduleNames = .ok ["a.lua", "b.lua"] ∧
      Site.Unreadable (s.world.modified? "a.lua") (s.turnOf ["a.lua", "b.lua"] "a.lua") "a.lua"
        .notText ∧
      s.scan.2 = .ok report ∧ report.failed = ["a.lua", "b.lua"] ∧ report.reloaded = [] ∧
      (s.without ["world"] "a.lua").scan.2 = .ok report' ∧ report'.failed = [] ∧
      report'.reloaded = ["b.lua"] := by
  let s : Site stumbler := .start "world" detour none
  let s' := s.without ["world"] "a.lua"
  have hnames : s.opened.moduleNames = .ok ["a.lua", "b.lua"] :=
    Site.moduleNames_of_list ["world"] [errorsDir, logsDir, "a.lua", "b.lua"]
      (by decide +kernel)
      (by decide +kernel) (by decide +kernel) (by decide +kernel)
  have hnames' : s'.opened.moduleNames = .ok ["b.lua"] :=
    Site.moduleNames_of_list ["world"] [errorsDir, logsDir, "b.lua"]
      (by decide +kernel) (by decide +kernel) (by decide +kernel) (by decide +kernel)
  have hscan := congrArg Prod.snd (s.scan_eq rfl (by decide +kernel)
    (Option.isNone_iff_eq_none.1 (by decide +kernel)) hnames)
  have hscan' := congrArg Prod.snd (s'.scan_eq rfl (by decide +kernel)
    (Option.isNone_iff_eq_none.1 (by decide +kernel)) hnames')
  exact ⟨s, _, _, rfl, hnames, .inr ⟨⟨100, 0⟩, by decide +kernel, nofun, by decide +kernel⟩,
    hscan, by decide +kernel, by decide +kernel, hscan', by decide +kernel, by decide +kernel⟩

end LiveModules
