import LiveModules.Proofs.Records
import LiveModules.Proofs.Rescans

/-!
# Writers between the steps of a scan

A scan of one file looks at its time, compares that with the record, and reads; somebody may put
another version in the place of the file between any two of these steps (`Scene.Step`). No second
scan is under way meanwhile, as a site that is scanning skips it. The time that is recorded is that
of the look, so it may belong to an older version than the text that was read. It is never that of a
version to come, as no time is used twice: where it is the time of the file, the text is that of the
file (`Scene.Sound.read`).
-/

namespace LiveModules

open World Artifacts FileTree
open Relation (ReflTransGen)

attribute [local irreducible] lastOf

variable {E : Engine} {place : List String} {name : String}

/-- How far a scan has come with a file: the time that it saw, and whether that is not the recorded
one. -/
inductive Stage where
  | idle
  | looked (modified : FileTime)
  | stale (modified : FileTime)

def Stage.modified? : Stage → Option FileTime
  | idle => none
  | looked modified | stale modified => some modified

/-- A site with a scan of one file under way, and what is known of the past: the surface and the
text of the latest evaluation of its module, and the times that the file has had. -/
structure Scene (E : Engine) where
  site : Site E
  stage : Stage
  evaluated : Option (Nat × String)
  used : List FileTime

namespace Scene

def timesAt (t : FileTree) (place : List String) : List FileTime :=
  match t.node? place with
  | some (.file _ modified _) => [modified]
  | _ => []

def start (root : String) (files : FileTree) (extension : Option String) (place : List String)
    (name : String) : Scene E :=
  ⟨.start root files extension, .idle, none, timesAt files (place ++ [name])⟩

def write (c : Scene E) (place : List String) (name : String) (content : ByteArray)
    (modified : FileTime) (readable : Bool) : Scene E :=
  { c with
    site := { c.site with
      files := c.site.files.put (place ++ [name]) (.file content modified readable) }
    used := modified :: c.used }

/-- One step of the scan of the file `name` in the directory at `place`, or of something else. -/
inductive Step (place : List String) (name : String) : Scene E → Scene E → Prop
  /-- A version is written, with a time that the file never had. -/
  | write (c : Scene E) (content : ByteArray) (modified : FileTime) (readable : Bool) :
      c.site.files.node? (place ++ [name]) ≠ some .dir → modified ∉ c.used →
      Step place name c (c.write place name content modified readable)
  | look (c : Scene E) (modified : FileTime) : c.stage = .idle →
      c.site.stat name = .ok (.file modified) →
      Step place name c { c with stage := .looked modified }
  | lookFailed (c : Scene E) (e : FileError) : c.stage = .idle → c.site.stat name = .error e →
      Step place name c { c with site := c.site.readFailed name e }
  | compare (c : Scene E) (modified : FileTime) : c.stage = .looked modified →
      Step place name c { c with
        stage := if c.site.world.needsReload name modified then .stale modified else .idle }
  | read (c : Scene E) (modified : FileTime) (text : String) : c.stage = .stale modified →
      c.site.readText name = .ok text →
      Step place name c { c with
        site := c.site.reload name modified text
        stage := .idle
        evaluated := some (c.site.world.nextId, text) }
  | readFailed (c : Scene E) (modified : FileTime) (e : FileError) : c.stage = .stale modified →
      c.site.readText name = .error e →
      Step place name c { c with site := c.site.readFailed name e, stage := .idle }
  /-- A scan of the directory begins, and its other files are visited, and it ends. -/
  | opened (c : Scene E) : c.stage = .idle → c.site.scanning = false →
      Step place name c { c with site := c.site.opened }
  | visit (c : Scene E) (other : String) : other ≠ name → FileName.IsEntry other →
      Step place name c { c with site := (c.site.visit other).1 }
  | ended (c : Scene E) : c.stage = .idle →
      Step place name c { c with site := { c.site with scanning := false } }
  /-- The host does something else. -/
  | act (c : Scene E) {site : Site E} (fuel : Nat) (a : Action) (r : Answer) :
      c.site.act fuel a = some (site, r) → Step place name c { c with site }

/-- A step at which no version is written. -/
def Still (place : List String) (name : String) (c c' : Scene E) : Prop :=
  Step place name c c' ∧ c'.used = c.used

/-- To visit a name is to take the steps of its scan, with nothing between. -/
theorem visit_still (c : Scene E) (h : c.stage = .idle) :
    ∃ c', ReflTransGen (Still place name) c c' ∧ c'.site = (c.site.visit name).1 ∧
      c'.stage = .idle := by
  unfold Site.visit
  rcases hstat : c.site.stat name with e | modified | _
  · exact ⟨_, .single ⟨.lookFailed c e h hstat, rfl⟩, rfl, h⟩
  · have hlook : Still place name c { c with stage := .looked modified } :=
      ⟨.look c modified h hstat, rfl⟩
    have hcompare := @Step.compare E place name { c with stage := .looked modified } modified rfl
    dsimp only at hcompare ⊢
    by_cases hr : c.site.world.needsReload name modified = true
    · rw [if_pos hr] at hcompare ⊢
      have hstale := (ReflTransGen.single hlook).tail ⟨hcompare, rfl⟩
      unfold Site.readAndReload
      rcases ht : c.site.readText name with e | text
      · exact ⟨_, hstale.tail ⟨.readFailed _ modified e rfl ht, rfl⟩, rfl, rfl⟩
      · exact ⟨_, hstale.tail ⟨.read _ modified text rfl ht, rfl⟩, rfl, rfl⟩
    · rw [if_neg hr] at hcompare ⊢
      exact ⟨_, (ReflTransGen.single hlook).tail ⟨hcompare, rfl⟩, rfl, rfl⟩
  · exact ⟨c, .refl, rfl, h⟩

theorem visitAll_still {names : List String} (hn : ∀ n ∈ names, FileName.IsEntry n) (c : Scene E)
    (h : c.stage = .idle) : ∃ c', ReflTransGen (Still place name) c c' ∧
      c'.site = (c.site.visitAll names).1 ∧ c'.stage = .idle := by
  induction names generalizing c with
  | nil => exact ⟨c, .refl, rfl, h⟩
  | cons n rest ih =>
    have hfirst : ∃ c₁, ReflTransGen (Still place name) c c₁ ∧ c₁.site = (c.site.visit n).1 ∧
        c₁.stage = .idle := by
      by_cases hname : n = name
      · rw [hname]
        exact c.visit_still h
      · exact ⟨_, .single ⟨.visit c n hname (hn n List.mem_cons_self), rfl⟩, rfl, h⟩
    obtain ⟨c₁, hsteps₁, hsite₁, h₁⟩ := hfirst
    obtain ⟨c', hsteps, hsite, h'⟩ := ih (fun n hm => hn n (List.mem_cons_of_mem _ hm)) c₁ h₁
    exact ⟨c', hsteps₁.trans hsteps, by rw [hsite, hsite₁, Site.visitAll_cons_fst], h'⟩

/-- To scan the directory is to take such steps. -/
theorem scan_still (c : Scene E) (hn : ∀ n, c.site.Sees n → FileName.IsEntry n)
    (h : c.stage = .idle) : ∃ c', ReflTransGen (Still place name) c c' ∧
      c'.site = c.site.scan.1 ∧ c'.stage = .idle := by
  have hs := c.site.scanned
  generalize c.site.scan = r at hs
  cases hs with
  | skipped => exact ⟨c, .refl, rfl, h⟩
  | noRoot => exact ⟨c, .refl, rfl, h⟩
  | stopped e hscan =>
    have hopened : Still place name c { c with site := c.site.opened } :=
      ⟨.opened c h hscan, rfl⟩
    exact ⟨_, (ReflTransGen.single hopened).tail ⟨.ended _ h, rfl⟩, rfl, h⟩
  | visited names hscan _ hnames =>
    have hopened : Still place name c { c with site := c.site.opened } :=
      ⟨.opened c h hscan, rfl⟩
    obtain ⟨c', hsteps, hsite, h'⟩ := @visitAll_still E place name names
      (fun n hm => hn n ⟨names, hnames, hm⟩) { c with site := c.site.opened } h
    exact ⟨_, (hsteps.head hopened).tail ⟨.ended c' h', rfl⟩, by rw [hsite], h'⟩

end Scene

/-! ## What the steps keep -/

namespace Site

variable {s s' : Site E}

/-- Something went on that left a module and its file alone. -/
structure Aside (place : List String) (name : String) (s s' : Site E) : Prop where
  files : FilesKept place s s'
  settled : s'.world.disk = #[]
  modified : s'.world.modified? name = s.world.modified? name
  version : s'.world.version? name = s.world.version? name

theorem Aside.of_untouched (hf : FilesKept place s s') (ho : s'.world.disk = #[])
    (hu : Untouched name s.world s'.world) : Aside place name s s' :=
  ⟨hf, ho, hu.modified?_eq, by rw [version?, version?, hu.surface]⟩

variable (ho : s.world.disk = #[]) (hroot : s.files.RootAt s.world.root place)
  (htidy : Tidy s.files s.world.root)

include ho hroot htidy

theorem readFailed_aside (he : FileName.IsEntry name) (e : FileError) :
    Aside place name s (s.readFailed name e) :=
  .of_untouched (readFailed_filesKept he ho hroot htidy e) (readFailed_settled ..)
    (readFailed_untouched name e)

theorem visit_aside {other : String} (hne : name ≠ other) (he : FileName.IsEntry other) :
    Aside place name s (s.visit other).1 :=
  .of_untouched (visit_kept he ho hroot htidy) (visit_disk ho) (visit_untouched hne)

theorem act_aside {fuel : Nat} {a : Action} {r : Answer} (hw : s.world.Licensed .entries)
    (h : s.act fuel a = some (s', r)) : Aside place name s s' := by
  obtain ⟨w, hw', rfl⟩ := act_inv h
  have hm := perform_moves fuel (L := .entries) trivial hw hw'
  obtain ⟨entries, hk⟩ := hm.kept
  have hu := @settle_untouched E name { s with world := w }
  refine ⟨settle_kept hm.turns ho hroot htidy, settle_disk _, ?_, ?_⟩
  · rw [hu.modified?_eq, modified?, modified?, hk.records]
  · rw [← hk.surfaces name, version?, version?, hu.surface]

theorem opened_aside : Aside place name s s.opened :=
  ⟨opened_kept hroot htidy, ho, rfl, rfl⟩

omit hroot in
theorem ended_aside : Aside place name s { s with scanning := false } :=
  ⟨⟨rfl, rfl, .refl, htidy⟩, ho, rfl, rfl⟩

/-- A load records the time that it is told of, and its surface is current. -/
theorem reload_loads (he : FileName.IsEntry name) (modified : FileTime) (source : String) :
    FilesKept place s (s.reload name modified source) ∧
      (s.reload name modified source).world.modified? name = some modified ∧
      (s.reload name modified source).world.version? name = some (s.world.nextId, name) := by
  obtain ⟨mid, failure, ht⟩ := s.world.reload_told name modified source
  have hu := @untouched_reload E name s name modified source
  refine ⟨reload_filesKept he ho hroot htidy modified source, ?_, ?_⟩
  · exact hu.modified?_eq.trans (s.world.reload_record name modified source).1
  · have hv : (s.world.reload name modified source).version? name =
        some (s.world.nextId, name) := by rw [ht.surfaces, if_pos rfl]
    rw [← hv, version?, version?]
    exact congrArg (Option.map fun s : Surface E => (s.id, s.module)) hu.surface

omit ho htidy in
/-- What a name is seen to be stands under it. -/
theorem node?_of_stat (he : FileName.IsEntry name)
    (hl : ∀ target, s.files.node? (place ++ [name]) ≠ some (.link target)) {modified : FileTime}
    (h : s.stat name = .ok (.file modified)) : ∃ content readable,
      s.files.node? (place ++ [name]) = some (.file content modified readable) := by
  obtain ⟨path, hp, h⟩ := Except.bind_eq_ok_iff.1 h
  obtain ⟨found, hf, h⟩ := Except.bind_eq_ok_iff.1 h
  rw [FilePath.ofText_joinPath he hp, hroot.resolve_entry he hl] at hf
  split at hf
  · cases hf
  · cases hf
    split at h
    · rename_i content modified' readable hn
      cases h
      exact ⟨content, readable, hn⟩
    · cases h
    · cases h

end Site

/-! ## No update is lost -/

namespace Scene

/-- What holds between the steps. -/
structure Sound (place : List String) (name : String) (c : Scene E) : Prop where
  licensed : c.site.world.Licensed .entries
  settled : c.site.world.disk = #[]
  rootAt : c.site.files.RootAt c.site.world.root place
  plain : c.site.files.Plain c.site.world.root
  holds : c.site.Holds name
  current : ∀ modified, c.site.stat name = .ok (.file modified) → modified ∈ c.used
  recorded : ∀ modified, c.site.world.modified? name = some modified → modified ∈ c.used
  staged : ∀ modified, c.stage.modified? = some modified → modified ∈ c.used
  version : c.site.world.version? name = c.evaluated.map fun e => (e.1, name)
  /-- Where the recorded time is that of the file, its text was evaluated. -/
  read : ∀ modified, c.site.stat name = .ok (.file modified) →
    c.site.world.modified? name = some modified →
    ∃ surface text, c.evaluated = some (surface, text) ∧ c.site.readText name = .ok text

variable {c c' : Scene E}

theorem Sound.stage (h : Sound place name c) {stage : Stage}
    (hs : ∀ modified, stage.modified? = some modified → modified ∈ c.used) :
    Sound place name { c with stage } :=
  { h with staged := hs }

theorem Sound.aside (h : Sound place name c) (he : FileName.IsEntry name) {site : Site E}
    (ha : Site.Aside place name c.site site) (hw : site.world.Licensed .entries) :
    Sound place name { c with site } := by
  obtain ⟨hstat, hread⟩ := ha.files.look_eq h.rootAt h.plain he h.holds
  refine ⟨hw, ha.settled, ha.files.rootAt h.rootAt, ha.files.plain h.rootAt h.plain,
    ha.files.holds_iff.2 h.holds, ?_, ?_, h.staged, ?_, ?_⟩
  · exact fun modified hm => h.current modified (hstat ▸ hm)
  · exact fun modified hm => h.recorded modified (ha.modified ▸ hm)
  · exact ha.version.trans h.version
  · intro modified hm hr
    obtain ⟨surface, text, hev, ht⟩ := h.read modified (hstat ▸ hm) (ha.modified ▸ hr)
    exact ⟨surface, text, hev, hread.trans ht⟩

/-- The time of a version that is written is new, so it is not the recorded one. -/
theorem Sound.write (h : Sound place name c) (he : FileName.IsEntry name) {content : ByteArray}
    {modified : FileTime} {readable : Bool}
    (hd : c.site.files.node? (place ++ [name]) ≠ some .dir) (hnew : modified ∉ c.used) :
    Sound place name (c.write place name content modified readable) := by
  obtain ⟨hroot, hplain⟩ :=
    Site.put_plain h.rootAt h.plain he h.holds hd content modified readable
  have hne : place ++ [name] ≠ [] := by simp
  have hnode : (c.write place name content modified readable).site.files.node? (place ++ [name]) =
      some (.file content modified readable) := by
    rw [Scene.write, node?_put hne, if_pos rfl]
  have hseen (seen : FileTime) (hs : (c.write place name content modified readable).site.stat name =
      .ok (.file seen)) : seen = modified := by
    obtain ⟨_, _, hn⟩ := Site.node?_of_stat hroot he (by rw [hnode]; exact fun _ => nofun) hs
    rw [hnode] at hn
    cases hn
    rfl
  refine ⟨h.licensed, h.settled, hroot, hplain, h.holds, ?_, ?_, ?_, h.version, ?_⟩
  · intro seen hs
    exact hseen seen hs ▸ List.mem_cons_self
  · exact fun seen hs => List.mem_cons_of_mem _ (h.recorded seen hs)
  · exact fun seen hs => List.mem_cons_of_mem _ (h.staged seen hs)
  · intro seen hs hr
    exact absurd (h.recorded seen hr) (hseen seen hs ▸ hnew)

theorem Sound.load (h : Sound place name c) (he : FileName.IsEntry name) {modified : FileTime}
    {text : String} (hs : c.stage = .stale modified) (ht : c.site.readText name = .ok text) :
    Sound place name { c with
      site := c.site.reload name modified text
      stage := .idle
      evaluated := some (c.site.world.nextId, text) } := by
  obtain ⟨hk, hm, hv⟩ := Site.reload_loads h.settled h.rootAt h.plain.tidy he modified text
  obtain ⟨hstat, hread⟩ := hk.look_eq h.rootAt h.plain he h.holds
  have hused : modified ∈ c.used := h.staged modified (by rw [hs]; rfl)
  have hp : Passes .entries c.site.world (c.site.reload name modified text).world :=
    Site.reload_passes he
  have hw := hp.licensed h.licensed
  refine ⟨hw, Site.reload_settled .., hk.rootAt h.rootAt, hk.plain h.rootAt h.plain,
    hk.holds_iff.2 h.holds, ?_, ?_, nofun, hv, ?_⟩
  · exact fun seen hseen => h.current seen (hstat ▸ hseen)
  · intro seen hseen
    rw [hm] at hseen
    exact Option.some.inj hseen ▸ hused
  · exact fun _ _ _ => ⟨_, _, rfl, hread.trans ht⟩

theorem Step.sound (hs : Step place name c c') (he : FileName.IsEntry name)
    (h : Sound place name c) : Sound place name c' := by
  have failed (e : FileError) : Sound place name { c with site := c.site.readFailed name e } :=
    h.aside he (Site.readFailed_aside h.settled h.rootAt h.plain.tidy he e)
      ((Site.readFailed_passes (L := .entries) he).licensed h.licensed)
  cases hs with
  | write content modified readable hd hnew => exact h.write he hd hnew
  | look modified _ hstat =>
    refine h.stage fun seen hseen => ?_
    cases hseen
    exact h.current modified hstat
  | lookFailed e => exact failed e
  | compare modified hstage =>
    refine h.stage fun seen hseen => h.staged seen ?_
    split at hseen
    · rw [hstage]
      exact hseen
    · cases hseen
  | read modified text hstage ht => exact h.load he hstage ht
  | readFailed modified e => exact (failed e).stage nofun
  | visit other hne ho =>
    exact h.aside he (Site.visit_aside h.settled h.rootAt h.plain.tidy hne.symm ho)
      ((Site.visit_passes (L := .entries) ho).licensed h.licensed)
  | opened =>
    exact h.aside he (Site.opened_aside h.settled h.rootAt h.plain.tidy) h.licensed
  | ended => exact h.aside he (Site.ended_aside h.settled h.plain.tidy) h.licensed
  | act fuel a r ha =>
    exact h.aside he (Site.act_aside h.settled h.rootAt h.plain.tidy h.licensed ha)
      ((Site.Step.act (C := fun _ _ => True) fuel a r trivial ha).passes h.licensed |>.licensed
        h.licensed)

theorem Sound.steps (h : Sound place name c) (he : FileName.IsEntry name)
    (hs : ReflTransGen (Step place name) c c') : Sound place name c' := by
  induction hs with
  | refl => exact h
  | tail _ hs ih => exact hs.sound he ih

/-- The current surface of a module was evaluated from the text that its file has. -/
structure Abreast (name text : String) (c : Scene E) : Prop where
  surface : ∃ surface, c.evaluated = some (surface, text) ∧
    c.site.world.version? name = some (surface, name)
  file : c.site.readText name = .ok text

theorem Abreast.of_file {text text' : String} (h : c.Abreast name text')
    (ht : c.site.readText name = .ok text) : c.Abreast name text := by
  have htext : text' = text := Except.ok.inj (h.file.symm.trans ht)
  exact htext ▸ h

theorem Sound.abreast (h : Sound place name c) {modified : FileTime}
    (hstat : c.site.stat name = .ok (.file modified))
    (hr : c.site.world.modified? name = some modified) : ∃ text, c.Abreast name text := by
  obtain ⟨surface, text, hev, ht⟩ := h.read modified hstat hr
  exact ⟨text, ⟨surface, hev, by rw [h.version, hev]; rfl⟩, ht⟩

/-- A scan under way has seen the file as it is; where none is under way, its time is recorded. -/
structure Settling (name : String) (modified : FileTime) (text : String) (c : Scene E) : Prop where
  stat : c.site.stat name = .ok (.file modified)
  file : c.site.readText name = .ok text
  seen : ∀ seen, c.stage.modified? = some seen → seen = modified
  recorded : c.stage = .idle → c.site.world.modified? name = some modified

theorem Settling.aside {modified : FileTime} {text : String} (h : Settling name modified text c)
    (hc : Sound place name c) (he : FileName.IsEntry name) {site : Site E}
    (ha : Site.Aside place name c.site site) : Settling name modified text { c with site } := by
  obtain ⟨hstat, hread⟩ := ha.files.look_eq hc.rootAt hc.plain he hc.holds
  exact ⟨hstat.trans h.stat, hread.trans h.file, h.seen,
    fun hs => ha.modified.trans (h.recorded hs)⟩

theorem Still.settling {modified : FileTime} {text : String} (hs : Still place name c c')
    (hc : Sound place name c) (he : FileName.IsEntry name) (h : Settling name modified text c) :
    Settling name modified text c' := by
  obtain ⟨hs, hused⟩ := hs
  cases hs with
  | write content seen readable hd hnew => exact (List.cons_ne_self _ _ hused).elim
  | look seen hidle hstat =>
    have hseen : seen = modified := by
      rw [h.stat] at hstat
      cases hstat
      rfl
    exact ⟨h.stat, h.file, fun _ hs => (Option.some.inj hs).symm.trans hseen, nofun⟩
  | lookFailed e hidle hstat =>
    rw [h.stat] at hstat
    cases hstat
  | compare seen hstage =>
    have hseen : seen = modified := h.seen seen (by rw [hstage]; rfl)
    subst hseen
    by_cases hr : c.site.world.needsReload name seen = true
    · rw [if_pos hr]
      exact ⟨h.stat, h.file, fun _ hs => (Option.some.inj hs).symm, nofun⟩
    · rw [if_neg hr]
      refine ⟨h.stat, h.file, nofun, fun _ => ?_⟩
      by_contra hne
      exact hr ((needsReload_iff ..).2 hne)
  | read seen text' hstage ht =>
    have hseen : seen = modified := h.seen seen (by rw [hstage]; rfl)
    subst hseen
    obtain ⟨hk, hm, -⟩ := Site.reload_loads hc.settled hc.rootAt hc.plain.tidy he seen text'
    obtain ⟨hstat, hread⟩ := hk.look_eq hc.rootAt hc.plain he hc.holds
    exact ⟨hstat.trans h.stat, hread.trans h.file, nofun, fun _ => hm⟩
  | readFailed seen e hstage ht =>
    rw [h.file] at ht
    cases ht
  | opened => exact h.aside hc he (Site.opened_aside hc.settled hc.rootAt hc.plain.tidy)
  | visit other hne ho =>
    exact h.aside hc he (Site.visit_aside hc.settled hc.rootAt hc.plain.tidy hne.symm ho)
  | ended => exact h.aside hc he (Site.ended_aside hc.settled hc.plain.tidy)
  | act fuel a r ha =>
    exact h.aside hc he (Site.act_aside hc.settled hc.rootAt hc.plain.tidy hc.licensed ha)

theorem Settling.steps {modified : FileTime} {text : String} (h : Settling name modified text c)
    (hc : Sound place name c) (he : FileName.IsEntry name)
    (hs : ReflTransGen (Still place name) c c') :
    Sound place name c' ∧ Settling name modified text c' := by
  induction hs with
  | refl => exact ⟨hc, h⟩
  | tail _ hs ih => exact ⟨hs.1.sound he ih.1, hs.settling ih.1 he ih.2⟩

theorem start_sound {root : String} {files : FileTree} (extension : Option String)
    (hroot : files.RootAt root place) (hplain : files.Plain root) (he : FileName.IsEntry name)
    (hn : (Site.start root files extension : Site E).Holds name) :
    Sound place name (Scene.start root files extension place name : Scene E) := by
  refine ⟨Site.start_licensed root files extension, rfl, hroot, hplain, hn, ?_, nofun, nofun, rfl,
    fun modified _ hr => absurd hr nofun⟩
  intro modified hm
  have hl (target : String) : files.node? (place ++ [name]) ≠ some (.link target) :=
    fun ht => (hplain.entries place hroot name _ ht).2 target rfl
  obtain ⟨content, readable, hnode⟩ := Site.node?_of_stat (s := Site.start root files extension)
    hroot he hl hm
  rw [Scene.start, timesAt]
  have hnode : files.node? (place ++ [name]) = some (.file content modified readable) := hnode
  rw [hnode]
  exact List.mem_singleton_self _

/-- However scans and writers take their steps: where the time of the file is the recorded one, its
text was evaluated last, in the current surface. Once a scan has looked at the file and no version
is written any more, its text is evaluated when the scan is done, whatever else goes on; so it is
after one more scan of the directory. -/
theorem no_update_lost {root : String} {files : FileTree} {extension : Option String}
    (hroot : files.RootAt root place) (hplain : files.Plain root) (he : FileName.IsEntry name)
    (hn : (Site.start root files extension : Site E).Holds name)
    (h : ReflTransGen (Step place name) (.start root files extension place name) c) :
    (∀ modified, c.site.stat name = .ok (.file modified) →
      c.site.world.modified? name = some modified → ∃ text, c.Abreast name text) ∧
    ∀ modified text, c.site.stat name = .ok (.file modified) → c.site.readText name = .ok text →
      (c.stage = .looked modified → ∀ c', ReflTransGen (Still place name) c c' →
        c'.stage = .idle → c'.Abreast name text) ∧
      (c.stage = .idle → c.site.scanning = false → ∀ report, c.site.scan.2 = .ok report →
        ∃ c', ReflTransGen (Still place name) c c' ∧ c'.site = c.site.scan.1 ∧
          c'.stage = .idle ∧ c'.Abreast name text) := by
  have hc : Sound place name c := (start_sound extension hroot hplain he hn).steps he h
  refine ⟨fun _ => hc.abreast, fun modified text hstat ht => ⟨?_, ?_⟩⟩
  · intro hlooked c' hs hidle
    have hsettling : Settling name modified text c := by
      refine ⟨hstat, ht, fun seen hseen => ?_, fun h => ?_⟩
      · rw [hlooked] at hseen
        exact (Option.some.inj hseen).symm
      · rw [hlooked] at h
        cases h
    obtain ⟨hc', h'⟩ := hsettling.steps hc he hs
    obtain ⟨text', ha⟩ := hc'.abreast h'.stat (h'.recorded hidle)
    exact ha.of_file h'.file
  · intro hidle hscan report hok
    have hready : c.site.Idle := ⟨hscan, hc.settled⟩
    have hsees (n : String) (hn : c.site.Sees n) : FileName.IsEntry n := by
      obtain ⟨_, hnames, hm⟩ := hn
      exact Site.isEntry_of_mem hc.rootAt hc.plain hnames hm
    obtain ⟨c', hsteps, hsite, hidle'⟩ := @scan_still E place name c hsees hidle
    -- The scan leaves the file as it is, and records its time.
    have hk := Site.scan_kept hready hc.rootAt hc.plain
    obtain ⟨hstat', hread'⟩ := hk.look_eq hc.rootAt hc.plain he hc.holds
    have hrecorded : c.site.scan.1.world.modified? name = some modified := by
      have htext : c.site.text? name = some modified := by
        unfold Site.text?
        rw [hstat, ht]
      have hsighting := Site.sighting_eq hready hc.rootAt hc.plain hok he hc.holds
      rcases c.site.scan_modified? name with hnone | hm
      · rw [hsighting, htext] at hnone
        cases hnone
      · rw [← hm, hsighting, htext]
    rw [← hsite] at hstat' hread' hrecorded
    have hsound := hc.steps he (hsteps.lift id fun _ _ hs => hs.1)
    obtain ⟨text', ha⟩ := hsound.abreast (hstat'.trans hstat) hrecorded
    exact ⟨c', hsteps, hsite, hidle', ha.of_file (hread'.trans ht)⟩

/-- The first scan of a module is done, and a version was written between its look and its read. -/
def tornScene : Scene stumbler :=
  let c : Scene stumbler := (Scene.start "world" oneModule none ["world"] "a.lua").write
    ["world"] "a.lua" "new".toUTF8 ⟨200, 0⟩ true
  { c with
    site := c.site.reload "a.lua" ⟨100, 0⟩ "new"
    evaluated := some (c.site.world.nextId, "new") }

theorem tornScene_steps : ReflTransGen (Step ["world"] "a.lua")
    (.start "world" oneModule none ["world"] "a.lua") tornScene := by
  let c₀ : Scene stumbler := .start "world" oneModule none ["world"] "a.lua"
  let c₁ : Scene stumbler := { c₀ with stage := .looked ⟨100, 0⟩ }
  let c₂ : Scene stumbler := c₁.write ["world"] "a.lua" "new".toUTF8 ⟨200, 0⟩ true
  let c₃ : Scene stumbler := { c₂ with stage := .stale ⟨100, 0⟩ }
  have hlook : Step ["world"] "a.lua" c₀ c₁ := .look c₀ ⟨100, 0⟩ rfl (by decide +kernel)
  have hnode : oneModule.node? ["world", "a.lua"] = some (.file "late".toUTF8 ⟨100, 0⟩ true) := rfl
  have hwrite : Step ["world"] "a.lua" c₁ c₂ :=
    .write c₁ "new".toUTF8 ⟨200, 0⟩ true (hnode.trans_ne nofun) (by decide +kernel)
  have hcompare : Step ["world"] "a.lua" c₂ c₃ := .compare c₂ ⟨100, 0⟩ rfl
  have hread : Step ["world"] "a.lua" c₃ tornScene :=
    .read c₃ ⟨100, 0⟩ "new" rfl (by decide +kernel)
  exact (((ReflTransGen.single hlook).tail hwrite).tail hcompare).tail hread

theorem tornScene_scan : ∃ report, tornScene.site.scan.2 = .ok report := by
  have hnames : tornScene.site.opened.moduleNames = .ok ["a.lua"] := by
    have hp : FilePath.ofText tornScene.site.opened.world.root = .ok ["world"] := by
      decide +kernel
    have hl : tornScene.site.opened.files.list ["world"] = .ok [errorsDir, logsDir, "a.lua"] := by
      decide +kernel
    have hf : [errorsDir, logsDir, "a.lua"].filter (fun n => FileName.isText n &&
        ModuleName.eligible n tornScene.site.opened.extension) = ["a.lua"] := by
      decide +kernel
    rw [Site.moduleNames_eq hp hl, hf, List.mergeSort_singleton]
  exact (tornScene.site.scan_of_names (by decide +kernel) (by decide +kernel)
    (Option.isNone_iff_eq_none.1 (by decide +kernel)) hnames).2

/-- A version that is written between look and read is evaluated under the time of the one before
it. The next scan evaluates it again, also where another file is visited between its look and its
read. -/
theorem torn_scan_is_made_up_for :
    oneModule.RootAt "world" ["world"] ∧ oneModule.Plain "world" ∧ FileName.IsEntry "a.lua" ∧
      (Site.start "world" oneModule none : Site stumbler).Holds "a.lua" ∧
      ReflTransGen (Step ["world"] "a.lua")
        (.start "world" oneModule none ["world"] "a.lua") tornScene ∧
      tornScene.evaluated = some (1, "new") ∧
      tornScene.site.world.modified? "a.lua" = some ⟨100, 0⟩ ∧
      tornScene.site.stat "a.lua" = .ok (.file ⟨200, 0⟩) ∧
      (∃ c, ReflTransGen (Still ["world"] "a.lua") tornScene c ∧
        c.site = tornScene.site.scan.1 ∧ c.Abreast "a.lua" "new") ∧
      ∃ looked c, Step ["world"] "a.lua" tornScene looked ∧ looked.stage = .looked ⟨200, 0⟩ ∧
        ReflTransGen (Still ["world"] "a.lua") looked c ∧ c.stage = .idle ∧
        c.Abreast "a.lua" "new" ∧ c.site.world.modified? "a.lua" = some ⟨200, 0⟩ := by
  have hroot : oneModule.RootAt "world" ["world"] := ⟨by decide +kernel, rfl⟩
  have he : FileName.IsEntry "a.lua" := ⟨by decide, by decide, by decide, by decide⟩
  have hb : FileName.IsEntry "b.lua" := ⟨by decide, by decide, by decide, by decide⟩
  have hn : (Site.start "world" oneModule none : Site stumbler).Holds "a.lua" :=
    ⟨by decide +kernel, by decide +kernel⟩
  have hstat : tornScene.site.stat "a.lua" = .ok (.file ⟨200, 0⟩) := by decide +kernel
  have htext : tornScene.site.readText "a.lua" = .ok "new" := by decide +kernel
  obtain ⟨report, hok⟩ := tornScene_scan
  obtain ⟨-, hnext⟩ := no_update_lost hroot oneModule_plain he hn tornScene_steps
  obtain ⟨c, hstill, hsite, -, ha⟩ :=
    (hnext ⟨200, 0⟩ "new" hstat htext).2 rfl (by decide +kernel) report hok
  -- The next scan, step by step.
  let looked : Scene stumbler := { tornScene with stage := .looked ⟨200, 0⟩ }
  let stale : Scene stumbler := { tornScene with stage := .stale ⟨200, 0⟩ }
  let late : Scene stumbler := { stale with site := (stale.site.visit "b.lua").1 }
  let done : Scene stumbler := { late with
    site := late.site.reload "a.lua" ⟨200, 0⟩ "new"
    stage := .idle
    evaluated := some (late.site.world.nextId, "new") }
  have hlooked : Step ["world"] "a.lua" tornScene looked := .look tornScene ⟨200, 0⟩ rfl hstat
  have hstale : Still ["world"] "a.lua" looked stale := by
    have hr : looked.site.world.needsReload "a.lua" ⟨200, 0⟩ = true := by decide +kernel
    have h := @Step.compare stumbler ["world"] "a.lua" looked ⟨200, 0⟩ rfl
    rw [if_pos hr] at h
    exact ⟨h, rfl⟩
  have hlate : Still ["world"] "a.lua" stale late := ⟨.visit stale "b.lua" (by decide) hb, rfl⟩
  have hdone : Still ["world"] "a.lua" late done :=
    ⟨.read late ⟨200, 0⟩ "new" rfl (by decide +kernel), rfl⟩
  have hstills : ReflTransGen (Still ["world"] "a.lua") looked done :=
    ((ReflTransGen.single hstale).tail hlate).tail hdone
  obtain ⟨-, hrest⟩ := no_update_lost hroot oneModule_plain he hn (tornScene_steps.tail hlooked)
  have hdone' := (hrest ⟨200, 0⟩ "new" hstat htext).1 rfl done hstills rfl
  exact ⟨hroot, oneModule_plain, he, hn, tornScene_steps, rfl, by decide +kernel, hstat,
    ⟨c, hstill, hsite, ha⟩, looked, done, hlooked, rfl, hstills, rfl, hdone', by decide +kernel⟩

end Scene

end LiveModules
