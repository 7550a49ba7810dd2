import LiveModules.Files.Tree
import LiveModules.Options
import LiveModules.Proofs.Encoding
import LiveModules.Proofs.Readings
import LiveModules.Site.Loop

/-!
# Configurations merged from several sources

A source, the command line or a file, says something of some settings and nothing of others
(`Config.Given`). The configuration to run with is the first word on each setting, or its default,
and there is one just if the file is valid by itself and the merged configuration is valid
(`toConfig_merges`). No way of making a configuration yields one whose loop has an interval of
no length.
-/

namespace LiveModules

namespace Config

/-! ## Validity -/

structure Valid (c : Config) : Prop where
  root : c.root ≠ ""
  poll : 0 < c.pollIntervalMs
  tick : 0 < c.tickIntervalMs
  timeout : c.evalTimeoutMs ≠ some 0
  extension : ∀ e, c.extension = some e → Text.allBlank e = false

theorem validate_eq_ok_iff {c c' : Config} : c.validate = .ok c' ↔ c = c' ∧ c'.Valid := by
  unfold validate
  constructor
  · intro h
    split_ifs at h with h₁ h₂ h₃ h₄ h₅
    cases h
    exact ⟨rfl, by simpa using h₁, Nat.pos_of_ne_zero h₂, Nat.pos_of_ne_zero h₃, h₄,
      (Option.any_eq_false _ _).1 (by simpa using h₅)⟩
  · rintro ⟨rfl, hv⟩
    rw [if_neg (by simpa using hv.root), if_neg hv.poll.ne', if_neg hv.tick.ne', if_neg hv.timeout,
      if_neg (by simpa using (Option.any_eq_false _ _).2 hv.extension)]

theorem ofRoot_valid_iff {root : String} : (ofRoot root).Valid ↔ root ≠ "" := by
  refine ⟨Valid.root, fun h => ⟨h, Nat.succ_pos 4999, Nat.succ_pos 999, nofun, ?_⟩⟩
  rintro e ⟨⟩
  decide

theorem Valid.period_pos {c : Config} (h : c.Valid) : ∀ j : Job, 0 < j.period c
  | .scan => h.poll
  | .tick => h.tick
  | .timers => Nat.succ_pos 24

/-! ## What a source gives -/

/-- What a source says of each setting: `none` if it is silent, `some none` if it says that there
is to be no budget, or no extension that a name must have. -/
structure Given where
  root : Option String
  pollMs : Option Nat
  tickMs : Option Nat
  evalTimeoutMs : Option (Option Nat)
  extension : Option (Option String)
  deriving DecidableEq, Repr

namespace Given

def nothing : Given := ⟨none, none, none, none, none⟩

/-- What one source says, and of the rest what another does. -/
def orElse (g h : Given) : Given :=
  ⟨g.root.or h.root, g.pollMs.or h.pollMs, g.tickMs.or h.tickMs,
    g.evalTimeoutMs.or h.evalTimeoutMs, g.extension.or h.extension⟩

/-- With the defaults for what is not said; nothing stands in for the root. -/
def complete (g : Given) : Option Config :=
  g.root.map fun root => ⟨root, g.pollMs.getD defaultPollMs, g.tickMs.getD defaultTickMs,
    g.evalTimeoutMs.getD none, g.extension.getD defaultExtension⟩

/-- What a draft says. -/
def read (d : Json.Draft) : Except Json.Fault Given := do
  let fields ← form.read d
  let root ← Json.given fields "root" (Json.readText "path string")
  let poll ← Json.given fields "poll_interval_ms" Json.readUnsigned
  let tick ← Json.given fields "tick_interval_ms" Json.readUnsigned
  let timeout ← Json.given fields "eval_timeout_ms" (Json.readOption Json.readUnsigned)
  let extension ← Json.given fields "extension" (Json.readOption (Json.readText "a string"))
  return ⟨root, poll, tick, timeout, extension⟩

/-- What the text of a file says. -/
def ofText (text : String) : Except Json.Fault Given := Json.readWhole form.shape read text

end Given

theorem read_eq_ok_iff {d : Json.Draft} {c : Config} :
    read d = .ok c ↔ ∃ g, Given.read d = .ok g ∧ g.complete = some c := by
  unfold read Given.read
  simp only [Except.bind_eq_ok_iff, Json.fieldOr_default_iff, Json.fieldOr_required_iff]
  constructor
  · rintro ⟨fields, hf, root, hr, _, ⟨poll, hp, rfl⟩, _, ⟨tick, ht, rfl⟩, _, ⟨timeout, he, rfl⟩, _,
      ⟨extension, hx, rfl⟩, hc⟩
    cases hc
    exact ⟨_, ⟨fields, hf, _, hr, _, hp, _, ht, _, he, _, hx, rfl⟩, rfl⟩
  · rintro ⟨_, ⟨fields, hf, root, hr, poll, hp, tick, ht, timeout, he, extension, hx, ⟨⟩⟩, hc⟩
    obtain ⟨root, rfl, rfl⟩ := Option.map_eq_some_iff.1 hc
    exact ⟨fields, hf, root, hr, _, ⟨poll, hp, rfl⟩, _, ⟨tick, ht, rfl⟩, _, ⟨timeout, he, rfl⟩, _,
      ⟨extension, hx, rfl⟩, rfl⟩

theorem readWhole_eq_ok_iff {text : String} {c : Config} :
    Json.readWhole form.shape read text = .ok c ↔
      ∃ file, Given.ofText text = .ok file ∧ file.complete = some c := by
  simp only [Given.ofText, Json.readWhole_eq_ok_iff, read_eq_ok_iff]
  constructor
  · rintro ⟨d, htext, file, hfile, hc⟩
    exact ⟨file, ⟨d, htext, hfile⟩, hc⟩
  · rintro ⟨file, ⟨d, htext, hfile⟩, hc⟩
    exact ⟨d, htext, file, hfile, hc⟩

theorem ofText_eq_ok_iff {text : String} {c : Config} : ofText text = .ok c ↔
    Json.readWhole form.shape read text = .ok c ∧ c.Valid := by
  unfold ofText
  cases h : Json.readWhole form.shape read text with
  | error f => exact ⟨fun h => (by cases h), fun ⟨h, _⟩ => by cases h⟩
  | ok c' =>
    refine validate_eq_ok_iff.trans ⟨?_, ?_⟩
    · rintro ⟨rfl, hv⟩
      exact ⟨rfl, hv⟩
    · rintro ⟨⟨⟩, hv⟩
      exact ⟨rfl, hv⟩

end Config

/-- The contents of the files of a tree, as texts. -/
def FileTree.contents (t : FileTree) (path : String) : Except String String :=
  (FilePath.ofText path >>= t.readText).mapError FileError.message

theorem FileTree.contents_eq_ok_iff {t : FileTree} {path text : String} :
    t.contents path = .ok text ↔ FilePath.ofText path >>= t.read = .ok text.toUTF8 := by
  simp only [contents, readText, Except.mapError_eq_ok_iff, Except.bind_eq_ok_iff,
    Text.ofUtf8_eq_ok_iff]
  constructor
  · rintro ⟨names, hpath, bytes, hread, rfl⟩
    exact ⟨names, hpath, hread⟩
  · rintro ⟨names, hpath, hread⟩
    exact ⟨names, hpath, _, hread, rfl⟩

namespace Options

/-- What the command line says; that any extension will do counts before a given one. -/
def given (o : Options) : Config.Given :=
  ⟨o.root, o.pollMs, o.tickMs, o.evalTimeoutMs.map some,
    if o.anyExtension then some none else o.extension.map some⟩

/-- What the file says that the command line names, if it names one: its bytes are a text, and that
reads as a configuration which is valid by itself. -/
inductive FileGives (o : Options) (t : FileTree) : Config.Given → Prop where
  | unnamed (h : o.config = none) : FileGives o t .nothing
  | named {path text : String} {c : Config} {file : Config.Given} (h : o.config = some path)
    (hbytes : FilePath.ofText path >>= t.read = .ok text.toUTF8)
    (hreads : Json.readWhole Config.form.shape Config.read text = .ok c) (hv : c.Valid)
    (hgives : Config.Given.ofText text = .ok file) : FileGives o t file

variable {o : Options} {t : FileTree} {c : Config} {file : Config.Given}

theorem base_named_iff {path : String} (h : o.config = some path) :
    o.base t.contents = .ok c ↔
      ∃ text, FilePath.ofText path >>= t.read = .ok text.toUTF8 ∧
        Json.readWhole Config.form.shape Config.read text = .ok c ∧ c.Valid := by
  simp only [← FileTree.contents_eq_ok_iff, ← Config.ofText_eq_ok_iff]
  rw [base, h]
  dsimp only
  cases hcontents : t.contents path with
  | error e => simp
  | ok text => cases hc : Config.ofText text <;> simp [hc]

theorem base_unnamed_iff (h : o.config = none) : o.base t.contents = .ok c ↔
    ∃ root, o.root = some root ∧ root ≠ "" ∧ Config.ofRoot root = c := by
  rw [base, h]
  cases hroot : o.root with
  | none => simp
  | some root =>
    simp only [Except.mapError_eq_ok_iff, Config.build, List.foldl_nil, Config.validate_eq_ok_iff]
    constructor
    · rintro ⟨rfl, hv⟩
      exact ⟨root, rfl, Config.ofRoot_valid_iff.1 hv, rfl⟩
    · rintro ⟨_, ⟨⟩, hne, rfl⟩
      exact ⟨rfl, Config.ofRoot_valid_iff.2 hne⟩

/-- What the command line says over what a file does is what it says over the file's
configuration. -/
theorem complete_orElse (h : file.complete = some c) :
    (o.given.orElse file).complete = some (o.override c) := by
  obtain ⟨root, hroot, rfl⟩ := Option.map_eq_some_iff.1 h
  have htimeout : (o.given.orElse file).evalTimeoutMs.getD none =
      o.evalTimeoutMs.or (file.evalTimeoutMs.getD none) := by
    cases hms : o.evalTimeoutMs <;> simp [given, Config.Given.orElse, hms]
  have hextension : (o.given.orElse file).extension.getD Config.defaultExtension =
      if o.anyExtension then none
      else o.extension.or (file.extension.getD Config.defaultExtension) := by
    cases ha : o.anyExtension <;> cases he : o.extension <;>
      simp [given, Config.Given.orElse, ha, he]
  rw [Config.Given.complete, htimeout, hextension]
  simp only [Config.Given.orElse, given, hroot, Option.getD_or, override, Option.or_some,
    Option.map_some]

/-- Without a file the defaults stand behind the root that the command line gives. -/
theorem complete_unnamed {root : String} (h : o.root = some root) :
    (o.given.orElse .nothing).complete = some (o.override (.ofRoot root)) := by
  have hgiven : o.given.orElse .nothing = o.given.orElse ⟨some root, none, none, none, none⟩ := by
    simp [Config.Given.orElse, given, Config.Given.nothing, h]
  rw [hgiven]
  exact complete_orElse rfl

theorem root_of_complete_unnamed (h : (o.given.orElse .nothing).complete = some c) :
    o.root = some c.root := by
  obtain ⟨root, hroot, rfl⟩ := Option.map_eq_some_iff.1 h
  rwa [Config.Given.orElse, Config.Given.nothing, Option.or_none] at hroot

end Options

/-! ## Ways of making a configuration -/

/-- The configurations that come from a builder, a text or the merging of a command line with
whatever file there is. -/
inductive Config.Made : Config → Prop where
  | built {root : String} {settings : List Setting} {c : Config} (h : build root settings = .ok c) :
    Made c
  | read {text : String} {c : Config} (h : ofText text = .ok c) : Made c
  | merged {o : Options} {contents : String → Except String String} {c : Config}
    (h : o.toConfig contents = .ok c) : Made c

theorem Options.toConfig_eq_ok_iff {o : Options} {contents : String → Except String String}
    {c : Config} : o.toConfig contents = .ok c ↔
      ∃ c', o.base contents = .ok c' ∧ o.override c' = c ∧ c.Valid := by
  simp only [toConfig, Except.bind_eq_ok_iff, Except.mapError_eq_ok_iff, Config.validate_eq_ok_iff]

theorem Config.Made.valid {c : Config} (h : c.Made) : c.Valid := by
  cases h with
  | built h => exact (validate_eq_ok_iff.1 h).2
  | read h => exact (ofText_eq_ok_iff.1 h).2
  | merged h =>
    obtain ⟨_, -, -, hv⟩ := Options.toConfig_eq_ok_iff.1 h
    exact hv

/-- There is a merged configuration just if the file, where one is named, is a text that reads as
a valid configuration, and the first words of the two on each setting make a valid one; it is that
one. However a configuration is made, it is valid, and the loop that runs with it has intervals of
its lengths, none of them zero. -/
theorem toConfig_merges :
    (∀ (o : Options) (t : FileTree) (c : Config), o.toConfig t.contents = .ok c ↔
      ∃ file, o.FileGives t file ∧ (o.given.orElse file).complete = some c ∧ c.Valid) ∧
    ∀ c : Config, c.Made → c.Valid ∧ ∃ hscans hticks,
      ∀ j, ((Loop.start c hscans hticks).interval j).period = j.period c ∧ 0 < j.period c := by
  refine ⟨fun o t c => ?_, fun c h => ?_⟩
  · rw [Options.toConfig_eq_ok_iff]
    constructor
    · rintro ⟨c', hbase, rfl, hv⟩
      cases hname : o.config with
      | none =>
        obtain ⟨root, hroot, -, rfl⟩ := (Options.base_unnamed_iff hname).1 hbase
        exact ⟨.nothing, .unnamed hname, Options.complete_unnamed hroot, hv⟩
      | some path =>
        obtain ⟨text, hbytes, hreads, hv'⟩ := (Options.base_named_iff hname).1 hbase
        obtain ⟨file, hgives, hc⟩ := Config.readWhole_eq_ok_iff.1 hreads
        exact ⟨file, .named hname hbytes hreads hv' hgives, Options.complete_orElse hc, hv⟩
    · rintro ⟨file, hfile, hc, hv⟩
      cases hfile with
      | unnamed hname =>
        have hroot := Options.root_of_complete_unnamed hc
        have hbase := (Options.base_unnamed_iff hname (t := t)).2 ⟨c.root, hroot, hv.root, rfl⟩
        exact ⟨_, hbase, Option.some.inj ((Options.complete_unnamed hroot).symm.trans hc), hv⟩
      | @named path text c' _ hname hbytes hreads hv' hgives =>
        have hbase := (Options.base_named_iff hname).2 ⟨text, hbytes, hreads, hv'⟩
        obtain ⟨file', hgives', hc'⟩ := Config.readWhole_eq_ok_iff.1 hreads
        cases hgives.symm.trans hgives'
        exact ⟨c', hbase, Option.some.inj ((Options.complete_orElse hc').symm.trans hc), hv⟩
  · refine ⟨h.valid, h.valid.poll, h.valid.tick, fun j => ⟨?_, h.valid.period_pos j⟩⟩
    cases j <;> rfl

/-! ### A file under a command line -/

def hostFile : String :=
  "\x7b\"root\": \"/srv/world\", \"tick_interval_ms\": 40, \"extension\": \"txt\"\x7d"

/-- A tree that holds the file. -/
def hostFiles : FileTree :=
  (FileTree.empty.put ["etc"] .dir).put ["etc", "host.json"] (.file hostFile.toUTF8 ⟨0, 0⟩ true)

/-- The command line gives another interval of scans, and lifts the restriction to an extension. -/
theorem hostFile_merged :
    ∃ o, Options.ofArgs ["--config", "/etc/host.json", "--poll-ms", "250", "--any-extension"] =
        .ok o ∧
      o.toConfig hostFiles.contents = .ok ⟨"/srv/world", 250, 40, none, none⟩ ∧
      ∀ j, 0 < Job.period ⟨"/srv/world", 250, 40, none, none⟩ j := by
  have hbytes : FilePath.ofText "/etc/host.json" >>= hostFiles.read = .ok hostFile.toUTF8 := rfl
  have hreads : Json.readWhole Config.form.shape Config.read hostFile =
      .ok ⟨"/srv/world", 5000, 40, none, some "txt"⟩ := by decide +kernel
  have hvalid : Config.Valid ⟨"/srv/world", 5000, 40, none, some "txt"⟩ :=
    ⟨by decide, by decide, by decide, nofun, by rintro e ⟨⟩; decide +kernel⟩
  have hgives : Config.Given.ofText hostFile =
      .ok ⟨some "/srv/world", none, some 40, none, some (some "txt")⟩ := by decide +kernel
  have hmerged := (toConfig_merges.1
    ⟨none, some "/etc/host.json", some 250, none, none, none, true⟩ hostFiles
    ⟨"/srv/world", 250, 40, none, none⟩).2
    ⟨_, .named rfl hbytes hreads hvalid hgives, rfl, by decide, by decide, by decide, nofun, nofun⟩
  obtain ⟨-, _, _, hperiods⟩ := toConfig_merges.2 _ (.merged hmerged)
  exact ⟨_, by decide +kernel, hmerged, fun j => (hperiods j).2⟩

end LiveModules
