import LiveModules.Proofs.Exits

/-!
# What the log files hold

A log is emptied when its module is loaded, and a line is added to it when one is logged, by the
text of the module or by a callback of any version of it. The journal tells of both, in the order in
which the changes of files are asked for (`World.Logs`). So, as long as these changes are possible
and nobody else makes any, the log of a module holds what was logged since the module was last
loaded (`logFile_holds_lines`).
-/

namespace LiveModules

open Artifacts FileTree

attribute [local irreducible] lastOf

/-! ## What the journal says of logs -/

/-- The change of a log that goes with an entry. -/
def Entry.logChange? : Entry → Option (String × ArtifactWrite)
  | .loading module _ _ => some (module, .truncateLog)
  | .logged module line => some (module, .appendLog line)
  | _ => none

/-- The entry goes with a change of the log of a module. -/
def Entry.Marks (module : String) : Entry → Prop
  | .loading name .. | .logged name _ => name = module
  | _ => False

/-- The line that an entry adds to the log of a module. -/
def Entry.line? (module : String) : Entry → Option String
  | .logged name line => if name = module then some line else none
  | _ => none

/-- What is logged by a module, each line with its end. -/
def logText (module : String) (entries : List Entry) : String :=
  String.join ((entries.filterMap (Entry.line? module)).map (· ++ "\n"))

/-- What a change of files makes of the log of a module. -/
def logEffect (module : String) (old : Option ByteArray) (change : String × ArtifactWrite) :
    Option ByteArray :=
  if module = change.1 ∧ change.2.dir = logsDir then change.2.content old else old

/-- The log of a module after all entries. -/
def logAfter (module : String) (old : Option ByteArray) (entries : List Entry) :
    Option ByteArray :=
  (entries.filterMap Entry.logChange?).foldl (logEffect module) old

theorem logAfter_append (module : String) (old : Option ByteArray) (a b : List Entry) :
    logAfter module old (a ++ b) = logAfter module (logAfter module old a) b := by
  rw [logAfter, List.filterMap_append, List.foldl_append]
  rfl

theorem logAfter_cons (module : String) (old : Option ByteArray) (e : Entry)
    (entries : List Entry) :
    logAfter module old (e :: entries) = logAfter module (logAfter module old [e]) entries :=
  logAfter_append module old [e] entries

theorem logAfter_of_not_marks {module : String} {e : Entry} (h : ¬ e.Marks module)
    (old : Option ByteArray) : logAfter module old [e] = old := by
  cases e with
  | loading name | logged name => exact if_neg fun hc => h hc.1.symm
  | _ => rfl

theorem logAfter_of_unmarked {module : String} {entries : List Entry}
    (h : ∀ e ∈ entries, ¬ e.Marks module) (old : Option ByteArray) :
    logAfter module old entries = old := by
  induction entries with
  | nil => rfl
  | cons e entries ih =>
    rw [logAfter_cons, logAfter_of_not_marks (h e List.mem_cons_self)]
    exact ih fun e' he => h e' (List.mem_cons_of_mem _ he)

/-- As long as a module is not loaded, its lines are added one after the other. -/
theorem logAfter_lines {module : String} {entries : List Entry}
    (h : ∀ surface modified, .loading module surface modified ∉ entries) (old : String) :
    logAfter module (some old.toUTF8) entries = some (old ++ logText module entries).toUTF8 := by
  induction entries generalizing old with
  | nil => simp [logAfter, logText]
  | cons e entries ih =>
    have hrest (surface : Nat) (modified : FileTime) :
        .loading module surface modified ∉ entries :=
      fun he => h surface modified (List.mem_cons_of_mem _ he)
    rw [logAfter_cons]
    by_cases hm : e.Marks module
    · cases e with
      | loading name surface modified =>
        cases hm
        exact absurd List.mem_cons_self (h surface modified)
      | logged name line =>
        cases hm
        have hline : logAfter module (some old.toUTF8) [.logged module line] =
            some (old ++ (line ++ "\n")).toUTF8 := by
          simp [logAfter, Entry.logChange?, logEffect, ArtifactWrite.dir, ArtifactWrite.content]
        rw [hline, ih hrest]
        simp [logText, Entry.line?, String.append_assoc]
      | _ => exact hm.elim
    · have hnone : e.line? module = none := by
        cases e with
        | logged name line => exact if_neg hm
        | _ => rfl
      rw [logAfter_of_not_marks hm, ih hrest, logText, logText, List.filterMap_cons_none hnone]

/-- What is told before the latest load of a module does not matter for its log. -/
theorem logAfter_latest_load {module : String} {surface : Nat} {modified : FileTime}
    {post : List Entry} (hpost : ∀ surface modified, .loading module surface modified ∉ post)
    (pre : List Entry) (old : Option ByteArray) :
    logAfter module old (pre ++ .loading module surface modified :: post) =
      some (logText module post).toUTF8 := by
  have hempty (old : Option ByteArray) :
      logAfter module old [.loading module surface modified] = some "".toUTF8 := by
    simp [logAfter, Entry.logChange?, logEffect, ArtifactWrite.dir, ArtifactWrite.content]
  rw [logAfter_append, logAfter_cons, hempty, logAfter_lines hpost, String.empty_append]

theorem errorsDir_ne_logsDir : errorsDir ≠ logsDir := by decide

/-! ## What is asked for -/

variable {E : Engine} {L : Licence}

namespace World

variable {u v w w' : World E}

/-- The changes of logs that are asked for are those that go with what is told, in order. -/
def Logs (w w' : World E) : Prop := ∃ entries changes,
  w'.journal.toList = w.journal.toList ++ entries ∧
  w'.disk.toList = w.disk.toList ++ changes ∧
  changes.filter (·.2.dir = logsDir) = entries.filterMap Entry.logChange?

namespace Logs

theorem refl (w : World E) : Logs w w :=
  ⟨[], [], (List.append_nil _).symm, (List.append_nil _).symm, rfl⟩

theorem trans (h : Logs u v) (h' : Logs v w) : Logs u w := by
  obtain ⟨entries, changes, hj, ho, he⟩ := h
  obtain ⟨entries', changes', hj', ho', he'⟩ := h'
  refine ⟨entries ++ entries', changes ++ changes', ?_, ?_, ?_⟩
  · rw [hj', hj, List.append_assoc]
  · rw [ho', ho, List.append_assoc]
  · rw [List.filter_append, List.filterMap_append, he, he']

/-- Nothing is told of that goes with a log, and no log is to be changed. -/
theorem silent (hj : w'.journal = w.journal ∨
      ∃ e : Entry, e.logChange? = none ∧ w'.journal = w.journal.push e)
    (ho : w'.disk = w.disk ∨
      ∃ change : String × ArtifactWrite, change.2.dir ≠ logsDir ∧
        w'.disk = w.disk.push change) : Logs w w' := by
  obtain ⟨entries, hentries, hnone⟩ : ∃ entries, w'.journal.toList = w.journal.toList ++ entries ∧
      entries.filterMap Entry.logChange? = [] := by
    rcases hj with hj | ⟨e, he, hj⟩
    · exact ⟨[], by rw [hj, List.append_nil], rfl⟩
    · exact ⟨[e], by rw [hj, Array.toList_push], List.filterMap_cons_none he⟩
  rcases ho with ho | ⟨change, hc, ho⟩
  · exact ⟨entries, [], hentries, by rw [ho, List.append_nil], hnone.symm⟩
  · refine ⟨entries, [change], hentries, by rw [ho, Array.toList_push], ?_⟩
    rw [hnone]
    exact List.filter_cons_of_neg (by simpa using hc)

end Logs

theorem grant_logs (origin : Origin) (r : Request E.Callback) : Logs w (w.grant origin r) := by
  cases r with
  | log line =>
    exact ⟨[.logged origin.module line], [(origin.module, .appendLog line)], Array.toList_push,
      Array.toList_push, rfl⟩
  | handler key callback =>
    rcases w.subscribeScript_cases ⟨origin, callback⟩ key with ⟨_, h⟩ | ⟨s, -, -, h⟩ <;>
    · simp only [World.grant, h]
      exact .silent (.inl rfl) (.inl rfl)
  | item | preventDefault => exact .silent (.inr ⟨_, rfl, rfl⟩) (.inl rfl)
  | _ => exact .silent (.inl rfl) (.inl rfl)

end World

open World

variable {w w' : World E}

theorem Move.logs (h : Move L w w') : Logs w w' := by
  cases h with
  | remark e he =>
    refine .silent (.inr ⟨e, ?_, rfl⟩) (.inl rfl)
    cases e <;> first | rfl | exact absurd he id
  | hear | prevent => exact .silent (.inr ⟨_, rfl, rfl⟩) (.inl rfl)
  | leave place n label event =>
    cases place <;> exact .silent (.inr ⟨.left _ n, rfl, rfl⟩) (.inl rfl)
  | unlisten label =>
    obtain ⟨hub, he, -⟩ := w.unlisten_cases label
    rw [he]
    exact .silent (.inl rfl) (.inl rfl)
  | unsubscribe key label =>
    obtain ⟨emitter, he, -⟩ := w.unsubscribe_cases key label
    rw [he]
    exact .silent (.inl rfl) (.inl rfl)
  | grant origin r => exact w.grant_logs origin r
  | fail name detail =>
    exact .silent (.inr ⟨.failed name detail, rfl, rfl⟩)
      (.inr ⟨(name, .writeError detail), errorsDir_ne_logsDir, rfl⟩)
  | _ => exact .silent (.inl rfl) (.inl rfl)

theorem Moves.logs (h : Moves L w w') : Logs w w' := by
  induction h with
  | refl => exact .refl w
  | tail _ h ih => exact ih.trans h.logs

namespace World

theorem readFailed_logs (name source : String) : Logs w (w.readFailed name source) :=
  .silent (.inr ⟨.failed name _, rfl, rfl⟩)
    (.inr ⟨(name, .writeError _), errorsDir_ne_logsDir, rfl⟩)

theorem finishRun_logs (origin : Origin) (r : Run E.State E.Callback) :
    Logs w (w.finishRun origin r) :=
  List.foldlRecOn (motive := Logs w) r.requests (grant origin)
    (.silent (.inl rfl) (.inl rfl)) fun _ h r _ => h.trans (grant_logs origin r)

theorem conclude_logs (name : String) (failure : Option String) :
    Logs w (w.conclude name failure) := by
  cases failure with
  | none =>
    exact .silent (.inr ⟨.loaded name, rfl, rfl⟩)
      (.inr ⟨(name, .clearError), errorsDir_ne_logsDir, rfl⟩)
  | some detail =>
    exact .silent (.inr ⟨.failed name detail, rfl, rfl⟩)
      (.inr ⟨(name, .writeError detail), errorsDir_ne_logsDir, rfl⟩)

/-- The log of a module is to be emptied when its load is told of, before anything is logged. -/
theorem reload_logs (name : String) (modified : FileTime) (source : String) :
    Logs w (w.reload name modified source) := by
  have hbegin : Logs w ((w.beginLoad name modified).write name .truncateLog) :=
    ⟨[.loading name w.nextId modified], [(name, .truncateLog)], Array.toList_push,
      Array.toList_push, rfl⟩
  rw [reload_eq]
  exact (hbegin.trans (finishRun_logs _ _)).trans (conclude_logs name _)

theorem Stretch.logs (h : Stretch L w w') : Logs w w' := by
  cases h with
  | moves h => exact h.logs
  | readFailed name source => exact readFailed_logs name source
  | reload name modified source => exact reload_logs name modified source

end World

/-! ## What a change makes of a log -/

namespace Artifacts

variable {t t' : FileTree} {root module : String}

/-- The content of what stands at a place, if it is a file. -/
def contentOf : Option FileNode → Option ByteArray
  | some (.file content _ _) => some content
  | _ => none

theorem logContent?_eq (htidy : Tidy t root) (hm : FileName.IsEntry module) :
    logContent? t root module =
      (place? t root logsDir module).bind fun p => contentOf (t.nodes.find? p) := by
  refine (content_eq t root logsDir module).trans ?_
  rcases hp : place? t root logsDir module with _ | p
  · rfl
  · have hne : p ≠ [] := (place?_no_link htidy (.inr rfl) hm hp).1
    rw [Option.bind_some, Option.bind_some, node?_of_ne_nil hne]
    rfl

theorem contentOf_editNode {content : Option ByteArray → Option ByteArray} {stamp : FileTime}
    {node : Option FileNode} (h : IsLeaf node) :
    contentOf (editNode content stamp node) = content (contentOf node) := by
  have hfile (modified : FileTime) (readable : Bool) (new : Option ByteArray) :
      contentOf (new.map (.file · modified readable)) = new := by
    cases new <;> rfl
  rcases node with _ | n
  · exact hfile stamp true _
  · obtain ⟨old, modified, readable, rfl⟩ := h n rfl
    exact hfile stamp readable _

/-- Where a log can be changed, it is a file or can become one. -/
theorem place?_of_make (htidy : Tidy t root) (hm : FileName.IsEntry module)
    {write : ArtifactWrite} (hdir : write.dir = logsDir) (h : make t root module write = .ok t') :
    ∃ p, place? t root logsDir module = some p ∧ IsLeaf (t.nodes.find? p) := by
  have written {path : List String} {time : FileTime} {change : ByteArray → ByteArray}
      (hp : FilePath.ofText (logPath root module) = .ok path)
      (h : t.writeWith path time change = .ok t') :
      ∃ p, place? t root logsDir module = some p ∧ IsLeaf (t.nodes.find? p) := by
    rw [ofText_logPath hm hp] at h
    obtain ⟨place, hroot, hlogs, hshort, hleaf, -⟩ :=
      writeWith_cases htidy.logs isEntry_logsDir rfl hm h
    refine ⟨place ++ [logsDir, module], (place?_eq_some_iff htidy (.inr rfl) hm).2
      ⟨⟨path, hp⟩, hshort, place, hroot, hlogs, rfl⟩, ?_⟩
    rw [← node?_of_ne_nil (append_pair_ne_nil place _ _)]
    exact hleaf.before
  cases write with
  | truncateLog | appendLog =>
    obtain ⟨path, hp, h⟩ := ok_of_changeAt h
    exact written hp h
  | clearError | writeError => exact absurd hdir errorsDir_ne_logsDir

/-- A change that is possible has its effect on the log of its module and none on those of
others. -/
theorem logContent?_make (htidy : Tidy t root) {change : String × ArtifactWrite}
    (hc : FileName.IsEntry change.1) (hm : FileName.IsEntry module)
    (h : make t root change.1 change.2 = .ok t') :
    logContent? t' root module = logEffect module (logContent? t root module) change := by
  obtain rfl : edited root t change = t' := by
    unfold edited
    rw [h]
  rw [logContent?_eq (edited_tidy htidy hc) hm, logContent?_eq htidy hm,
    place?_edited htidy hc (.inr rfl) hm]
  unfold logEffect
  split_ifs with hmine
  · obtain ⟨rfl, hdir⟩ := hmine
    obtain ⟨p, hp, hleaf⟩ := place?_of_make htidy hc hdir h
    rw [hp, Option.bind_some, Option.bind_some, find?_edited htidy hc, hdir, if_pos hp,
      contentOf_editNode hleaf]
  · rcases hp : place? t root logsDir module with _ | p
    · rfl
    · have hne : place? t root change.2.dir change.1 ≠ some p := by
        intro he
        obtain ⟨hdir, hmod⟩ := place?_inj htidy (isHome_dir _) (.inr rfl) hc hm he hp
        exact hmine ⟨hmod.symm, hdir⟩
      rw [Option.bind_some, Option.bind_some, find?_edited htidy hc, if_neg hne]

end Artifacts

namespace Site

variable {root : String} {start : String → Option ByteArray} {s s' : Site E} {module : String}

theorem makeChanges_log (hm : FileName.IsEntry module) :
    ∀ (changes : List (String × ArtifactWrite)) (s : Site E), Tidy s.files s.world.root →
      (∀ change ∈ changes, FileName.IsEntry change.1) →
      (changes.foldl makeChange s).AllWritten →
      logContent? (changes.foldl makeChange s).files s.world.root module =
        changes.foldl (logEffect module) (logContent? s.files s.world.root module)
  | [], _, _, _, _ => rfl
  | change :: changes, s, htidy, hnames, hwritten => by
    have hname := hnames change List.mem_cons_self
    rw [List.foldl_cons] at hwritten ⊢
    obtain ⟨files, hmade, hs⟩ := hwritten.made
    rw [hs] at hwritten ⊢
    have hrest := makeChanges_log hm changes { s with files }
      ((made_of_make htidy hname hmade).tidy htidy)
      (fun c hc => hnames c (List.mem_cons_of_mem _ hc)) hwritten
    rw [hrest, List.foldl_cons, ← logContent?_make htidy hname hm hmade]

/-- Changes beside the logs have no effect on logs. -/
theorem foldl_logEffect_filter (changes : List (String × ArtifactWrite))
    (old : Option ByteArray) : changes.foldl (logEffect module) old =
      (changes.filter (·.2.dir = logsDir)).foldl (logEffect module) old := by
  induction changes generalizing old with
  | nil => rfl
  | cons change changes ih =>
    rw [List.foldl_cons, ih, List.filter_cons]
    split_ifs with hdir
    · rfl
    · rw [logEffect, if_neg fun hc => hdir (decide_eq_true hc.2)]

/-- The logs agree with the journal, `start` being what they were at first. -/
structure LogsTold (root : String) (start : String → Option ByteArray) (s : Site E) : Prop where
  rooted : s.world.root = root
  tidy : Tidy s.files root
  settled : s.world.disk = #[]
  told : ∀ module, FileName.IsEntry module →
    logContent? s.files root module = logAfter module (start module) s.world.journal.toList

theorem LogsTold.settle (h : s.LogsTold root start) {w : World E}
    (hs : World.Stretch .entries s.world w) (hw : { s with world := w }.settle.AllWritten) :
    { s with world := w }.settle.LogsTold root start := by
  have hroot : w.root = root := hs.turns.root.trans h.rooted
  have hnamed := hs.turns.named (by simp [h.settled])
  obtain ⟨entries, changes, hj, ho, hlogs⟩ := hs.logs
  rw [h.settled] at ho
  have ho : w.disk.toList = changes := ho
  subst hroot
  simp only [Site.settle, ← Array.foldl_toList] at hw ⊢
  obtain ⟨hworld, htidy, -⟩ := makeChanges_effect w.disk.toList
    { s with world := { w with disk := #[] } } h.tidy hnamed hw
  refine ⟨by rw [hworld], htidy, by rw [hworld], fun module hm => ?_⟩
  rw [makeChanges_log hm w.disk.toList { s with world := { w with disk := #[] } } h.tidy hnamed
    hw, hworld]
  show _ = logAfter module (start module) w.journal.toList
  rw [hj, logAfter_append, ← h.told module hm, foldl_logEffect_filter, ho, hlogs]
  rfl

theorem LogsTold.opened (h : s.LogsTold root start) (hd : s.rootIsDir = true) :
    s.opened.LogsTold root start := by
  obtain ⟨hrooted, htidy, hsettled, htold⟩ := h
  subst hrooted
  obtain ⟨place, hroot⟩ := exists_rootAt hd
  refine ⟨rfl, ?_, hsettled, fun module hm => ?_⟩ <;> rw [opened_files]
  · exact (ensureDirs_confined hroot htidy).1
  · exact (ensureDirs_log hroot htidy hm).trans (htold module hm)

end Site

/-- Others leave the logs of modules alone. -/
structure Artifacts.LogsLeftAlone (root : String) (t t' : FileTree) : Prop where
  tidy : Tidy t root → Tidy t' root
  contents : ∀ module, FileName.IsEntry module →
    logContent? t' root module = logContent? t root module

namespace Site

variable {root : String} {start : String → Option ByteArray} {s s' : Site E} {module : String}

theorem lasting_logsTold :
    Lasting (E := E) .entries (LogsLeftAlone root) (·.LogsTold root start) where
  change h hc := ⟨h.rooted, hc.tidy h.tidy, h.settled, fun module hm =>
    (hc.contents module hm).trans (h.told module hm)⟩
  clock h _ := ⟨h.rooted, h.tidy, h.settled, h.told⟩
  mark h _ := ⟨h.rooted, h.tidy, h.settled, h.told⟩
  opened h hd := h.opened hd
  settle h hs hw := h.settle hs hw

theorem Run.logsTold {files : FileTree} {extension : Option String}
    (h : Run .entries (LogsLeftAlone root) (.start root files extension) s)
    (htidy : Tidy files root) (hw : s.AllWritten) : s.LogsTold root (logContent? files root) :=
  h.lasts lasting_logsTold ⟨rfl, htidy, rfl, fun _ _ => rfl⟩ hw

/-! ## What leaves a log alone -/

/-- A file that is gone, cannot be read or is of the recorded time is passed over or reported. -/
theorem visit_of_text? {name : String}
    (h : s.text? name = none ∨ s.text? name = s.world.modified? name) :
    (s.visit name).1 = s ∨ ∃ e, s.visit name = (s.readFailed name e, .failed) := by
  revert h
  unfold text? visit
  rcases s.stat name with e | modified | _
  · exact fun _ => .inr ⟨e, rfl⟩
  · dsimp only
    split_ifs with hr
    · unfold readAndReload
      rcases s.readText name with e | source
      · exact fun _ => .inr ⟨e, rfl⟩
      · exact fun h => absurd (h.resolve_left nofun).symm (World.needsReload_iff.1 hr)
    · exact fun _ => .inl rfl
  · exact fun _ => .inl rfl

/-- To look at a file that is not read leaves the log of its module alone. -/
theorem visit_leaves_log (hm : FileName.IsEntry module) (ho : s.world.disk = #[])
    (htidy : Tidy s.files s.world.root)
    (h : s.text? module = none ∨ s.text? module = s.world.modified? module) :
    logContent? (s.visit module).1.files s.world.root module =
      logContent? s.files s.world.root module := by
  rcases visit_of_text? h with hv | hfailed
  · rw [hv]
  · exact visit_log hm hm ho htidy (.inr hfailed)

/-- Names in turn leave the log of a module alone, if its own is not among them or is not read. -/
theorem visitAll_leaves_log {place names : List String}
    (hentry : ∀ name ∈ names, FileName.IsEntry name) (hm : FileName.IsEntry module)
    (ho : s.world.disk = #[]) (hroot : s.files.RootAt s.world.root place)
    (htidy : Tidy s.files s.world.root) (hd : names.Nodup)
    (h : module ∈ names →
      (s.visitAll (names.takeWhile (· ≠ module))).1.text? module = none ∨
      (s.visitAll (names.takeWhile (· ≠ module))).1.text? module = s.world.modified? module) :
    logContent? (s.visitAll names).1.files s.world.root module =
      logContent? s.files s.world.root module := by
  by_cases hmem : module ∈ names
  · replace h := h hmem
    obtain ⟨before, after, rfl, hbefore, hafter⟩ := split_names hd hmem
    have hkept : Untouched module s.world (s.visitAll before).1.world := visitAll_untouched hbefore
    rw [takeWhile_ne hbefore, ← hkept.modified?_eq] at h
    rw [visitAll_append, visitAll_cons_fst]
    -- the names before the module's own are visited, then its own, then those behind it
    have hentry₁ (name : String) (hname : name ∈ before) := hentry name
      (List.mem_append_left _ hname)
    have hentry₂ (name : String) (hname : name ∈ after) := hentry name
      (List.mem_append_right _ (List.mem_cons_of_mem _ hname))
    have ho₁ : (s.visitAll before).1.world.disk = #[] := visitAll_disk ho
    have hk₁ := visitAll_kept hentry₁ ho hroot htidy
    have hk₂ := hk₁.trans (visit_kept hm ho₁ (hk₁.rootAt hroot) hk₁.tidy)
    have hlog₁ := visitAll_log hentry₁ hm hbefore ho hroot htidy
    have hlog₂ := visit_leaves_log hm ho₁ hk₁.tidy h
    have hlog₃ := visitAll_log hentry₂ hm hafter (visit_disk ho₁) (hk₂.rootAt hroot) hk₂.tidy
    rw [hk₁.rooted] at hlog₂
    rw [hk₂.rooted] at hlog₃
    exact hlog₃.trans (hlog₂.trans hlog₁)
  · exact visitAll_log hentry hm hmem ho hroot htidy

/-- A scan that does not load a module leaves its log alone. -/
theorem scan_leaves_log (hn : ∀ name, s.Sees name → FileName.IsEntry name)
    (hm : FileName.IsEntry module) (ho : s.world.disk = #[])
    (htidy : Tidy s.files s.world.root)
    (h : s.sighting module = none ∨ s.sighting module = s.world.modified? module) :
    logContent? s.scan.1.files s.world.root module =
      logContent? s.files s.world.root module := by
  unfold sighting at h
  have hs := s.scanned
  generalize s.scan = r at hs h
  cases hs with
  | skipped => rfl
  | noRoot => rfl
  | stopped e _ hd =>
    obtain ⟨place, hroot⟩ := exists_rootAt hd
    show logContent? s.opened.files _ _ = _
    rw [opened_files, ensureDirs_log hroot htidy hm]
  | visited names _ hd hnames =>
    obtain ⟨place, hroot⟩ := exists_rootAt hd
    have hk := opened_kept hroot htidy
    have hopened : logContent? s.opened.files s.world.root module =
        logContent? s.files s.world.root module := by
      rw [opened_files, ensureDirs_log hroot htidy hm]
    have hturn (hmem : module ∈ names) : (s.turnOf names module).text? module = none ∨
        (s.turnOf names module).text? module = s.world.modified? module := by
      simpa only [hnames, report, Bool.false_eq_true, hmem, not_true_eq_false, or_self,
        if_false] using h
    exact (visitAll_leaves_log (s := s.opened)
      (fun name hname => hn name ⟨names, hnames, hname⟩) hm ho (hk.rootAt hroot) hk.tidy
      (moduleNames_nodup hnames) hturn).trans hopened

/-- The load of another module leaves a log alone. -/
theorem reload_leaves_log {name : String} (hn : FileName.IsEntry name)
    (hm : FileName.IsEntry module) (hne : name ≠ module) (ho : s.world.disk = #[])
    (htidy : Tidy s.files s.world.root) (modified : FileTime) (source : String) :
    logContent? (s.reload name modified source).files s.world.root module =
      logContent? s.files s.world.root module := by
  rw [reload_files ho]
  refine (content_editAll htidy (isEntry_writes hn _) hm fun c hc he => ?_).1
  obtain ⟨write, -, rfl⟩ := List.mem_map.1 hc
  exact hne he

end Site

/-- A list in which a module is loaded ends in what was told since its latest load. -/
theorem exists_latest_load {module : String} {entries : List Entry}
    (h : ∃ surface modified, .loading module surface modified ∈ entries) :
    ∃ pre surface modified post, entries = pre ++ .loading module surface modified :: post ∧
      ∀ surface modified, .loading module surface modified ∉ post := by
  induction entries with
  | nil =>
    obtain ⟨_, _, he⟩ := h
    cases he
  | cons e entries ih =>
    by_cases hlater : ∃ surface modified, .loading module surface modified ∈ entries
    · obtain ⟨pre, surface, modified, post, rfl, hpost⟩ := ih hlater
      exact ⟨e :: pre, surface, modified, post, rfl, hpost⟩
    · obtain ⟨surface, modified, he⟩ := h
      rcases List.mem_cons.1 he with rfl | he
      · exact ⟨[], surface, modified, entries, rfl, fun surface modified hm =>
          hlater ⟨surface, modified, hm⟩⟩
      · exact absurd ⟨surface, modified, he⟩ hlater

/-- The log of a module that was ever loaded holds the lines that were logged by it since it was
last loaded, in order. It is left alone by every step in which the module is not loaded and logs
nothing, by the loads of other modules, and by scans that find no file of the module which can be
read, or the version that is recorded. -/
theorem logFile_holds_lines {root : String} {files : FileTree} {extension : Option String}
    {s : Site E} (h : Site.Run .entries (LogsLeftAlone root) (.start root files extension) s)
    (htidy : Tidy files root) (hw : s.AllWritten) {module : String}
    (hm : FileName.IsEntry module) :
    ((∃ surface modified, .loading module surface modified ∈ s.world.journal.toList) →
      ∃ pre surface modified post,
        s.world.journal.toList = pre ++ .loading module surface modified :: post ∧
        (∀ surface modified, .loading module surface modified ∉ post) ∧
        logContent? s.files root module = some (logText module post).toUTF8) ∧
    (∀ s' entries, Site.Step .entries (LogsLeftAlone root) s s' → s'.AllWritten →
      s'.world.journal.toList = s.world.journal.toList ++ entries →
      (∀ e ∈ entries, ¬ e.Marks module) →
      logContent? s'.files root module = logContent? s.files root module) ∧
    (∀ name modified source, FileName.IsEntry name → name ≠ module →
      logContent? (s.reload name modified source).files root module =
        logContent? s.files root module) ∧
    ((∀ name, s.Sees name → FileName.IsEntry name) →
      s.sighting module = none ∨ s.sighting module = s.world.modified? module →
      logContent? s.scan.1.files root module = logContent? s.files root module) := by
  have hs := h.logsTold htidy hw
  obtain rfl := hs.rooted
  refine ⟨fun hloaded => ?_, fun s' entries hstep hw' hj he => ?_,
    fun name modified source hn hne => Site.reload_leaves_log hn hm hne hs.settled hs.tidy _ _,
    fun hn hsight => Site.scan_leaves_log hn hm hs.settled hs.tidy hsight⟩
  · obtain ⟨pre, surface, modified, post, hj, hpost⟩ := exists_latest_load hloaded
    refine ⟨pre, surface, modified, post, hj, hpost, ?_⟩
    rw [hs.told module hm, hj, logAfter_latest_load hpost]
  · rw [((h.tail hstep).logsTold htidy hw').told module hm, hs.told module hm, hj,
      logAfter_append, logAfter_of_unmarked he]

/-- What the superseded version of a module logged before the load is gone, what its command logs
afterwards is not. -/
theorem superseded_version_logs :
    ∃ s : Site scribe,
      Site.Run .entries (LogsLeftAlone "world") (.start "world" bareFiles none) s ∧
      Tidy bareFiles "world" ∧ s.AllWritten ∧ FileName.IsEntry "a.lua" ∧
      logContent? s.files "world" "a.lua" = some "new\nspoken\n".toUTF8 ∧
      ∃ pre surface modified post,
        s.world.journal.toList = pre ++ .loading "a.lua" surface modified :: post ∧
        (∀ surface modified, .loading "a.lua" surface modified ∉ post) ∧
        (logText "a.lua" post).toUTF8 = "new\nspoken\n".toUTF8 := by
  let s₀ : Site scribe := .start "world" bareFiles none
  let s₁ := ((s₀.reload "a.lua" ⟨100, 0⟩ "old").reload "b.lua" ⟨100, 0⟩ "beside").reload "a.lua"
    ⟨200, 0⟩ "new"
  have hact : ((s₁.act 9 (.runCommand "player" "say")).map fun r =>
      (r.1.world.journal.toList.any Entry.isUnwritten,
        currentSurface? r.1.world.journal.toList "a.lua",
        logContent? r.1.files "world" "a.lua")) =
      some (false, some 5, some "new\nspoken\n".toUTF8) := by
    decide +kernel
  obtain ⟨⟨s, r⟩, hs, hf⟩ := Option.map_eq_some_iff.1 hact
  obtain ⟨hany, hf⟩ := Prod.mk.inj hf
  obtain ⟨hcurrent, hcontent⟩ := Prod.mk.inj hf
  have ha : FileName.IsEntry "a.lua" := ⟨by decide, by decide, by decide, by decide⟩
  have hb : FileName.IsEntry "b.lua" := ⟨by decide, by decide, by decide, by decide⟩
  have hrun : Site.Run .entries (LogsLeftAlone "world") s₀ s :=
    ((((Site.Run.refl "world" bareFiles none).tail (.reload s₀ "a.lua" ⟨100, 0⟩ "old" ha)).tail
      (.reload _ "b.lua" ⟨100, 0⟩ "beside" hb)).tail
        (.reload _ "a.lua" ⟨200, 0⟩ "new" ha)).tail
          (.act 9 (.runCommand "player" "say") r trivial hs)
  have hw : s.AllWritten := .of_any hany
  obtain ⟨pre, surface, modified, post, hj, hpost, hlog⟩ :=
    (logFile_holds_lines hrun bareFiles_tidy hw ha).1 ⟨5, loading_of_currentSurface? hcurrent⟩
  rw [hcontent, Option.some.injEq] at hlog
  exact ⟨s, hrun, bareFiles_tidy, hw, ha, hcontent, pre, surface, modified, post, hj, hpost,
    hlog.symm⟩

/-- Where a log is a link, one module writes over the lines of another, though every change of files
is possible and nobody else makes any. -/
theorem shared_log_overwritten :
    ∃ s : Site scribe, Site.Run .entries (fun _ _ => False) (.start "world" sharedLog none) s ∧
      s.AllWritten ∧ FileName.IsEntry "a.lua" ∧
      ∃ pre surface modified post,
        s.world.journal.toList = pre ++ .loading "a.lua" surface modified :: post ∧
        (∀ surface modified, .loading "a.lua" surface modified ∉ post) ∧
        logContent? s.files "world" "a.lua" ≠ some (logText "a.lua" post).toUTF8 := by
  let s₀ : Site scribe := .start "world" sharedLog none
  let s := (s₀.reload "a.lua" ⟨100, 0⟩ "x").reload "b.lua" ⟨100, 0⟩ "y"
  have hany : s.world.journal.toList.any Entry.isUnwritten = false := by decide +kernel
  have ha : FileName.IsEntry "a.lua" := ⟨by decide, by decide, by decide, by decide⟩
  have hb : FileName.IsEntry "b.lua" := ⟨by decide, by decide, by decide, by decide⟩
  have hcurrent : currentSurface? s.world.journal.toList "a.lua" = some 1 := by decide +kernel
  obtain ⟨pre, surface, modified, post, hj, hpost⟩ :=
    exists_latest_load ⟨1, loading_of_currentSurface? hcurrent⟩
  have hlines : logAfter "a.lua" none s.world.journal.toList = some "x\n".toUTF8 := by
    decide +kernel
  refine ⟨s, ((Site.Run.refl "world" sharedLog none).tail (.reload s₀ "a.lua" ⟨100, 0⟩ "x" ha)).tail
    (.reload _ "b.lua" ⟨100, 0⟩ "y" hb), .of_any hany, ha, pre, surface, modified, post, hj, hpost,
    ?_⟩
  rw [hj, logAfter_latest_load hpost] at hlines
  rw [hlines]
  decide +kernel

end LiveModules
