import LiveModules.Proofs.ArtifactFiles
import LiveModules.Proofs.Settlements
import Mathlib.Data.List.Induction

/-!
# What the error files tell

As long as the files that tell of modules can be changed as asked, and nobody else changes them, the
error file of a module is the last word of the journal on it (`errorFile_tells_failure`), unless it
is a link to that of another one or was there from before (`error_file_tells_otherwise`). What
carries this is `Due`: the changes that a world asks for bring an error file up to its journal.
-/

namespace LiveModules

open Artifacts

attribute [local irreducible] lastOf

/-! ## The last word on a module -/

/-- The entry says how a module fares. -/
def Entry.Judges (module : String) : Entry → Prop
  | .failed name _ | .loaded name => name = module
  | _ => False

/-- What is known of a module after an entry: why it failed, nothing if it was loaded well. -/
def Entry.tell (module : String) (old : Option ByteArray) : Entry → Option ByteArray
  | .failed name detail => if module = name then some detail.toUTF8 else old
  | .loaded name => if module = name then none else old
  | _ => old

/-- What is known of a module after all entries. -/
def told (module : String) (old : Option ByteArray) (journal : List Entry) : Option ByteArray :=
  journal.foldl (Entry.tell module) old

/-- What a change of files makes of the error file of a module. -/
def effectOn (module : String) (old : Option ByteArray) (change : String × ArtifactWrite) :
    Option ByteArray :=
  if module = change.1 then change.2.effect old else old

theorem Entry.tell_of_not_judges {module : String} {e : Entry} (h : ¬ e.Judges module)
    (old : Option ByteArray) : e.tell module old = old := by
  cases e with
  | failed name detail => exact if_neg (Ne.symm h)
  | loaded name => exact if_neg (Ne.symm h)
  | _ => rfl

theorem told_append (module : String) (old : Option ByteArray) (a b : List Entry) :
    told module old (a ++ b) = told module (told module old a) b :=
  List.foldl_append

theorem told_of_silent {module : String} : ∀ {journal : List Entry} (old : Option ByteArray),
    (∀ e ∈ journal, ¬ e.Judges module) → told module old journal = old
  | [], _, _ => rfl
  | e :: journal, old, h => by
    show told module (e.tell module old) journal = old
    rw [Entry.tell_of_not_judges (h e List.mem_cons_self)]
    exact told_of_silent old fun e' he => h e' (List.mem_cons_of_mem _ he)

/-- The last word on a module is its last failure, if it was not loaded since, or nothing was ever
said of it. -/
theorem told_eq_some_iff {module : String} {start : Option ByteArray} {content : ByteArray}
    (journal : List Entry) : told module start journal = some content ↔
      (∃ pre detail post, journal = pre ++ .failed module detail :: post ∧
        (∀ e ∈ post, ¬ e.Judges module) ∧ content = detail.toUTF8) ∨
      ((∀ e ∈ journal, ¬ e.Judges module) ∧ start = some content) := by
  constructor
  · induction journal using List.reverseRecOn with
    | nil => exact fun h => .inr ⟨fun _ he => (by cases he), h⟩
    | append_singleton journal e ih =>
      intro h
      rw [told_append] at h
      by_cases he : e.Judges module
      · cases e with
        | failed name detail =>
          cases he
          have h : (if module = module then some detail.toUTF8 else _) = some content := h
          rw [if_pos rfl, Option.some.injEq] at h
          exact .inl ⟨journal, detail, [], rfl, fun _ hm => (by cases hm), h.symm⟩
        | loaded name =>
          cases he
          have h : (if module = module then none else _) = some content := h
          rw [if_pos rfl] at h
          cases h
        | _ => exact he.elim
      · -- an entry that judges nothing can stand behind either kind of journal
        have hlast {l : List Entry} (hl : ∀ e ∈ l, ¬ e.Judges module) :
            ∀ e' ∈ l ++ [e], ¬ e'.Judges module := by
          intro e' hm
          rcases List.mem_append.1 hm with hm | hm
          · exact hl e' hm
          · exact List.mem_singleton.1 hm ▸ he
        have h : e.tell module (told module start journal) = some content := h
        rw [Entry.tell_of_not_judges he] at h
        rcases ih h with ⟨pre, detail, post, hj, hpost, hc⟩ | ⟨hj, hs⟩
        · exact .inl ⟨pre, detail, post ++ [e], by rw [hj]; simp, hlast hpost, hc⟩
        · exact .inr ⟨hlast hj, hs⟩
  · rintro (⟨pre, detail, post, rfl, hpost, rfl⟩ | ⟨hj, hs⟩)
    · rw [told_append]
      show told module (if module = module then some detail.toUTF8 else _) post = _
      rw [told_of_silent _ hpost, if_pos rfl]
    · rw [told_of_silent _ hj, hs]

/-! ## What is due -/

variable {E : Engine} {L : Licence} {w w' : World E}

/-- No change is asked for and nothing judged, or both alike. -/
structure World.Evened (L : Licence) (w w' : World E) : Prop where
  root : w'.root = w.root
  cases : (w'.disk = w.disk ∧ ∀ module old,
      told module old w'.journal.toList = told module old w.journal.toList) ∨
    ∃ change : String × ArtifactWrite, L.module change.1 ∧ w'.disk = w.disk.push change ∧
      ∀ module old, told module old w'.journal.toList =
        effectOn module (told module old w.journal.toList) change

theorem told_push (module : String) (old : Option ByteArray) (journal : Array Entry) (e : Entry) :
    told module old (journal.push e).toList = e.tell module (told module old journal.toList) := by
  rw [Array.toList_push, told_append]
  rfl

namespace World.Evened

/-- Nothing is asked for, and nothing or something else is told of. -/
theorem silent (hr : w'.root = w.root) (ho : w'.disk = w.disk)
    (hj : w'.journal = w.journal ∨ ∃ e : Entry, (∀ module, ¬ e.Judges module) ∧
      w'.journal = w.journal.push e) : World.Evened L w w' := by
  refine ⟨hr, .inl ⟨ho, fun module old => ?_⟩⟩
  rcases hj with hj | ⟨e, he, hj⟩
  · rw [hj]
  · rw [hj, told_push, Entry.tell_of_not_judges (he module)]

end World.Evened

theorem World.grant_evened (origin : Origin) (r : Request E.Callback)
    (ho : origin.Licensed L w.journal.toList) : World.Evened L w (w.grant origin r) := by
  cases r with
  | log line =>
    refine ⟨rfl, .inr ⟨(origin.module, .appendLog line), ho.1, rfl, fun module old => ?_⟩⟩
    simp only [World.grant, World.note, World.write_eq, told_push, Entry.tell, effectOn,
      ArtifactWrite.effect, ite_self]
  | handler key callback =>
    rcases w.subscribeScript_cases ⟨origin, callback⟩ key with ⟨_, h⟩ | ⟨s, -, -, h⟩ <;>
    · simp only [World.grant, h]
      exact .silent rfl rfl (.inl rfl)
  | item | preventDefault => exact .silent rfl rfl (.inr ⟨_, fun _ => id, rfl⟩)
  | _ => exact .silent rfl rfl (.inl rfl)

theorem Move.evened (h : Move L w w') : World.Evened L w w' := by
  cases h with
  | remark e he =>
    refine .silent rfl rfl (.inr ⟨e, fun module => ?_, rfl⟩)
    cases e <;> first | exact id | exact absurd he id
  | hear | prevent => exact .silent rfl rfl (.inr ⟨_, fun _ => id, rfl⟩)
  | leave place n label event =>
    cases place <;> exact .silent rfl rfl (.inr ⟨.left _ n, fun _ => id, rfl⟩)
  | unlisten label =>
    obtain ⟨hub, he, -⟩ := w.unlisten_cases label
    rw [he]
    exact .silent rfl rfl (.inl rfl)
  | unsubscribe key label =>
    obtain ⟨emitter, he, -⟩ := w.unsubscribe_cases key label
    rw [he]
    exact .silent rfl rfl (.inl rfl)
  | grant origin r ho => exact w.grant_evened origin r ho
  | fail name detail hn =>
    refine ⟨rfl, .inr ⟨(name, .writeError detail), hn, rfl, fun module old => ?_⟩⟩
    simp only [World.note, World.writeError, World.write_eq, told_push, Entry.tell, effectOn,
      ArtifactWrite.effect]
  | _ => exact .silent rfl rfl (.inl rfl)

theorem Turn.evened (h : Turn L w w') : World.Evened L w w' := by
  cases h with
  | move h => exact h.evened
  | beginLoad => exact .silent rfl rfl (.inr ⟨_, fun _ => id, rfl⟩)
  | truncateLog name hn =>
    refine ⟨rfl, .inr ⟨(name, .truncateLog), hn, rfl, fun module old => ?_⟩⟩
    simp only [World.write_eq, effectOn, ArtifactWrite.effect, ite_self]
  | load name hn =>
    refine ⟨rfl, .inr ⟨(name, .clearError), hn, rfl, fun module old => ?_⟩⟩
    simp only [World.note, World.write_eq, told_push, Entry.tell, effectOn, ArtifactWrite.effect]
  | closeRecord => exact .silent rfl rfl (.inl rfl)

theorem Turns.root (h : Turns L w w') : w'.root = w.root := by
  induction h with
  | refl => rfl
  | tail _ h ih => exact h.evened.root.trans ih

/-- Whatever is asked for is about modules that are allowed. -/
theorem Turns.named (h : Turns L w w') (hn : ∀ change ∈ w.disk.toList, L.module change.1) :
    ∀ change ∈ w'.disk.toList, L.module change.1 := by
  induction h with
  | refl => exact hn
  | tail _ h ih =>
    rcases h.evened.cases with ⟨ho, -⟩ | ⟨change, hc, ho, -⟩
    · exact ho ▸ ih
    · intro change' hc'
      rw [ho, Array.toList_push] at hc'
      rcases List.mem_append.1 hc' with hc' | hc'
      · exact ih change' hc'
      · exact List.mem_singleton.1 hc' ▸ hc

/-- The changes that a world asks for bring the error file of a module, now `file`, up to its
journal. -/
def World.Due (module : String) (file start : Option ByteArray) (w : World E) : Prop :=
  w.disk.toList.foldl (effectOn module) file = told module start w.journal.toList

theorem Turns.due {module : String} {file start : Option ByteArray} (h : Turns L w w')
    (hd : w.Due module file start) : w'.Due module file start := by
  induction h with
  | refl => exact hd
  | tail _ h ih =>
    unfold World.Due at ih ⊢
    rcases h.evened.cases with ⟨ho, hj⟩ | ⟨change, -, ho, hj⟩
    · rw [ho, hj, ih]
    · rw [ho, hj, Array.toList_push, List.foldl_append, ih]
      rfl

/-! ## Changes are made -/

/-- Modules have names of directory entries; all else is allowed. -/
def Licence.entries : Licence where
  module := FileName.IsEntry
  action := fun _ => True
  emit := fun _ => trivial
  carried := fun _ _ _ => Plan.within_true _

namespace Site

variable {root : String} {start : String → Option ByteArray} {s s' : Site E}

/-- The error files agree with the journal, `start` being what they were at first. -/
structure UpToDate (root : String) (start : String → Option ByteArray) (s : Site E) : Prop where
  rooted : s.world.root = root
  tidy : Tidy s.files root
  settled : s.world.disk = #[]
  told : ∀ module, FileName.IsEntry module →
    errorContent? s.files root module = told module (start module) s.world.journal.toList

theorem makeChanges_effect : ∀ (changes : List (String × ArtifactWrite)) (s : Site E),
    Tidy s.files s.world.root → (∀ change ∈ changes, FileName.IsEntry change.1) →
    (changes.foldl makeChange s).AllWritten →
    (changes.foldl makeChange s).world = s.world ∧
      Tidy (changes.foldl makeChange s).files s.world.root ∧
      ∀ module, FileName.IsEntry module →
        errorContent? (changes.foldl makeChange s).files s.world.root module =
          changes.foldl (effectOn module) (errorContent? s.files s.world.root module)
  | [], s, htidy, _, _ => ⟨rfl, htidy, fun _ _ => rfl⟩
  | change :: changes, s, htidy, hnames, hwritten => by
    have hname := hnames change List.mem_cons_self
    simp only [List.foldl_cons] at hwritten ⊢
    obtain ⟨files, hm, hs⟩ := hwritten.made
    rw [hs] at hwritten ⊢
    have hmade := made_of_make htidy hname hm
    obtain ⟨hworld, htidy', htold⟩ := makeChanges_effect changes { s with files }
      (hmade.tidy htidy) (fun c hc => hnames c (List.mem_cons_of_mem _ hc)) hwritten
    refine ⟨hworld, htidy', fun module hmod => ?_⟩
    rw [htold module hmod]
    exact congrArg (changes.foldl (effectOn module)) (hmade.errorContent? htidy hname hmod)

/-- What a world went through is made good by the changes of files that it asks for. -/
theorem UpToDate.settle (h : s.UpToDate root start) {w : World E}
    (ht : Turns .entries s.world w) (hw : { s with world := w }.settle.AllWritten) :
    { s with world := w }.settle.UpToDate root start := by
  have hroot : w.root = root := ht.root.trans h.rooted
  have hnamed := ht.named (by simp [h.settled])
  have hdue (module : String) (hm : FileName.IsEntry module) :
      w.Due module (errorContent? s.files root module) (start module) := by
    refine ht.due ?_
    rw [World.Due, h.settled]
    exact h.told module hm
  subst hroot
  simp only [Site.settle, ← Array.foldl_toList] at hw ⊢
  obtain ⟨hworld, htidy, htold⟩ := makeChanges_effect w.disk.toList
    { s with world := { w with disk := #[] } } h.tidy hnamed hw
  refine ⟨by rw [hworld], htidy, by rw [hworld], fun module hm => ?_⟩
  rw [htold module hm, hworld]
  exact hdue module hm

theorem exists_rootAt (h : s.rootIsDir = true) : ∃ place, s.files.RootAt s.world.root place := by
  unfold rootIsDir at h
  split at h
  · rename_i path hp
    exact FileTree.exists_rootAt hp h
  · cases h

theorem UpToDate.opened (h : s.UpToDate root start) (hd : s.rootIsDir = true) :
    s.opened.UpToDate root start := by
  obtain ⟨hrooted, htidy, hsettled, htold⟩ := h
  subst hrooted
  obtain ⟨place, hroot⟩ := exists_rootAt hd
  obtain ⟨htidy, -, hc⟩ := ensureDirs_confined hroot htidy
  refine ⟨rfl, ?_, hsettled, fun module hm => ?_⟩ <;> rw [opened_files]
  · exact htidy
  · exact (hc module hm).trans (htold module hm)

end Site

/-- Others leave the files that tell of modules alone. -/
structure Artifacts.LeftAlone (root : String) (t t' : FileTree) : Prop where
  tidy : Tidy t root → Tidy t' root
  contents : ∀ module, FileName.IsEntry module →
    errorContent? t' root module = errorContent? t root module

namespace Site

variable {root : String} {start : String → Option ByteArray} {s s' : Site E}

theorem lasting_upToDate : Lasting (E := E) .entries (LeftAlone root) (·.UpToDate root start) where
  change h hc := ⟨h.rooted, hc.tidy h.tidy, h.settled, fun module hm =>
    (hc.contents module hm).trans (h.told module hm)⟩
  clock h _ := ⟨h.rooted, h.tidy, h.settled, h.told⟩
  mark h _ := ⟨h.rooted, h.tidy, h.settled, h.told⟩
  opened h hd := h.opened hd
  settle h hs hw := h.settle hs.turns hw

theorem Run.upToDate {files : FileTree} {extension : Option String}
    (h : Run .entries (LeftAlone root) (.start root files extension) s) (htidy : Tidy files root)
    (hw : s.AllWritten) : s.UpToDate root (errorContent? files root) :=
  h.lasts lasting_upToDate ⟨rfl, htidy, rfl, fun _ _ => rfl⟩ hw

end Site

/-- The error file of a module holds what went wrong with it last, and is there only if something
did after the module was last loaded well; before anything is said of the module, it is what it was
at first. A step that passes no judgement on the module leaves it alone. -/
theorem errorFile_tells_failure {root : String} {files : FileTree} {extension : Option String}
    {s : Site E} (h : Site.Run .entries (LeftAlone root) (.start root files extension) s)
    (htidy : Tidy files root) (hw : s.AllWritten) {module : String}
    (hm : FileName.IsEntry module) :
    (∀ content, errorContent? s.files root module = some content ↔
      (∃ pre detail post, s.world.journal.toList = pre ++ .failed module detail :: post ∧
        (∀ e ∈ post, ¬ e.Judges module) ∧ content = detail.toUTF8) ∨
      ((∀ e ∈ s.world.journal.toList, ¬ e.Judges module) ∧
        errorContent? files root module = some content)) ∧
    ∀ s' entries, Site.Step .entries (LeftAlone root) s s' → s'.AllWritten →
      s'.world.journal.toList = s.world.journal.toList ++ entries →
      (∀ e ∈ entries, ¬ e.Judges module) →
      errorContent? s'.files root module = errorContent? s.files root module := by
  have hs := h.upToDate htidy hw
  refine ⟨fun content => ?_, fun s' entries hstep hw' hj he => ?_⟩
  · rw [hs.told module hm]
    exact told_eq_some_iff _
  · rw [((h.tail hstep).upToDate htidy hw').told module hm, hs.told module hm, hj, told_append,
      told_of_silent _ he]

/-- The text `late` makes a handler that fails at every event; any other text fails at once. -/
def stumbler : Engine :=
  .ofRuns (fun text => if text = "late" then ([.handler .tick 0], none) else ([], some text))
    fun _ => ([], some "too late")

/-- A watched directory with no modules yet. -/
def bareFiles : FileTree :=
  ((FileTree.empty.put ["world"] .dir).put ["world", errorsDir] .dir).put ["world", logsDir] .dir

theorem bareFiles_nodes {place : List String} {node : FileNode}
    (h : bareFiles.node? place = some node) :
    place ∈ [["world", logsDir], ["world", errorsDir], ["world"], []] ∧ node = .dir := by
  simp only [bareFiles, FileTree.node?_put (List.cons_ne_nil _ _)] at h
  split at h
  · rename_i hp
    exact ⟨by simp [hp], (Option.some.inj h).symm⟩
  split at h
  · rename_i hp
    exact ⟨by simp [hp], (Option.some.inj h).symm⟩
  split at h
  · rename_i hp
    exact ⟨by simp [hp], (Option.some.inj h).symm⟩
  cases place with
  | nil => exact ⟨by simp, (Option.some.inj h).symm⟩
  | cons => cases h

theorem bareFiles_tidy : Tidy bareFiles "world" := by
  have hroot : bareFiles.RootAt "world" ["world"] := ⟨by decide +kernel, rfl⟩
  exact .of_no_link (fun place target h => by cases (bareFiles_nodes h).2) hroot rfl rfl

/-- A handler that fails long after its module was loaded leaves its error file. -/
theorem late_failure_told :
    ∃ s : Site stumbler,
      Site.Run .entries (LeftAlone "world") (.start "world" bareFiles none) s ∧
      Tidy bareFiles "world" ∧ s.AllWritten ∧ FileName.IsEntry "a.lua" ∧
      errorContent? s.files "world" "a.lua" = some "too late".toUTF8 ∧
      ∃ pre detail post, s.world.journal.toList = pre ++ .failed "a.lua" detail :: post ∧
        (∀ e ∈ post, ¬ e.Judges "a.lua") ∧ "too late".toUTF8 = detail.toUTF8 := by
  let s₀ : Site stumbler := .start "world" bareFiles none
  let s₁ := (s₀.reload "a.lua" ⟨100, 0⟩ "late").reload "b.lua" ⟨100, 0⟩ "at once"
  have hact : ((s₁.act 9 (.emit Site.tickEvent)).map fun r =>
      (r.1.world.journal.toList.any Entry.isUnwritten,
        errorContent? r.1.files "world" "a.lua")) = some (false, some "too late".toUTF8) := by
    decide +kernel
  obtain ⟨⟨s, r⟩, hs, hf⟩ := Option.map_eq_some_iff.1 hact
  obtain ⟨hany, hcontent⟩ := Prod.mk.inj hf
  have ha : FileName.IsEntry "a.lua" := ⟨by decide, by decide, by decide, by decide⟩
  have hb : FileName.IsEntry "b.lua" := ⟨by decide, by decide, by decide, by decide⟩
  have hrun : Site.Run .entries (LeftAlone "world") s₀ s :=
    (((Site.Run.refl "world" bareFiles none).tail (.reload s₀ "a.lua" ⟨100, 0⟩ "late" ha)).tail
      (.reload _ "b.lua" ⟨100, 0⟩ "at once" hb)).tail (.act 9 (.emit Site.tickEvent) r trivial hs)
  have hw : s.AllWritten := .of_any hany
  refine ⟨s, hrun, bareFiles_tidy, hw, ha, hcontent, ?_⟩
  rcases ((errorFile_tells_failure hrun bareFiles_tidy hw ha).1 _).1 hcontent with h | ⟨-, h⟩
  · exact h
  · have hnone : errorContent? bareFiles "world" "a.lua" = none := by decide +kernel
    rw [hnone] at h
    cases h

/-- A watched directory in which the error file of one module is a link to that of another. -/
def sharedErrors : FileTree := bareFiles.put ["world", errorsDir, "b.lua"] (.link "a.lua")

/-- A watched directory with an error file from before. -/
def oldErrors : FileTree :=
  bareFiles.put ["world", errorsDir, "a.lua"] (.file "old".toUTF8 ⟨1, 0⟩ true)

/-- Every change of files being possible and nobody else making any, an error file need not tell
what went wrong with its module last: where it is a link, what went wrong with another module is
written over it, and before anything is said of its module it is what it was at first. -/
theorem error_file_tells_otherwise :
    (∃ s : Site stumbler,
      Site.Run .entries (fun _ _ => False) (.start "world" sharedErrors none) s ∧
      s.AllWritten ∧ FileName.IsEntry "a.lua" ∧
      ∃ pre detail post, s.world.journal.toList = pre ++ .failed "a.lua" detail :: post ∧
        (∀ e ∈ post, ¬ e.Judges "a.lua") ∧
        errorContent? s.files "world" "a.lua" ≠ some detail.toUTF8) ∧
    ∃ s : Site stumbler,
      Site.Run .entries (fun _ _ => False) (.start "world" oldErrors none) s ∧
      s.AllWritten ∧ FileName.IsEntry "a.lua" ∧
      (∀ detail, .failed "a.lua" detail ∉ s.world.journal.toList) ∧
      errorContent? s.files "world" "a.lua" = some "old".toUTF8 := by
  have ha : FileName.IsEntry "a.lua" := ⟨by decide, by decide, by decide, by decide⟩
  have hb : FileName.IsEntry "b.lua" := ⟨by decide, by decide, by decide, by decide⟩
  refine ⟨?_, .start "world" oldErrors none, .refl .., .of_any rfl, ha, fun _ => ?_, ?_⟩
  · let s₀ : Site stumbler := .start "world" sharedErrors none
    let s := (s₀.reload "a.lua" ⟨100, 0⟩ "one").reload "b.lua" ⟨100, 0⟩ "two"
    have hany : s.world.journal.toList.any Entry.isUnwritten = false := by decide +kernel
    have htold : told "a.lua" none s.world.journal.toList = some "one".toUTF8 := by
      decide +kernel
    have hcontent : errorContent? s.files "world" "a.lua" ≠ some "one".toUTF8 := by
      decide +kernel
    rcases (told_eq_some_iff _).1 htold with ⟨pre, detail, post, hj, hpost, hd⟩ | ⟨-, h⟩
    · exact ⟨s, ((Site.Run.refl "world" sharedErrors none).tail
        (.reload s₀ "a.lua" ⟨100, 0⟩ "one" ha)).tail (.reload _ "b.lua" ⟨100, 0⟩ "two" hb),
        .of_any hany, ha, pre, detail, post, hj, hpost, hd ▸ hcontent⟩
    · cases h
  · exact List.not_mem_nil
  · decide +kernel

end LiveModules
