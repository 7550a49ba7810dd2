import LiveModules.Proofs.Drives
import LiveModules.Proofs.ErrorFiles

/-!
# The files that tell of modules have no say

In the middle of what a call does it changes files, and each of these changes may turn out not to be
possible. It has no say in what the call does besides: on two disks of any kind the same call comes
to the same (`World.Alike.run`), since it does so on a disk that takes every change and keeps
nothing of it. And what is written stays in the directories for the files that tell of modules,
unless links or the names of modules lead out of them (`World.Kempt.run`,
`error_written_elsewhere`).
-/

namespace LiveModules

open World Artifacts FileTree

attribute [local irreducible] lastOf

variable {E : Engine} {D D' : Type}

/-- A call from outside: a load, the delivery of an event to one module, or an action. -/
inductive Call where
  | reload (module : String) (modified : FileTime) (source : String)
  | dispatch (module : String) (event : GameEvent)
  | act (a : Action)

inductive Reply where
  | state (s : ModuleState)
  | count (n : Nat)
  | answer (a : Answer)

namespace Call

variable [Disk D] [Disk D']

def run (fuel : Nat) (w : World E D) : Call → Option (World E D × Reply)
  | reload module modified source =>
    some (w.reload module modified source,
      .state ((w.reload module modified source).stateOf module))
  | dispatch module event =>
    (w.dispatch (perform fuel) (.surface module) event).map fun r => (r.1, .count r.2)
  | act a => (perform fuel a w).map fun r => (r.1, .answer r.2)

/-- It loads nothing but what can be an entry of the watched directory. -/
def Within : Call → Prop
  | reload module .. => FileName.IsEntry module
  | _ => True

theorem run_carried {φ : String → D → D'} (hφ : Disk.Carried φ) (fuel : Nat) (w : World E D)
    (c : Call) : c.run fuel (w.mapDisk φ) = (c.run fuel w).map (mapDiskWith φ) := by
  cases c with
  | reload module modified source =>
    rw [run, run, mapDisk_reload hφ]
    rfl
  | dispatch module event =>
    rw [run, run, mapDisk_dispatch w hφ (perform_carried hφ fuel), Option.map_map, Option.map_map]
    rfl
  | act a =>
    rw [run, run, perform_carried hφ fuel, Option.map_map, Option.map_map]
    rfl

end Call

/-- What a site does at a call, it does on its drive. -/
theorem Site.call_eq (fuel : Nat) (s : Site E) :
    (∀ module modified source,
      ((Call.reload module modified source).run fuel s.mounted).map (s.unmount ·.1) =
        some (s.reload module modified source)) ∧
    (∀ module event, ((Call.dispatch module event).run fuel s.mounted).map (s.unmount ·.1) =
      (s.dispatch fuel module event).map (·.1)) ∧
    ∀ a, ((Call.act a).run fuel s.mounted).map (s.unmount ·.1) = (s.act fuel a).map (·.1) := by
  refine ⟨fun _ _ _ => rfl, fun module event => ?_, fun a => ?_⟩
  · rw [Call.run, Site.dispatch, Option.map_map, Option.map_map]
    rfl
  · rw [Call.run, Site.act, Option.map_map, Option.map_map]
    rfl

/-! ## The world -/

/-- A disk that takes every change and keeps nothing of it. -/
instance : Disk Unit where
  make _ _ _ := .ok ()
  warn _ _ _ := ()

namespace World

variable {w : World E D} {w' : World E D'}

/-- Nothing differs but the disks. -/
def Alike (w : World E D) (w' : World E D') : Prop := w.onDisk () = w'.onDisk ()

variable [Disk D] [Disk D']

theorem run_onDisk (fuel : Nat) (w : World E D) (c : Call) :
    c.run fuel (w.onDisk ()) = (c.run fuel w).map fun r => (r.1.onDisk (), r.2) :=
  c.run_carried (φ := fun _ _ => ()) (fun _ _ _ _ => rfl) fuel w

/-- On two disks a call comes to the same, or on neither to anything. -/
theorem Alike.run (h : Alike w w') (fuel : Nat) (c : Call) :
    (c.run fuel w = none ∧ c.run fuel w' = none) ∨
    ∃ u u' r, c.run fuel w = some (u, r) ∧ c.run fuel w' = some (u', r) ∧ Alike u u' := by
  have hc := run_onDisk fuel w c
  rw [show w.onDisk () = w'.onDisk () from h, run_onDisk] at hc
  rcases hu : c.run fuel w with _ | ⟨u, r⟩ <;> rcases hu' : c.run fuel w' with _ | ⟨u', r'⟩ <;>
    rw [hu, hu'] at hc
  · exact .inl ⟨rfl, rfl⟩
  · cases hc
  · cases hc
  · obtain ⟨halike, rfl⟩ := Prod.mk.inj (Option.some.inj hc)
    exact .inr ⟨u, u', r', rfl, rfl, halike.symm⟩

end World

/-! ## The files -/

/-- Both trees have the watched directory at the same place, and differ only in what is in the
directories there for the files that tell of modules. -/
structure FileTree.Outside (root : String) (t t' : FileTree) : Prop where
  rootAt : ∀ place, t'.RootAt root place ↔ t.RootAt root place
  elsewhere : ∀ p, (∀ place, t.RootAt root place →
    ¬ place ++ [errorsDir] <+: p ∧ ¬ place ++ [logsDir] <+: p) → t'.node? p = t.node? p

namespace FileTree.Outside

variable {root : String} {t t' t'' : FileTree}

theorem refl (t : FileTree) : Outside root t t := ⟨fun _ => Iff.rfl, fun _ _ => rfl⟩

theorem symm (h : Outside root t t') : Outside root t' t :=
  ⟨fun place => (h.rootAt place).symm, fun p hp =>
    (h.elsewhere p fun place hr => hp place ((h.rootAt place).2 hr)).symm⟩

theorem of_rootAt {place : List String} (hroot : t.RootAt root place)
    (hroot' : t'.RootAt root place) (h : ∀ p, ¬ place ++ [errorsDir] <+: p →
      ¬ place ++ [logsDir] <+: p → t'.node? p = t.node? p) : Outside root t t' :=
  ⟨fun _ => ⟨fun hr => hr.unique hroot' ▸ hroot, fun hr => hr.unique hroot ▸ hroot'⟩,
    fun p hp => h p (hp place hroot).1 (hp place hroot).2⟩

theorem trans (h : Outside root t t') (h' : Outside root t' t'') : Outside root t t'' :=
  ⟨fun place => (h'.rootAt place).trans (h.rootAt place), fun p hp =>
    (h'.elsewhere p fun place hr => hp place ((h.rootAt place).1 hr)).trans (h.elsewhere p hp)⟩

/-- A file that lies elsewhere in both trees has the same content in both. -/
theorem content?_eq (h : Outside root t t') {place path found : List String}
    (hroot : t.walk true maxLinks [] (FilePath.names root) = .ok place)
    (hf : t.resolve path = .ok found) (hf' : t'.resolve path = .ok found)
    (he : ¬ place ++ [errorsDir] <+: found) (hl : ¬ place ++ [logsDir] <+: found) :
    t'.content? path = t.content? path := by
  have hnode := h.elsewhere found fun place' hr => by
    rw [Except.ok.inj (hr.walk.symm.trans hroot)]
    exact ⟨he, hl⟩
  simp only [content?, hf, hf', hnode]

/-- A change that is possible changes nothing elsewhere. -/
theorem of_make (htidy : Artifacts.Tidy t root) {module : String} (hm : FileName.IsEntry module)
    {write : ArtifactWrite} (h : make t root module write = .ok t') : Outside root t t' := by
  have hmade := made_of_make htidy hm h
  by_cases hroot : ∃ place, t.RootAt root place
  · obtain ⟨place, hroot⟩ := hroot
    have hc := hmade.confined hroot
    exact .of_rootAt hroot (hroot.mono hc.ways) hc.elsewhere
  · cases hmade with
    | log place hr => exact absurd ⟨place, hr⟩ hroot
    | error place hr => exact absurd ⟨place, hr⟩ hroot
    | absent ht =>
      rw [ht]
      exact refl t

end FileTree.Outside

namespace Drive

/-- The files on a drive changed only where changes were asked for. -/
structure Kept (d d' : Drive) : Prop where
  root : d'.root = d.root
  tidy : Artifacts.Tidy d'.files d.root
  files : Outside d.root d.files d'.files

theorem kept_put {d : Drive} (htidy : Artifacts.Tidy d.files d.root) {module : String}
    (hm : FileName.IsEntry module) (a : ArtifactWrite) : d.Kept (Disk.put d module a) := by
  rcases d.put_cases module a with ⟨files, hmake, hd⟩ | ⟨e, -, hd⟩ <;> rw [hd]
  · exact ⟨rfl, (made_of_make htidy hm hmake).tidy htidy, .of_make htidy hm hmake⟩
  · exact ⟨rfl, htidy, .refl _⟩

theorem kept_makeAll {d : Drive} (htidy : Artifacts.Tidy d.files d.root) {changes : Outbox}
    (hnames : ∀ c ∈ changes.toList, FileName.IsEntry c.1) : d.Kept (d.makeAll changes) := by
  unfold makeAll
  rw [← Array.foldl_toList]
  refine List.foldlRecOn _ _ (motive := d.Kept) ⟨rfl, htidy, .refl _⟩ fun d' h c hc => ?_
  have hput := kept_put (h.root ▸ h.tidy) (hnames c hc) c.2
  exact ⟨hput.root.trans h.root, h.root ▸ hput.tidy, h.files.trans (h.root ▸ hput.files)⟩

end Drive

namespace World

variable {w u w' : World E Drive}

/-- Modules are entries of the watched directory, and the directories for the files that tell of
them hold no links. -/
structure Kempt (w : World E Drive) : Prop where
  licensed : (w.onDisk (#[] : Outbox)).Licensed .entries
  rooted : w.disk.root = w.root
  tidy : Artifacts.Tidy w.disk.files w.root

/-- A call changes the files as it does when the changes are made after it. -/
theorem run_queued (fuel : Nat) (w : World E Drive) (c : Call) :
    c.run fuel w = (c.run fuel (w.onDisk (#[] : Outbox))).map fun r =>
      (r.1.onDisk (w.disk.makeAll r.1.disk), r.2) :=
  c.run_carried (Drive.carried_makeAll fun _ => w.disk) fuel (w.onDisk #[])

theorem turns_of_run {w w' : World E} (hw : w.Licensed .entries) {fuel : Nat} {c : Call}
    (hc : c.Within) {r : Reply} (h : c.run fuel w = some (w', r)) : Turns .entries w w' := by
  cases c with
  | reload module modified source =>
    cases h
    exact reload_turns hc
  | dispatch module event =>
    obtain ⟨⟨v, n⟩, hd, he⟩ := Option.map_eq_some_iff.1 h
    cases he
    exact (dispatch_moves (perform_moves fuel) hw hd).turns
  | act a =>
    obtain ⟨⟨v, answer⟩, hp, he⟩ := Option.map_eq_some_iff.1 h
    cases he
    exact (perform_moves fuel (L := .entries) trivial hw hp).turns

theorem Kempt.run (h : w.Kempt) {fuel : Nat} {c : Call} (hc : c.Within) {r : Reply}
    (hu : c.run fuel w = some (u, r)) :
    u.Kempt ∧ u.root = w.root ∧ Outside w.root w.disk.files u.disk.files := by
  rw [run_queued] at hu
  obtain ⟨⟨v, r'⟩, hv, he⟩ := Option.map_eq_some_iff.1 hu
  cases he
  have hturns := turns_of_run h.licensed hc hv
  have hroot : v.root = w.root := hturns.root
  have htidy : Artifacts.Tidy w.disk.files w.disk.root := h.rooted ▸ h.tidy
  have hkept := Drive.kept_makeAll htidy (hturns.named fun _ hm => (by cases hm))
  have hsettled : Passes .entries v (v.onDisk #[]) := .single (.settle v)
  refine ⟨⟨?_, ?_, ?_⟩, hroot, h.rooted ▸ hkept.files⟩
  · exact hsettled.licensed (hturns.passes.licensed h.licensed)
  · exact hkept.root.trans (h.rooted.trans hroot.symm)
  · exact (h.rooted.trans hroot.symm) ▸ hkept.tidy

/-! ## Calls in turn -/

/-- The same world, where the disk refuses these changes. -/
def refusing (w : World E Drive) (refuses : Refusals) : World E Drive :=
  w.onDisk { w.disk with refuses }

/-- Calls in turn, each with what the disk refuses meanwhile, and what they come to. -/
def callAll (fuel : Nat) :
    List (Refusals × Call) → World E Drive → Option (World E Drive × List Reply)
  | [], w => some (w, [])
  | (refuses, c) :: rest, w =>
    (c.run fuel (w.refusing refuses)).bind fun r =>
      (r.1.callAll fuel rest).map fun q => (q.1, r.2 :: q.2)

theorem callAll_of_none {fuel : Nat} {refuses : Refusals} {c : Call}
    (h : c.run fuel (w.refusing refuses) = none) (rest : List (Refusals × Call)) :
    w.callAll fuel ((refuses, c) :: rest) = none := by
  rw [callAll, h, Option.bind_none]

theorem callAll_of_some {fuel : Nat} {refuses : Refusals} {c : Call} {r : Reply}
    (h : c.run fuel (w.refusing refuses) = some (u, r)) (rest : List (Refusals × Call)) :
    w.callAll fuel ((refuses, c) :: rest) =
      (u.callAll fuel rest).map fun q => (q.1, r :: q.2) := by
  rw [callAll, h, Option.bind_some]

/-- Two worlds that are alike but for their disks come to the same by the same calls, whatever the
files are and the disks refuse: the same replies, and worlds that are alike again, with the same
surfaces, tables, notices, timers and records, the same callbacks having been called. And where the
files differ in the directories for the files that tell of modules only, which may be missing or no
directories but hold no links, they do so afterwards. -/
theorem artifacts_have_no_say (h : Alike w w') (fuel : Nat)
    (calls : List (Call × Refusals × Refusals)) :
    (w.callAll fuel (calls.map fun c => (c.2.1, c.1)) = none ∧
      w'.callAll fuel (calls.map fun c => (c.2.2, c.1)) = none) ∨
    ∃ u u' replies, w.callAll fuel (calls.map fun c => (c.2.1, c.1)) = some (u, replies) ∧
      w'.callAll fuel (calls.map fun c => (c.2.2, c.1)) = some (u', replies) ∧ Alike u u' ∧
      ((∀ c ∈ calls, c.1.Within) → w.Kempt → w'.Kempt →
        Outside w.root w.disk.files w'.disk.files →
        u.Kempt ∧ u'.Kempt ∧ Outside u.root u.disk.files u'.disk.files) := by
  induction calls generalizing w w' with
  | nil => exact .inr ⟨w, w', [], rfl, rfl, h, fun _ hk hk' ho => ⟨hk, hk', ho⟩⟩
  | cons call rest ih =>
    obtain ⟨c, refuses, refuses'⟩ := call
    rw [List.map_cons, List.map_cons]
    have halike : Alike (w.refusing refuses) (w'.refusing refuses') := h
    rcases halike.run fuel c with ⟨hn, hn'⟩ | ⟨u, u', r, hu, hu', halike⟩
    · exact .inl ⟨callAll_of_none hn _, callAll_of_none hn' _⟩
    rw [callAll_of_some hu, callAll_of_some hu']
    rcases ih halike with ⟨hn, hn'⟩ | ⟨v, v', replies, hv, hv', hv'', hfiles⟩
    · rw [hn, hn']
      exact .inl ⟨rfl, rfl⟩
    rw [hv, hv']
    refine .inr ⟨v, v', r :: replies, rfl, rfl, hv'', fun hw hk hk' ho => ?_⟩
    have hc : c.Within := hw _ List.mem_cons_self
    have hroots : w'.root = w.root := (congrArg World.root h).symm
    have hk₀ : (w.refusing refuses).Kempt := ⟨hk.licensed, hk.rooted, hk.tidy⟩
    have hk₀' : (w'.refusing refuses').Kempt := ⟨hk'.licensed, hk'.rooted, hk'.tidy⟩
    obtain ⟨hku, hroot, hou⟩ := hk₀.run hc hu
    obtain ⟨hku', -, hou'⟩ := hk₀'.run hc hu'
    have hou : Outside w.root w.disk.files u.disk.files := hou
    have hou' : Outside w.root w'.disk.files u'.disk.files := hroots ▸ hou'
    refine hfiles (fun c hm => hw c (List.mem_cons_of_mem _ hm)) hku hku' ?_
    rw [show u.root = w.root from hroot]
    exact (hou.symm.trans ho).trans hou'

end World

/-- The world that a site starts with, on a drive with these files. -/
def startOn (E : Engine) (root : String) (files : FileTree) : World E Drive :=
  (Site.start (E := E) root files none).mounted

theorem startOn_kempt {root : String} {files : FileTree} (htidy : Artifacts.Tidy files root) :
    (startOn E root files).Kempt :=
  ⟨Site.start_licensed root files none, rfl, htidy⟩

/-- A disk that cannot be written to. -/
def Refusals.readOnly : Refusals := fun _ module _ =>
  some (.artifact module "Read-only file system (os error 30)")

/-- A watched directory with a file where the error files should lie, and no logs. -/
def brokenFiles : FileTree :=
  (FileTree.empty.put ["world"] .dir).put ["world", errorsDir] (.file .empty ⟨1, 0⟩ true)

theorem brokenFiles_nodes {place : List String} {node : FileNode}
    (h : brokenFiles.node? place = some node) :
    place.length ≤ 2 ∧ ∀ target, node ≠ .link target := by
  simp only [brokenFiles, FileTree.node?_put (List.cons_ne_nil _ _)] at h
  split at h
  · rename_i hp
    cases h
    exact ⟨by simp [hp], fun _ => nofun⟩
  split at h
  · rename_i hp
    cases h
    exact ⟨by simp [hp], fun _ => nofun⟩
  cases place with
  | nil =>
    cases h
    exact ⟨Nat.zero_le _, fun _ => nofun⟩
  | cons => cases h

theorem brokenFiles_tidy : Artifacts.Tidy brokenFiles "world" := by
  have hroot : brokenFiles.RootAt "world" ["world"] := ⟨by decide +kernel, rfl⟩
  have tidy (dir : String) : TidyDir brokenFiles ["world"] dir := by
    refine ⟨fun target h => (brokenFiles_nodes h).2 target rfl,
      fun module target h => (brokenFiles_nodes h).2 target rfl, fun _ module => ?_⟩
    rcases h : brokenFiles.node? (["world"] ++ [dir, module]) with _ | node
    · rfl
    · exact absurd (brokenFiles_nodes h).1 (by simp)
  exact ⟨fun place h => h.unique hroot ▸ tidy _, fun place h => h.unique hroot ▸ tidy _⟩

theorem brokenFiles_outside : Outside "world" bareFiles brokenFiles := by
  have hroot : bareFiles.RootAt "world" ["world"] := ⟨by decide +kernel, rfl⟩
  have hroot' : brokenFiles.RootAt "world" ["world"] := ⟨by decide +kernel, rfl⟩
  refine .of_rootAt hroot hroot' fun p he hl => ?_
  have hne : p ≠ ["world", errorsDir] := fun h => he (h ▸ List.prefix_refl _)
  have hnl : p ≠ ["world", logsDir] := fun h => hl (h ▸ List.prefix_refl _)
  simp only [brokenFiles, bareFiles, FileTree.node?_put (List.cons_ne_nil _ _), if_neg hne,
    if_neg hnl]

/-- A module whose handler fails, and then one that does not load: where there is a file in the
place of the error files, and the disk is read-only for a while, all goes as it goes elsewhere,
though no error file tells of it. -/
theorem broken_disk_changes_nothing :
    ∃ (w w' u u' : World stumbler Drive) (replies : List Reply)
      (calls : List (Call × Refusals × Refusals)),
      w = startOn stumbler "world" bareFiles ∧ w' = startOn stumbler "world" brokenFiles ∧
      calls = [(.reload "a.lua" ⟨100, 0⟩ "late", .never, .readOnly),
        (.act (.emit Site.tickEvent), .never, .never),
        (.reload "b.lua" ⟨100, 0⟩ "oops", .never, .never)] ∧
      w.Alike w' ∧ (∀ c ∈ calls, c.1.Within) ∧ w.Kempt ∧ w'.Kempt ∧
      Outside "world" w.disk.files w'.disk.files ∧
      w.callAll 5 (calls.map fun c => (c.2.1, c.1)) = some (u, replies) ∧
      w'.callAll 5 (calls.map fun c => (c.2.2, c.1)) = some (u', replies) ∧ u.Alike u' ∧
      Outside u.root u.disk.files u'.disk.files ∧
      (errorContent? u.disk.files "world" "b.lua").isSome = true ∧
      (errorContent? u'.disk.files "world" "b.lua").isSome = false := by
  let w := startOn stumbler "world" bareFiles
  let w' := startOn stumbler "world" brokenFiles
  let calls : List (Call × Refusals × Refusals) :=
    [(.reload "a.lua" ⟨100, 0⟩ "late", .never, .readOnly),
      (.act (.emit Site.tickEvent), .never, .never),
      (.reload "b.lua" ⟨100, 0⟩ "oops", .never, .never)]
  have ha : FileName.IsEntry "a.lua" := ⟨by decide, by decide, by decide, by decide⟩
  have hb : FileName.IsEntry "b.lua" := ⟨by decide, by decide, by decide, by decide⟩
  have hcalls : ∀ c ∈ calls, c.1.Within := by simp [calls, Call.Within, ha, hb]
  have halike : w.Alike w' := rfl
  have hk : w.Kempt := startOn_kempt bareFiles_tidy
  have hk' : w'.Kempt := startOn_kempt brokenFiles_tidy
  have hout : (w.callAll 5 (calls.map fun c => (c.2.1, c.1))).map (fun r =>
      (errorContent? r.1.disk.files "world" "b.lua").isSome) = some true := by decide +kernel
  have hout' : (w'.callAll 5 (calls.map fun c => (c.2.2, c.1))).map (fun r =>
      (errorContent? r.1.disk.files "world" "b.lua").isSome) = some false := by decide +kernel
  rcases artifacts_have_no_say halike 5 calls with
    ⟨hnone, -⟩ | ⟨u, u', replies, hu, hu', h, hfiles⟩
  · rw [hnone] at hout
    cases hout
  obtain ⟨-, -, ho⟩ := hfiles hcalls hk hk' brokenFiles_outside
  rw [hu] at hout
  rw [hu'] at hout'
  exact ⟨w, w', u, u', replies, calls, rfl, rfl, rfl, halike, hcalls, hk, hk',
    brokenFiles_outside, hu, hu', h, ho, Option.some.inj hout, Option.some.inj hout'⟩

/-- A module, and nothing yet that tells of modules. -/
def loneModule : FileTree := bareFiles.put ["world", "b.lua"] (.file "late".toUTF8 ⟨100, 0⟩ true)

/-- The same, but for a link among the error files that leads to the module. -/
def linkedModule : FileTree := loneModule.put ["world", errorsDir, "a.lua"] (.link "../b.lua")

theorem linkedModule_outside : Outside "world" loneModule linkedModule := by
  have hroot : loneModule.RootAt "world" ["world"] := ⟨by decide +kernel, rfl⟩
  have hroot' : linkedModule.RootAt "world" ["world"] := ⟨by decide +kernel, rfl⟩
  refine .of_rootAt hroot hroot' fun p he _ => ?_
  have hne : p ≠ ["world", errorsDir, "a.lua"] := fun h =>
    he (h ▸ List.prefix_append ["world", errorsDir] ["a.lua"])
  rw [linkedModule, FileTree.node?_put (List.cons_ne_nil _ _), if_neg hne]

/-- A watched directory without a place for the error files. -/
def noErrors : FileTree := (FileTree.empty.put ["world"] .dir).put ["world", logsDir] .dir

theorem noErrors_outside : Outside "world" bareFiles noErrors := by
  have hroot : bareFiles.RootAt "world" ["world"] := ⟨by decide +kernel, rfl⟩
  have hroot' : noErrors.RootAt "world" ["world"] := ⟨by decide +kernel, rfl⟩
  refine .of_rootAt hroot hroot' fun p he _ => ?_
  have hne : p ≠ ["world", errorsDir] := fun h => he (h ▸ List.prefix_refl _)
  simp only [noErrors, bareFiles, FileTree.node?_put (List.cons_ne_nil _ _), if_neg hne]

/-- On trees that differ only in the directories for the files that tell of modules, a load comes to
the same, but it leaves them with a difference elsewhere. -/
def Leaks (files files' : FileTree) (module : String) : Prop :=
  ∃ (w w' u u' : World stumbler Drive) (r : Reply),
    w = startOn stumbler "world" files ∧ w' = startOn stumbler "world" files' ∧ w.Alike w' ∧
    Outside "world" w.disk.files w'.disk.files ∧
    (Call.reload module ⟨100, 0⟩ "oops").run 5 w = some (u, r) ∧
    (Call.reload module ⟨100, 0⟩ "oops").run 5 w' = some (u', r) ∧
    ¬ Outside "world" u.disk.files u'.disk.files

theorem leaks_of_content {files files' : FileTree} {module : String}
    (ho : Outside "world" files files') {u u' : World stumbler Drive}
    (hu : (startOn stumbler "world" files).reload module ⟨100, 0⟩ "oops" = u)
    (hu' : (startOn stumbler "world" files').reload module ⟨100, 0⟩ "oops" = u')
    (hstate : u.stateOf module = .errored) (hstate' : u'.stateOf module = .errored)
    (place path : List String)
    (hroot : u.disk.files.walk true FileTree.maxLinks [] (FilePath.names "world") = .ok place)
    (hp : u.disk.files.resolve path = .ok path) (hp' : u'.disk.files.resolve path = .ok path)
    (he : ¬ place ++ [errorsDir] <+: path) (hl : ¬ place ++ [logsDir] <+: path)
    (hne : u'.disk.files.content? path ≠ u.disk.files.content? path) :
    Leaks files files' module := by
  refine ⟨_, _, u, u', .state .errored, rfl, rfl, rfl, ho, ?_, ?_,
    fun h => hne (h.content?_eq hroot hp hp' he hl)⟩
  · rw [← hstate, ← hu]
    rfl
  · rw [← hstate', ← hu']
    rfl

/-- Where a link among the error files leads to a module, what another module failed of is written
over it, and where the name of a module leads out of the directory of the error files, what it
failed of is written elsewhere if there is that directory. -/
theorem error_written_elsewhere :
    (FileName.IsEntry "a.lua" ∧ Leaks loneModule linkedModule "a.lua") ∧
      ¬ FileName.IsEntry "../b.lua" ∧ Leaks bareFiles noErrors "../b.lua" := by
  refine ⟨⟨⟨by decide, by decide, by decide, by decide⟩, ?_⟩, fun h => ?_, ?_⟩
  · exact leaks_of_content linkedModule_outside rfl rfl (by decide +kernel) (by decide +kernel)
      ["world"] ["world", "b.lua"] (by decide +kernel) (by decide +kernel) (by decide +kernel)
      (by decide) (by decide) (by decide +kernel)
  · exact h.no_slash (by decide)
  · exact leaks_of_content noErrors_outside rfl rfl (by decide +kernel) (by decide +kernel)
      ["world"] ["world", "b.lua"] (by decide +kernel) (by decide +kernel) (by decide +kernel)
      (by decide) (by decide) (by decide +kernel)

end LiveModules
