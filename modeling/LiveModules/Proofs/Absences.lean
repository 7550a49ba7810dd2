import LiveModules.Proofs.Findings
import LiveModules.Proofs.Isolation
import LiveModules.Proofs.Silence

/-!
# A scan without a file that fails

Two scans are laid side by side, that of a site and that of the site without one of its files. All
along, their trees differ at that file and at what tells of its failure only (`Lacks`), and their
worlds in what was said (`Twins`).

What is found under any other name is the same in both, as long as no way leads over those two files
(`Secluded`). So every other name is dealt with alike (`Twins.visit`), and the failure makes one
notice more (`scan_spares`).
-/

namespace LiveModules

open World Artifacts FileTree

attribute [local irreducible] lastOf

namespace Artifacts

variable {t t' : FileTree} {root dir module name : String} {place : List String}

/-- `t'` is `t` without an entry of the root, and what tells of its failure may differ. -/
structure Lacks (t t' : FileTree) (place : List String) (name : String) : Prop where
  gone : t'.node? (place ++ [name]) = none
  elsewhere : ∀ p, p ≠ place ++ [name] → p ≠ place ++ [errorsDir, name] → t'.node? p = t.node? p
  told : t'.node? (place ++ [errorsDir, name]) = t.node? (place ++ [errorsDir, name]) ∨
    t.node? (place ++ [errorsDir]) = some .dir ∧ IsLeaf (t.node? (place ++ [errorsDir, name])) ∧
      IsLeaf (t'.node? (place ++ [errorsDir, name]))
  stamp : t'.stamp = t.stamp

namespace Lacks

theorem home (h : Lacks t t' place name) (hn : ¬ IsHome name) (hd : IsHome dir) :
    t'.node? (place ++ [dir]) = t.node? (place ++ [dir]) := by
  refine h.elsewhere _ (fun he => ?_) (by simp)
  have he : dir = name := by simpa using he
  exact hn (he ▸ hd)

/-- Nothing but the file of the entry itself is told of differently. -/
theorem artifact (h : Lacks t t' place name) (hne : ¬ (dir = errorsDir ∧ module = name)) :
    t'.node? (place ++ [dir, module]) = t.node? (place ++ [dir, module]) :=
  h.elsewhere _ (by simp) (by simpa using hne)

theorem tidyDir (h : Lacks t t' place name) (hn : ¬ IsHome name) (hd : IsHome dir)
    (htidy : TidyDir t place dir) : TidyDir t' place dir := by
  have hcase (module : String) :
      t'.node? (place ++ [dir, module]) = t.node? (place ++ [dir, module]) ∨
        t.node? (place ++ [dir]) = some .dir ∧ IsLeaf (t'.node? (place ++ [dir, module])) := by
    by_cases hne : dir = errorsDir ∧ module = name
    · obtain ⟨rfl, rfl⟩ := hne
      exact h.told.imp id fun h => ⟨h.1, h.2.2⟩
    · exact .inl (h.artifact hne)
  refine ⟨fun target => ?_, fun module target hl => ?_, fun hnone module => ?_⟩
  · rw [h.home hn hd]
    exact htidy.no_link target
  · rcases hcase module with he | ⟨-, hleaf⟩
    · exact htidy.no_link_in module target (he ▸ hl)
    · obtain ⟨_, _, _, hf⟩ := hleaf _ hl
      cases hf
  · rw [h.home hn hd] at hnone
    rcases hcase module with he | ⟨hdir, -⟩
    · rw [he, htidy.none_in hnone]
    · rw [hdir] at hnone
      cases hnone

theorem tidy (h : Lacks t t' place name) (hn : ¬ IsHome name) (hroot : t.RootAt root place)
    (hroot' : t'.RootAt root place) (htidy : Tidy t root) : Tidy t' root := by
  refine ⟨fun place' hr => ?_, fun place' hr => ?_⟩ <;> cases hr.unique hroot'
  · exact h.tidyDir hn (.inl rfl) (htidy.errors place hroot)
  · exact h.tidyDir hn (.inr rfl) (htidy.logs place hroot)

section Changes

variable (h : Lacks t t' place name) (hn : ¬ IsHome name) (hroot : t.RootAt root place)
  (hroot' : t'.RootAt root place) (htidy : Tidy t root)

include h hn hroot hroot' htidy

/-- The files of modules have the same places. -/
theorem place?_eq (hd : IsHome dir) (hm : FileName.IsEntry module) :
    place? t' root dir module = place? t root dir module := by
  refine Option.ext fun found => ?_
  rw [place?_eq_some_iff (h.tidy hn hroot hroot' htidy) hd hm, place?_eq_some_iff htidy hd hm]
  refine and_congr_right fun _ => and_congr_right fun _ => exists_congr fun place' => ?_
  constructor
  · rintro ⟨hr, hnode, hf⟩
    cases hr.unique hroot'
    exact ⟨hroot, h.home hn hd ▸ hnode, hf⟩
  · rintro ⟨hr, hnode, hf⟩
    cases hr.unique hroot
    exact ⟨hroot', (h.home hn hd).symm ▸ hnode, hf⟩

omit h hn hroot' in
/-- Changes of other modules are at places of their own. -/
theorem foldl_editAt_eq {changes : List (String × ArtifactWrite)} {p : List String}
    (hc : ∀ change ∈ changes, FileName.IsEntry change.1)
    (hp : ∀ change ∈ changes, p ≠ place ++ [change.2.dir, change.1]) (node : Option FileNode) :
    changes.foldl (editAt t root p) node = node := by
  refine foldl_editAt_of_ne (fun change hm he => ?_) node
  obtain ⟨-, -, place', hr, -, hf⟩ :=
    (place?_eq_some_iff htidy (isHome_dir _) (hc change hm)).1 he
  cases hr.unique hroot
  exact hp change hm hf

theorem editAll {changes : List (String × ArtifactWrite)}
    (hc : ∀ change ∈ changes, FileName.IsEntry change.1)
    (hother : ∀ change ∈ changes, change.1 ≠ name) :
    Lacks (editAll root t changes) (editAll root t' changes) place name := by
  have htidy' := h.tidy hn hroot hroot' htidy
  have hnode (p : List String) (hp : p ≠ []) :
      (Artifacts.editAll root t changes).node? p = changes.foldl (editAt t root p) (t.node? p) := by
    rw [node?_of_ne_nil hp, node?_of_ne_nil hp, find?_editAll p htidy hc]
  have hnode' (p : List String) (hp : p ≠ []) : (Artifacts.editAll root t' changes).node? p =
      changes.foldl (editAt t root p) (t'.node? p) := by
    rw [node?_of_ne_nil hp, node?_of_ne_nil hp, find?_editAll p htidy' hc]
    refine List.foldl_ext _ _ _ fun node change hm => ?_
    unfold editAt
    rw [h.place?_eq hn hroot hroot' htidy (isHome_dir _) (hc change hm), h.stamp]
  have hentry : ∀ change ∈ changes, place ++ [name] ≠ place ++ [change.2.dir, change.1] := by simp
  have htold : ∀ change ∈ changes,
      place ++ [errorsDir, name] ≠ place ++ [change.2.dir, change.1] := by
    intro change hm he
    have he : errorsDir = change.2.dir ∧ name = change.1 := by simpa using he
    exact hother change hm he.2.symm
  refine ⟨?_, fun p hp hp' => ?_, ?_, ?_⟩
  · rw [hnode' _ (by simp), foldl_editAt_eq hroot htidy hc hentry, h.gone]
  · by_cases hne : p = []
    · rw [hne]
      rfl
    · rw [hnode p hne, hnode' p hne, h.elsewhere p hp hp']
  · rw [hnode _ (by simp), hnode' _ (by simp), hnode _ (by simp),
      foldl_editAt_eq hroot htidy hc htold, foldl_editAt_eq hroot htidy hc htold,
      foldl_editAt_eq hroot htidy hc (by simp)]
    exact h.told
  · rw [editAll_stamp, editAll_stamp, h.stamp]

omit hn hroot' in
/-- What tells of the failure of the entry is written. -/
theorem writeError (hentry : FileName.IsEntry name) (detail : String) :
    Lacks (edited root t (name, .writeError detail)) t' place name := by
  have hchange : FileName.IsEntry (name, ArtifactWrite.writeError detail).1 := hentry
  have hnode (p : List String) (hp : p ≠ []) :
      (edited root t (name, .writeError detail)).node? p =
        if place? t root errorsDir name = some p then
          editNode (ArtifactWrite.writeError detail).content t.stamp (t.node? p)
        else t.node? p := by
    rw [node?_of_ne_nil hp, node?_of_ne_nil hp]
    exact find?_edited htidy hchange p
  have hplace (p : List String) : place? t root errorsDir name = some p →
      t.node? (place ++ [errorsDir]) = some .dir ∧ p = place ++ [errorsDir, name] := by
    intro hp
    obtain ⟨-, -, place', hr, hdir, hf⟩ := (place?_eq_some_iff htidy (.inl rfl) hentry).1 hp
    cases hr.unique hroot
    exact ⟨hdir, hf⟩
  refine ⟨h.gone, fun p hp hp' => ?_, ?_, ?_⟩
  · by_cases hne : p = []
    · rw [hne]
      rfl
    · rw [hnode p hne, if_neg fun he => hp' (hplace p he).2, h.elsewhere p hp hp']
  · have hhome : (edited root t (name, .writeError detail)).node? (place ++ [errorsDir]) =
        t.node? (place ++ [errorsDir]) := by
      rw [hnode _ (by simp), if_neg fun he => by simpa using (hplace _ he).2]
    rw [hnode _ (by simp), hhome]
    split
    · rename_i hp
      -- a directory in the place of the file stays, and is in both trees
      by_cases hleaf : IsLeaf (t.node? (place ++ [errorsDir, name]))
      · exact .inr ⟨(hplace _ hp).1, editNode_isLeaf hleaf,
          h.told.elim (fun he => he ▸ hleaf) fun h => h.2.2⟩
      · rw [editNode_of_not_isLeaf hleaf]
        exact .inl (h.told.resolve_right fun h => hleaf h.2.1)
    · exact h.told
  · rw [edited_stamp, h.stamp]

end Changes

theorem put (h : Lacks t t' place name) (hn : ¬ IsHome name) (hd : IsHome dir) :
    Lacks (t.put (place ++ [dir]) .dir) (t'.put (place ++ [dir]) .dir) place name := by
  have hdir : place ++ [dir] ≠ [] := by simp
  have hname : place ++ [name] ≠ place ++ [dir] := by
    intro he
    have he : name = dir := by simpa using he
    exact hn (he ▸ hd)
  refine ⟨?_, fun p hp hp' => ?_, ?_, h.stamp⟩
  · rw [node?_put hdir, if_neg hname, h.gone]
  · rw [node?_put hdir, node?_put hdir, h.elsewhere p hp hp']
  · simp only [node?_put hdir, List.append_cancel_left_eq, List.cons.injEq, reduceCtorEq, and_false,
      if_false]
    refine h.told.imp id fun ⟨herrors, hleaf⟩ => ⟨?_, hleaf⟩
    split
    · rfl
    · exact herrors

end Lacks

theorem isDir_iff {path found : List String} (hr : t.resolve path = .ok found) :
    t.isDir path = true ↔ t.node? found = some .dir := by
  rcases hn : t.node? found with _ | ⟨_, _, _⟩ | _ | _ <;>
    simp [isDir, stat, hr, hn, bind, Except.bind, pure, Except.pure, throw, throwThe,
      MonadExceptOf.throw]

/-- Makes one of the two directories if it is not there. -/
def ensureHome (t : FileTree) (root dir : String) : Except HostError FileTree :=
  changeAt (joinPath root dir) fun p => if t.isDir p then .ok t else t.makeDirs p

theorem ensureHome_eq_ok_iff {t₁ : FileTree} (hroot : t.RootAt root place) (hd : IsHome dir)
    (hl : ∀ target, t.node? (place ++ [dir]) ≠ some (.link target)) :
    ensureHome t root dir = .ok t₁ ↔ (∃ path, FilePath.ofText (joinPath root dir) = .ok path) ∧
      (t.node? (place ++ [dir]) = some .dir ∧ t₁ = t ∨
        t.node? (place ++ [dir]) = none ∧ t₁ = t.put (place ++ [dir]) .dir) := by
  unfold ensureHome changeAt
  rcases hp : FilePath.ofText (joinPath root dir) with e | path
  · exact ⟨nofun, fun h => by simp at h⟩
  · have hres := hroot.resolve_entry hd.isEntry hl
    rw [if_neg (by simp [hd.not_tooLong]), ← FilePath.ofText_joinPath hd.isEntry hp] at hres
    have hmake := makeDirs_below hroot hd.isEntry hd.not_tooLong
    rw [← FilePath.ofText_joinPath hd.isEntry hp] at hmake
    have hisDir := isDir_iff (t := t) hres
    show ((if t.isDir path = true then Except.ok t else t.makeDirs path).mapError _ = .ok t₁) ↔ _
    rcases hn : t.node? (place ++ [dir]) with _ | node
    · rw [if_neg (by rw [hisDir, hn]; nofun), hmake, hn]
      constructor
      · intro h
        cases h
        exact ⟨⟨path, rfl⟩, .inr ⟨rfl, rfl⟩⟩
      · rintro ⟨-, ⟨h, -⟩ | ⟨-, rfl⟩⟩
        · cases h
        · rfl
    · rw [hmake, hn]
      by_cases hdir : t.isDir path = true
      · rw [if_pos hdir]
        rw [hisDir, hn] at hdir
        constructor
        · intro h
          cases h
          exact ⟨⟨path, rfl⟩, .inl ⟨hdir, rfl⟩⟩
        · rintro ⟨-, ⟨-, rfl⟩ | ⟨h, -⟩⟩
          · rfl
          · cases h
      · simp only [hdir, Option.isNone_some, Bool.false_eq_true, if_false]
        rw [hisDir, hn] at hdir
        constructor
        · intro h
          cases h
        · rintro ⟨-, ⟨h, -⟩ | ⟨h, -⟩⟩
          · exact absurd h hdir
          · cases h

theorem ensureDirs_eq_iff {t₂ : FileTree} : ensureDirs t root = (t₂, none) ↔
    ∃ t₁, ensureHome t root errorsDir = .ok t₁ ∧ ensureHome t₁ root logsDir = .ok t₂ := by
  simp only [ensureDirs, ensureDirs.make, ensureHome]
  rcases changeAt (joinPath root errorsDir) fun p => if t.isDir p then .ok t else t.makeDirs p
    with e | t₁
  · simp
  · rcases h : changeAt (joinPath root logsDir) fun p =>
        if t₁.isDir p then .ok t₁ else t₁.makeDirs p with e | t₂' <;> simp [h]

namespace Lacks

variable (h : Lacks t t' place name) (hn : ¬ IsHome name) (hroot : t.RootAt root place)
  (hroot' : t'.RootAt root place) (htidy : Tidy t root)

include h hn hroot hroot' htidy

theorem ensureHome {t₁ : FileTree} (hd : IsHome dir) (h₁ : ensureHome t root dir = .ok t₁) :
    ∃ t₁', Artifacts.ensureHome t' root dir = .ok t₁' ∧ Lacks t₁ t₁' place name := by
  have htidy' := h.tidy hn hroot hroot' htidy
  obtain ⟨hpath, hdir⟩ := (ensureHome_eq_ok_iff hroot hd (hd.tidy htidy hroot).no_link).1 h₁
  have hiff (t₁' : FileTree) : Artifacts.ensureHome t' root dir = .ok t₁' ↔ _ :=
    ensureHome_eq_ok_iff hroot' hd (hd.tidy htidy' hroot').no_link
  simp only [h.home hn hd] at hiff
  rcases hdir with ⟨hdir, rfl⟩ | ⟨hnone, rfl⟩
  · exact ⟨t', (hiff t').2 ⟨hpath, .inl ⟨hdir, rfl⟩⟩, h⟩
  · exact ⟨_, (hiff _).2 ⟨hpath, .inr ⟨hnone, rfl⟩⟩, h.put hn hd⟩

theorem ensureDirs {t₂ : FileTree} (h₂ : ensureDirs t root = (t₂, none)) :
    ∃ t₂', Artifacts.ensureDirs t' root = (t₂', none) ∧ Lacks t₂ t₂' place name := by
  obtain ⟨t₁, h₁, h₂⟩ := ensureDirs_eq_iff.1 h₂
  obtain ⟨t₁', h₁', hl⟩ := h.ensureHome hn hroot hroot' htidy (.inl rfl) h₁
  have hdir := dirEnsured_of_artifactDir hroot (.inl rfl) h₁
  have hdir' := dirEnsured_of_artifactDir hroot' (.inl rfl) h₁'
  obtain ⟨t₂', h₂', hl'⟩ := hl.ensureHome hn (hroot.mono hdir.extends) (hroot'.mono hdir'.extends)
    (hdir.tidy hroot htidy) (.inr rfl) h₂
  exact ⟨t₂', ensureDirs_eq_iff.2 ⟨t₁', h₁', h₂'⟩, hl'⟩

end Lacks

end Artifacts

namespace Site

variable {E : Engine} {s t t' : Site E} {place : List String} {name other : String}

/-- The site without an entry of the directory. -/
def without (s : Site E) (place : List String) (name : String) : Site E :=
  { s with files := { s.files with nodes := s.files.nodes.erase (place ++ [name]) } }

/-- Another entry of the directory that can hold a module. -/
def Beside (s : Site E) (place : List String) (name other : String) : Prop :=
  other ≠ name ∧ s.Holds other ∧ ∃ node, s.files.node? (place ++ [other]) = some node

/-- No way that a scan takes leads over the entry or over the file that tells of its failure, but
the ways to these files themselves. -/
structure Secluded (s : Site E) (place : List String) (name : String) : Prop where
  holds : s.Holds name
  rootAt : s.files.RootAt s.world.root place
  tidy : Tidy s.files s.world.root
  entry : FileName.IsEntry name ∧ ∀ other, s.Beside place name other → FileName.IsEntry other
  ways : ∀ files files', Confined s.files files place → Tidy files s.world.root →
    Lacks files files' place name → files'.RootAt s.world.root place ∧
      ∀ other, s.Beside place name other → ∀ path, FilePath.ofText (s.pathOf other) = .ok path →
        files'.resolve path = files.resolve path ∧ ∀ found, files.resolve path = .ok found →
          found ≠ place ++ [name] ∧ found ≠ place ++ [errorsDir, name]

theorem Secluded.not_isHome (hs : s.Secluded place name) : ¬ IsHome name := by
  have he := hs.holds.2
  rintro (rfl | rfl)
  · rw [not_eligible_errorsDir] at he
    cases he
  · rw [not_eligible_logsDir] at he
    cases he

/-- Where no entry is a link, a file is secluded. -/
theorem secluded_of_plain (hroot : s.files.RootAt s.world.root place)
    (hplain : s.files.Plain s.world.root) (hn : s.Holds name) (he : FileName.IsEntry name)
    (hleaf : IsLeaf (s.files.node? (place ++ [name]))) : s.Secluded place name := by
  refine ⟨hn, hroot, hplain.tidy, ⟨he, ?_⟩, fun files files' hc htidy hl => ?_⟩
  · rintro other ⟨-, -, node, hnode⟩
    exact (hplain.entries place hroot other node hnode).1
  have hroot₁ := hroot.mono hc.ways
  have hroot' : files'.RootAt s.world.root place := by
    refine hroot₁.mono fun p node hfile hp => ?_
    by_cases hname : p = place ++ [name]
    · rw [hname, node?_of_confined hc hn] at hp
      obtain ⟨_, _, _, rfl⟩ := hleaf node hp
      exact absurd rfl (hfile _ _ _)
    by_cases htold : p = place ++ [errorsDir, name]
    · rw [htold] at hp ⊢
      rcases hl.told with he | ⟨-, hleaf', -⟩
      · rw [he, hp]
      · obtain ⟨_, _, _, rfl⟩ := hleaf' node hp
        exact absurd rfl (hfile _ _ _)
    · rw [hl.elsewhere p hname htold, hp]
  refine ⟨hroot', ?_⟩
  rintro other ⟨hne, hother, node, hnode⟩ path hp
  obtain ⟨hentry, hlink⟩ := hplain.entries place hroot other node hnode
  have hsame : files.node? (place ++ [other]) = some node :=
    (node?_of_confined hc hother).trans hnode
  have hsame' : files'.node? (place ++ [other]) = some node :=
    (hl.elsewhere _ (by simpa using hne) (by simp)).trans hsame
  rw [FilePath.ofText_joinPath hentry hp,
    hroot₁.resolve_entry hentry (by simpa [hsame] using hlink),
    hroot'.resolve_entry hentry (by simpa [hsame'] using hlink)]
  refine ⟨rfl, fun found hf => ?_⟩
  split at hf
  · cases hf
  · cases hf
    exact ⟨by simpa using hne, by simp⟩

theorem settle_extension (s : Site E) : s.settle.extension = s.extension :=
  settle_keeps (P := fun u => u.extension = s.extension) rfl fun u change _ h => by
    rcases u.makeChange_cases change with ⟨files, -, hu⟩ | ⟨e, hu⟩ <;>
    · rw [hu]
      exact h

/-- `t` and `t'` come of a site and of the site without the entry. -/
structure Twins (s : Site E) (place : List String) (name : String) (t t' : Site E) : Prop where
  kept : FilesKept place s t
  lacks : Lacks t.files t'.files place name
  extension : t'.extension = t.extension
  hush : t'.world.hush = t.world.hush
  settled : t.world.disk = #[]

namespace Twins

variable (h : Twins s place name t t') (hs : s.Secluded place name)

include h in
theorem root : t'.world.root = s.world.root :=
  (congrArg World.root h.hush).trans h.kept.rooted

include h in
theorem modified? (other : String) : t'.world.modified? other = t.world.modified? other :=
  congrArg (fun w => (w.records.find? other).map Record.modified) h.hush

include h hs

theorem rootAt : t.files.RootAt s.world.root place :=
  h.kept.rooted ▸ h.kept.rootAt hs.rootAt

omit hs in
theorem tidy : Tidy t.files s.world.root := h.kept.rooted ▸ h.kept.tidy

theorem rootAt' : t'.files.RootAt s.world.root place :=
  (hs.ways _ _ h.kept.files h.tidy h.lacks).1

theorem look (hb : s.Beside place name other) :
    t'.stat other = t.stat other ∧ t'.readText other = t.readText other := by
  have hpath : t.pathOf other = s.pathOf other := by rw [pathOf, pathOf, h.kept.rooted]
  have hpath' : t'.pathOf other = s.pathOf other := by rw [pathOf, pathOf, h.root]
  unfold stat readText
  rw [hpath, hpath']
  rcases hp : FilePath.ofText (s.pathOf other) with e | path
  · exact ⟨rfl, rfl⟩
  obtain ⟨-, hways⟩ := hs.ways _ _ h.kept.files h.tidy h.lacks
  obtain ⟨hsame, hother⟩ := hways other hb path hp
  exact look_congr hsame fun found hf =>
    h.lacks.elsewhere found (hother found hf).1 (hother found hf).2

/-- The same changes are made of the files of another module. -/
theorem settle (hb : s.Beside place name other) (writes : List ArtifactWrite) {w w' : World E}
    (hk : FilesKept place t { t with world := w }.settle) (hroot : w.root = t.world.root)
    (hw : w'.hush = w.hush) (ho : w.disk.toList = writes.map (Prod.mk other)) :
    Twins s place name { t with world := w }.settle { t' with world := w' }.settle := by
  have he := hs.entry.2 other hb
  have hdisk : w'.disk = w.disk := (congrArg World.disk hw :)
  have hroot' : w'.root = w.root := (congrArg World.root hw :)
  refine ⟨h.kept.trans hk, ?_, ?_, ?_, settle_disk _⟩
  · rw [settle_files, settle_files]
    dsimp only
    rw [hdisk, ho, hroot', hroot, h.kept.rooted]
    refine h.lacks.editAll hs.not_isHome (h.rootAt hs) (h.rootAt' hs) h.tidy ?_ ?_
    · exact isEntry_writes he _
    · intro change hc
      obtain ⟨write, -, rfl⟩ := List.mem_map.1 hc
      exact hb.1
  · rw [settle_extension, settle_extension]
    exact h.extension
  · rw [settle_hush, settle_hush]
    exact congrArg (fun w => { w with disk := #[] }) hw

theorem reload (hb : s.Beside place name other) (modified : FileTime) (source : String) :
    Twins s place name (t.reload other modified source) (t'.reload other modified source) := by
  have he := hs.entry.2 other hb
  rw [reload_eq, reload_eq]
  refine h.settle hs hb (E.load other source).writes ?_ ?_
    ((World.reload_deaf other modified source).congr h.hush) ?_
  · exact settle_kept (World.reload_turns he) h.settled (h.kept.rootAt hs.rootAt) h.kept.tidy
  · obtain ⟨_, _, _, _, _, _, _, _, hf⟩ := t.world.reload_frame other modified source
    rw [hf]
  · rw [World.reload_disk, h.settled, List.nil_append]

theorem readFailed (hb : s.Beside place name other) (e : FileError) :
    Twins s place name (t.readFailed other e) (t'.readFailed other e) := by
  have he := hs.entry.2 other hb
  rw [readFailed_eq, readFailed_eq]
  refine h.settle hs hb [.writeError (HostError.moduleRead other e.message).message] ?_
    rfl ((World.readFailed_deaf other e.message).congr h.hush) ?_
  · exact settle_kept (World.readFailed_turns he) h.settled (h.kept.rootAt hs.rootAt) h.kept.tidy
  · show (t.world.disk.push _).toList = _
    rw [h.settled]
    rfl

/-- Another name is looked at with the same outcome, and the same is said of it. -/
theorem visit (hb : s.Beside place name other) :
    Twins s place name (t.visit other).1 (t'.visit other).1 ∧
      (t'.visit other).2 = (t.visit other).2 ∧
      ∃ ns, World.Adds ns t.world (t.visit other).1.world ∧
        World.Adds ns t'.world (t'.visit other).1.world := by
  obtain ⟨hstat, hread⟩ := h.look hs hb
  unfold Site.visit
  rw [hstat]
  rcases t.stat other with e | modified | _
  · exact ⟨h.readFailed hs hb e, rfl, _, readFailed_adds .., readFailed_adds ..⟩
  · have hneeds : t'.world.needsReload other modified = t.world.needsReload other modified := by
      rw [Bool.eq_iff_iff, World.needsReload_iff, World.needsReload_iff, h.modified?]
    dsimp only
    rw [hneeds]
    split
    · unfold readAndReload
      rw [hread]
      rcases t.readText other with e | source
      · exact ⟨h.readFailed hs hb e, rfl, _, readFailed_adds .., readFailed_adds ..⟩
      · have ht := h.reload hs hb modified source
        have hstate : (t'.reload other modified source).world.stateOf other =
            (t.reload other modified source).world.stateOf other :=
          congrArg (fun w => ((w.records.find? other).map Record.state).getD .unloaded) ht.hush
        dsimp only
        rw [hstate]
        exact ⟨ht, rfl, _, reload_adds .., reload_adds ..⟩
    · exact ⟨h, rfl, [], .of_eq rfl, .of_eq rfl⟩
  · exact ⟨h, rfl, [], .of_eq rfl, .of_eq rfl⟩

omit h in
theorem visitAll : ∀ {names : List String} {t t' : Site E}, Twins s place name t t' →
    (∀ other ∈ names, s.Beside place name other) →
      Twins s place name (t.visitAll names).1 (t'.visitAll names).1 ∧
        (t'.visitAll names).2 = (t.visitAll names).2 ∧
        ∃ ns, World.Adds ns t.world (t.visitAll names).1.world ∧
          World.Adds ns t'.world (t'.visitAll names).1.world
  | [], _, _, h, _ => ⟨h, rfl, [], .of_eq rfl, .of_eq rfl⟩
  | n :: rest, t, t', h, hb => by
    obtain ⟨hv, hsame, ns, hns, hns'⟩ := h.visit hs (hb n List.mem_cons_self)
    obtain ⟨hall, hsames, ns₂, hns₂, hns₂'⟩ :=
      visitAll hv fun other hm => hb other (List.mem_cons_of_mem _ hm)
    refine ⟨hall, ?_, _, hns.trans hns₂, hns'.trans hns₂'⟩
    rw [visitAll_cons_snd, visitAll_cons_snd, hsame, hsames]

/-- A failure of the entry itself leaves no other mark than the file that tells of it. -/
theorem fail (e : FileError) : Twins s place name (t.readFailed name e) t' := by
  have hkept : FilesKept place t (t.readFailed name e) :=
    readFailed_filesKept hs.entry.1 h.settled (h.kept.rootAt hs.rootAt) h.kept.tidy e
  refine ⟨h.kept.trans hkept, ?_, ?_, ?_, readFailed_settled ..⟩
  · have hfiles : (t.readFailed name e).files = edited s.world.root t.files
        (name, .writeError (HostError.moduleRead name e.message).message) := by
      rw [readFailed_eq, settle_files, ← h.kept.rooted]
      show Artifacts.editAll _ _ (t.world.disk.push _).toList = _
      rw [h.settled]
      rfl
    rw [hfiles]
    exact h.lacks.writeError (h.rootAt hs) h.tidy hs.entry.1 _
  · rw [h.extension, readFailed_eq, settle_extension]
  · have hempty : t.world.hush = { t.world.hush with disk := #[] } := by
      rw [← h.settled]
      rfl
    rw [readFailed_eq, settle_hush, h.hush, hempty]
    rfl

end Twins

/-! ## A file that cannot be looked at or read -/

/-- What went wrong when a file was looked at, or when it was read, another version of it being
recorded or none. -/
def Unreadable (recorded : Option FileTime) (t : Site E) (name : String) (e : FileError) : Prop :=
  t.stat name = .error e ∨ ∃ modified, t.stat name = .ok (.file modified) ∧
    recorded ≠ some modified ∧ t.readText name = .error e

theorem visit_of_unreadable {e : FileError} (h : Unreadable (t.world.modified? name) t name e) :
    t.visit name = (t.readFailed name e, .failed) := by
  unfold visit
  rcases h with hstat | ⟨modified, hstat, hnew, hread⟩
  · rw [hstat]
  · rw [hstat]
    dsimp only
    rw [if_pos (World.needsReload_iff.2 hnew), readAndReload, hread]

theorem visitAll_append_snd : ∀ (a : List String) {b : List String} {s : Site E},
    (s.visitAll (a ++ b)).2 = (s.visitAll a).2 ++ ((s.visitAll a).1.visitAll b).2
  | [], _, _ => rfl
  | name :: a, b, s => by
    rw [List.cons_append, visitAll_cons_snd, visitAll_cons_snd, visitAll_append_snd a,
      visitAll_cons_fst, List.cons_append]

/-! ## The scan without the file -/

theorem lacks_without (s : Site E) (place : List String) (name : String) :
    Lacks s.files (s.without place name).files place name := by
  have hne : place ++ [name] ≠ [] := by simp
  refine ⟨?_, fun p hp _ => ?_, .inl ?_, rfl⟩
  · exact (node?_erase hne).trans (if_pos rfl)
  · exact (node?_erase hne).trans (if_neg hp)
  · exact (node?_erase hne).trans (if_neg (by simp))

theorem openDirs_of_ok {report : ScanReport} (h : s.scan.2 = .ok report)
    (hrun : report.skipped = false) : (ensureDirs s.files s.world.root).2 = none := by
  unfold scan at h
  split at h
  · cases h
    cases hrun
  · simp only [scanNow] at h
    split at h
    · cases h
    · split at h
      · cases h
      · rename_i s₁ ho
        exact congrArg Prod.snd ho

/-- A directory that is there can be listed. -/
theorem exists_moduleNames {path : List String} (hroot : s.files.RootAt s.world.root place)
    (hp : FilePath.ofText s.world.root = .ok path) : ∃ names, s.moduleNames = .ok names := by
  have hl : s.files.list path = .ok (s.files.nodes.keys.filterMap fun p =>
      if p.dropLast = place then p.getLast? else none) := by
    simp only [FileTree.list, hroot.resolve hp, bind, Except.bind, hroot.dir]
    rfl
  exact ⟨_, moduleNames_eq hp hl⟩

/-- A scan of the site without an entry looks at the other names. -/
theorem moduleNames_without (hs : s.Secluded place name) {names : List String}
    (h : s.opened.moduleNames = .ok names) :
    (s.without place name).opened.moduleNames = .ok (names.filter (· ≠ name)) := by
  obtain ⟨hroot', -⟩ := hs.ways _ _ .refl hs.tidy (lacks_without s place name)
  have hroot₁ : (s.without place name).opened.files.RootAt s.world.root place := by
    rw [opened_files]
    exact (ensureDirs_rootAt hroot').1
  obtain ⟨path, hp, -⟩ := Except.bind_eq_ok_iff.1 h
  obtain ⟨names', h'⟩ := exists_moduleNames (s := (s.without place name).opened) hroot₁ hp
  have hmem (other : String) : other ∈ names' ↔ other ∈ names.filter (· ≠ name) := by
    rw [opened_entries (s := s.without place name) hroot' h', List.mem_filter,
      opened_entries hs.rootAt h]
    have hnode : (s.without place name).files.node? (place ++ [other]) =
        if place ++ [other] = place ++ [name] then none else s.files.node? (place ++ [other]) :=
      node?_erase (by simp)
    have hholds : (s.without place name).Holds other ↔ s.Holds other := Iff.rfl
    rw [hnode, hholds]
    by_cases he : other = name
    · simp [he]
    · simp [he]
  -- both lists are in order, so it is enough that they hold the same names
  have hperm : names'.Perm (names.filter (· ≠ name)) :=
    (List.perm_ext_iff_of_nodup (moduleNames_nodup h') ((moduleNames_nodup h).filter _)).2 hmem
  have hasymm (a b : String) (hab : compare a b = .lt) (hba : compare b a = .lt) : a = b := by
    have hswap : compare b a = (compare a b).swap := Std.OrientedCmp.eq_swap
    rw [hswap, hab] at hba
    cases hba
  have heq : names' = names.filter (· ≠ name) :=
    hperm.eq_of_pairwise (fun a b _ _ => hasymm a b) (moduleNames_ascending h')
      ((moduleNames_ascending h).filter _)
  rw [h', heq]

theorem rootIsDir_without (hs : s.Secluded place name) (hdir : s.rootIsDir = true) :
    (s.without place name).rootIsDir = true := by
  obtain ⟨hroot', -⟩ := hs.ways _ _ .refl hs.tidy (lacks_without s place name)
  have hroot : (s.without place name).world.root = s.world.root := rfl
  unfold rootIsDir at hdir ⊢
  rw [hroot]
  split at hdir
  · rename_i path hp
    exact (isDir_iff (hroot'.resolve hp)).2 hroot'.dir
  · cases hdir

theorem twins_opened (hs : s.Secluded place name) (ho : s.world.disk = #[])
    (hdirs : (ensureDirs s.files s.world.root).2 = none) :
    Twins s place name s.opened (s.without place name).opened ∧
      (ensureDirs (s.without place name).files s.world.root).2 = none := by
  have hl := lacks_without s place name
  obtain ⟨hroot', -⟩ := hs.ways _ _ .refl hs.tidy hl
  have hmade : ensureDirs s.files s.world.root = (s.opened.files, none) :=
    Prod.ext s.opened_files.symm hdirs
  obtain ⟨files', hmade', hlacks⟩ := hl.ensureDirs hs.not_isHome hs.rootAt hroot' hs.tidy hmade
  have hfiles' : (s.without place name).opened.files = files' := by
    rw [opened_files]
    exact congrArg Prod.fst hmade'
  rw [← hfiles'] at hlacks
  exact ⟨⟨opened_kept hs.rootAt hs.tidy, hlacks, rfl, rfl, ho⟩, congrArg Prod.snd hmade'⟩

/-- What a scan says when a file fails in it, and what it says when that file is not there. -/
structure Spared (s : Site E) (place : List String) (name detail : String)
    (report report' : ScanReport) : Prop where
  skipped : report'.skipped = report.skipped
  reloaded : report'.reloaded = report.reloaded
  unchanged : report'.unchanged = report.unchanged
  failed : ∃ before after, report.failed = before ++ name :: after ∧
    report'.failed = before ++ after
  missing : ∀ other, other ∈ report'.missing ↔
    other ∈ report.missing ∨ other = name ∧ name ∈ s.world.records.keys
  /-- The same becomes of the world, but for what is said. -/
  world : (s.without place name).scan.1.world.hush = s.scan.1.world.hush
  notices : ∃ before after,
    World.Adds (before ++ World.loadError name detail :: after) s.world s.scan.1.world ∧
      World.Adds (before ++ after) s.world (s.without place name).scan.1.world
  files : Lacks s.scan.1.files (s.without place name).scan.1.files place name

theorem missing_without {known : List String} {before after : List (String × Sighting)}
    (hbefore : ∀ v, (name, v) ∉ before) (hafter : ∀ v, (name, v) ∉ after) :
    other ∈ (Site.report known (before ++ after)).missing ↔
      other ∈ (Site.report known (before ++ (name, .failed) :: after)).missing ∨
        other = name ∧ name ∈ known := by
  rw [mem_missing, mem_missing]
  simp only [List.mem_append, List.mem_cons, Prod.mk.injEq]
  by_cases he : other = name
  · subst he
    simp [hbefore, hafter]
  · simp [he]

theorem filter_ne {before after : List String} (hbefore : name ∉ before) (hafter : name ∉ after) :
    (before ++ name :: after).filter (· ≠ name) = before ++ after := by
  have hne {l : List String} (hl : name ∉ l) : l.filter (· ≠ name) = l :=
    List.filter_eq_self.2 fun m hm => decide_eq_true fun he : m = name => hl (he ▸ hm)
  rw [List.filter_append, List.filter_cons_of_neg (by simp), hne hbefore, hne hafter]

/-- The names before the file that fails are looked at alike, and so are the names behind it. -/
theorem Twins.around (h : Twins s place name t t') (hs : s.Secluded place name) {e : FileError}
    {before after : List String} (hbefore : ∀ other ∈ before, s.Beside place name other)
    (hafter : ∀ other ∈ after, s.Beside place name other)
    (hfail : (t.visitAll before).1.visit name =
      ((t.visitAll before).1.readFailed name e, .failed)) :
    Twins s place name (t.visitAll (before ++ name :: after)).1
        (t'.visitAll (before ++ after)).1 ∧
      (∃ a b, a.map (·.1) = before ∧ b.map (·.1) = after ∧
        (t.visitAll (before ++ name :: after)).2 = a ++ (name, .failed) :: b ∧
        (t'.visitAll (before ++ after)).2 = a ++ b) ∧
      ∃ ns ns', World.Adds (ns ++ World.loadError name (HostError.moduleRead name e.message).message
          :: ns') t.world (t.visitAll (before ++ name :: after)).1.world ∧
        World.Adds (ns ++ ns') t'.world (t'.visitAll (before ++ after)).1.world := by
  obtain ⟨h₁, hsame, ns, hns, hns'⟩ := visitAll hs h hbefore
  have h₂ := h₁.fail hs e
  obtain ⟨h₃, hsame₃, ns₃, hns₃, hns₃'⟩ := visitAll hs h₂ hafter
  rw [visitAll_append, visitAll_append, visitAll_append_snd, visitAll_append_snd, hsame,
    visitAll_cons_fst, visitAll_cons_snd, hfail, hsame₃]
  have htold : World.Adds [World.loadError name (HostError.moduleRead name e.message).message]
      (t.visitAll before).1.world ((t.visitAll before).1.readFailed name e).world :=
    readFailed_adds ..
  exact ⟨h₃, ⟨_, _, visitAll_names .., visitAll_names .., rfl, rfl⟩, ns, ns₃,
    hns.trans (htold.trans hns₃), hns'.trans hns₃'⟩

/-- A scan does with the other files what it does when a file that fails is not there. -/
theorem scan_spares (hs : s.Secluded place name) (ho : s.world.disk = #[]) {report : ScanReport}
    (h : s.scan.2 = .ok report) (hrun : report.skipped = false) {names : List String}
    (hnames : s.opened.moduleNames = .ok names) (hn : name ∈ names) {e : FileError}
    (hun : Unreadable (s.world.modified? name) (s.turnOf names name) name e) :
    ∃ report', (s.without place name).scan.2 = .ok report' ∧
      Spared s place name (HostError.moduleRead name e.message).message report report' := by
  have hdirs := openDirs_of_ok h hrun
  obtain ⟨_, hscan, hdir, hnames₁, hs₁, rfl⟩ := visited_of_ok h hrun
  cases hnames.symm.trans hnames₁
  obtain ⟨htwins, hdirs'⟩ := twins_opened hs ho hdirs
  have hbeside : ∀ other ∈ names, other ≠ name → s.Beside place name other := fun other hm hne =>
    ⟨hne, (opened_entries hs.rootAt hnames other).1 hm⟩
  obtain ⟨before, after, rfl, hbefore, hafter⟩ := split_names (moduleNames_nodup hnames) hn
  have hnames' := moduleNames_without hs hnames
  rw [filter_ne hbefore hafter] at hnames'
  have hs₂ := scan_eq (s := s.without place name) hscan (rootIsDir_without hs hdir) hdirs' hnames'
  refine ⟨_, congrArg Prod.snd hs₂, ?_⟩
  rw [turnOf, takeWhile_ne hbefore] at hun
  have hkept : Untouched name s.world (s.opened.visitAll before).1.world :=
    visitAll_untouched (s := s.opened) hbefore
  rw [← hkept.modified?_eq] at hun
  obtain ⟨hend, ⟨a, b, ha, hb, hsight, hsight'⟩, ns, ns', hns, hns'⟩ := htwins.around hs
    (fun other hm => hbeside other (by simp [hm]) fun he => hbefore (he ▸ hm))
    (fun other hm => hbeside other (by simp [hm]) fun he => hafter (he ▸ hm))
    (visit_of_unreadable hun)
  rw [hsight, hsight']
  have hkeys : ((s.without place name).opened.visitAll (before ++ after)).1.world.records.keys =
      (s.opened.visitAll (before ++ name :: after)).1.world.records.keys :=
    congrArg (fun w => w.records.keys) hend.hush
  have hrecord : name ∈ (s.opened.visitAll (before ++ name :: after)).1.world.records.keys ↔
      name ∈ s.world.records.keys := by
    have hall : Untouched name s.world (s.opened.visitAll (before ++ name :: after)).1.world := by
      rw [visitAll_append, visitAll_cons_fst, visit_of_unreadable hun]
      exact (hkept.trans (readFailed_untouched name e)).trans (visitAll_untouched hafter)
    rw [Table.mem_keys_iff, Table.mem_keys_iff, hall.record]
  have hnot {l : List (String × Sighting)} {names : List String} (hl : l.map (·.1) = names)
      (hn : name ∉ names) (v : Sighting) : (name, v) ∉ l := fun hm =>
    hn (hl ▸ List.mem_map_of_mem (f := (·.1)) hm)
  constructor
  case missing =>
    intro other
    rw [hkeys, missing_without (hnot ha hbefore) (hnot hb hafter), hrecord]
  case failed => exact ⟨(a.filter (·.2 = .failed)).map (·.1), (b.filter (·.2 = .failed)).map (·.1),
    by simp [Site.report], by simp [Site.report]⟩
  case world => rw [hs₁, hs₂]; exact hend.hush
  case notices => rw [hs₁, hs₂]; exact ⟨ns, ns', hns, hns'⟩
  case files => rw [hs₁, hs₂]; exact hend.lacks
  all_goals simp [Site.report]

end Site

end LiveModules
