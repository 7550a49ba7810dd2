import LiveModules.Proofs.ErrorFiles

/-!
# Where the files of a module stand

Where the directories are tidy, the log and the error file of a module have one place each
(`place?`), which no change of such files moves, and a change edits the entry at one place
(`find?_edited`). So changes at different places can be made in either order, and what a list of
changes makes of the tree is known place by place (`find?_editAll`).
-/

namespace LiveModules

open FileTree

namespace ArtifactWrite

/-- The directory of the file that is changed. -/
def dir : ArtifactWrite → String
  | .truncateLog | .appendLog _ => logsDir
  | .clearError | .writeError _ => errorsDir

/-- What becomes of the content of the file, if there is one. -/
def content : ArtifactWrite → Option ByteArray → Option ByteArray
  | .truncateLog, _ => some .empty
  | .appendLog line, old => some (old.getD .empty ++ (line ++ "\n").toUTF8)
  | .clearError, _ => none
  | .writeError detail, _ => some detail.toUTF8

end ArtifactWrite

namespace Artifacts

variable {t t' : FileTree} {root dir module : String} {found path : List String}

/-- The place of a file that tells of a module, if the way there is open. -/
def place? (t : FileTree) (root dir module : String) : Option (List String) :=
  match FilePath.ofText (joinPath (joinPath root dir) module) >>= t.resolve with
  | .ok place => some place
  | .error _ => none

/-- What becomes of the entry at the place of a file whose content changes; a directory that stands
there stays. -/
def editNode (content : Option ByteArray → Option ByteArray) (stamp : FileTime) :
    Option FileNode → Option FileNode
  | none => (content none).map (.file · stamp true)
  | some (.file old _ readable) => (content (some old)).map (.file · stamp readable)
  | some node => some node

/-- The tree after a change; one that is not possible leaves it. -/
def edited (root : String) (t : FileTree) (change : String × ArtifactWrite) : FileTree :=
  match make t root change.1 change.2 with
  | .ok t' => t'
  | .error _ => t

/-- One of the two directories for the files that tell of modules. -/
def IsHome (dir : String) : Prop := dir = errorsDir ∨ dir = logsDir

theorem isHome_dir (write : ArtifactWrite) : IsHome write.dir := by
  cases write
  · exact .inr rfl
  · exact .inr rfl
  · exact .inl rfl
  · exact .inl rfl

theorem IsHome.isEntry (h : IsHome dir) : FileName.IsEntry dir := by
  rcases h with rfl | rfl
  · exact isEntry_errorsDir
  · exact isEntry_logsDir

theorem IsHome.not_tooLong (h : IsHome dir) : FileName.tooLong dir = false := by
  rcases h with rfl | rfl <;> rfl

theorem IsHome.tidy (h : IsHome dir) (htidy : Tidy t root) {place : List String}
    (hroot : t.RootAt root place) : TidyDir t place dir := by
  rcases h with rfl | rfl
  · exact htidy.errors place hroot
  · exact htidy.logs place hroot

theorem ofText_artifact (hd : IsHome dir) (hm : FileName.IsEntry module)
    (hp : FilePath.ofText (joinPath (joinPath root dir) module) = .ok path) :
    path = FilePath.names root ++ [dir, module] := by
  rw [FilePath.ofText_joinPath hm hp, FilePath.names_joinPath hd.isEntry, List.append_assoc]
  rfl

/-- The way to a place, with or without a link followed at its end. -/
theorem walk_eq_ok_iff (htidy : Tidy t root) (hd : IsHome dir) (hm : FileName.IsEntry module)
    (last : Bool) : t.walk last maxLinks [] (FilePath.names root ++ [dir, module]) = .ok found ↔
      FileName.tooLong module = false ∧ ∃ place, t.RootAt root place ∧
        t.node? (place ++ [dir]) = some .dir ∧ found = place ++ [dir, module] := by
  constructor
  · intro hw
    obtain ⟨place, hroot⟩ := rootAt_of_walk_below (List.cons_ne_nil _ _) hw
    obtain ⟨hdir, hlong, hf⟩ :=
      (walk_artifact hroot (hd.tidy htidy hroot) hd.isEntry hd.not_tooLong hm).1 hw
    exact ⟨hlong, place, hroot, hdir, hf⟩
  · rintro ⟨hlong, place, hroot, hdir, hf⟩
    exact (walk_artifact hroot (hd.tidy htidy hroot) hd.isEntry hd.not_tooLong hm).2
      ⟨hdir, hlong, hf⟩

theorem place?_eq_some_iff (htidy : Tidy t root) (hd : IsHome dir) (hm : FileName.IsEntry module) :
    place? t root dir module = some found ↔
      (∃ path, FilePath.ofText (joinPath (joinPath root dir) module) = .ok path) ∧
      FileName.tooLong module = false ∧ ∃ place, t.RootAt root place ∧
        t.node? (place ++ [dir]) = some .dir ∧ found = place ++ [dir, module] := by
  unfold place?
  rcases hp : FilePath.ofText (joinPath (joinPath root dir) module) with e | path
  · simp [bind, Except.bind]
  · rw [← walk_eq_ok_iff htidy hd hm true, ← ofText_artifact hd hm hp]
    simp only [bind, Except.bind, resolve, Except.ok.injEq, exists_eq', true_and]
    rcases t.walk true maxLinks [] path with e | place
    · simp
    · simp

/-- A place is below the root, in a directory of its own kind. -/
theorem place?_inj (htidy : Tidy t root) {dir' module' : String} (hd : IsHome dir)
    (hd' : IsHome dir') (hm : FileName.IsEntry module) (hm' : FileName.IsEntry module')
    (h : place? t root dir module = some found) (h' : place? t root dir' module' = some found) :
    dir = dir' ∧ module = module' := by
  obtain ⟨-, -, place, hroot, -, rfl⟩ := (place?_eq_some_iff htidy hd hm).1 h
  obtain ⟨-, -, place', hroot', -, hf⟩ := (place?_eq_some_iff htidy hd' hm').1 h'
  cases hroot.unique hroot'
  simpa using hf

/-! ## One change -/

theorem place?_eq (hp : FilePath.ofText (joinPath (joinPath root dir) module) = .ok path) :
    place? t root dir module = (t.resolve path).toOption := by
  unfold place?
  rw [hp]
  show (match t.resolve path with
    | .ok place => some place
    | .error _ => none) = _
  cases t.resolve path <;> rfl

/-- Where a place is, no link stands. -/
theorem place?_no_link (htidy : Tidy t root) (hd : IsHome dir) (hm : FileName.IsEntry module)
    (h : place? t root dir module = some found) :
    found ≠ [] ∧ ∀ target, t.nodes.find? found ≠ some (.link target) := by
  obtain ⟨-, -, place, hroot, -, hf⟩ := (place?_eq_some_iff htidy hd hm).1 h
  have hne : found ≠ [] := by simp [hf]
  refine ⟨hne, fun target => ?_⟩
  rw [← node?_of_ne_nil hne, hf]
  exact (hd.tidy htidy hroot).no_link_in module target

/-- What is left when a file is written anew or longer. -/
theorem find?_writeWith (htidy : Tidy t root) (hd : IsHome dir) (hm : FileName.IsEntry module)
    (hp : FilePath.ofText (joinPath (joinPath root dir) module) = .ok path) (time : FileTime)
    (change : ByteArray → ByteArray) (p : List String) :
    ((t.writeWith path time change).toOption.getD t).nodes.find? p =
      if place? t root dir module = some p then
        editNode (fun old => some (change (old.getD .empty))) time (t.nodes.find? p)
      else t.nodes.find? p := by
  have hpath := ofText_artifact hd hm hp
  have hlast : path.getLast? ≠ some "." := by
    rw [hpath]
    simpa using hm.ne_dot
  unfold writeWith
  simp only [if_neg hlast, place?_eq hp]
  rcases hr : t.resolve path with e | found
  · simp [bind, Except.bind, Except.toOption]
  · have hplace : place? t root dir module = some found := by rw [place?_eq hp, hr]; rfl
    obtain ⟨hne, hlink⟩ := place?_no_link htidy hd hm hplace
    simp only [bind, Except.bind, node?_of_ne_nil hne, Nat.lt_irrefl, ↓reduceIte,
      Except.toOption, Option.some.injEq]
    by_cases hf : found = p
    · subst hf
      rcases hn : t.nodes.find? found with _ | ⟨old, modified, readable⟩ | _ | target
      · simp [put, pure, Except.pure, editNode]
      · simp [put, pure, Except.pure, editNode]
      · simp [throw, throwThe, MonadExceptOf.throw, editNode, hn]
      · exact absurd hn (hlink target)
    · rw [if_neg hf]
      rcases hn : t.nodes.find? found with _ | ⟨old, modified, readable⟩ | _ | target
      · exact Table.find?_insert_of_ne _ (Ne.symm hf) _
      · exact Table.find?_insert_of_ne _ (Ne.symm hf) _
      · rfl
      · rfl

/-- What is left when a file is removed. -/
theorem find?_remove (htidy : Tidy t root) (hd : IsHome dir) (hm : FileName.IsEntry module)
    (hp : FilePath.ofText (joinPath (joinPath root dir) module) = .ok path) (time : FileTime)
    (p : List String) : ((t.remove path).toOption.getD t).nodes.find? p =
      if place? t root dir module = some p then editNode (fun _ => none) time (t.nodes.find? p)
      else t.nodes.find? p := by
  have hpath := ofText_artifact hd hm hp
  have hentry (found : List String) : t.resolveEntry path = .ok found ↔
      t.resolve path = .ok found := by
    rw [hpath]
    exact (walk_eq_ok_iff htidy hd hm false).trans (walk_eq_ok_iff htidy hd hm true).symm
  unfold remove
  rw [place?_eq hp]
  rcases hr : t.resolveEntry path with e | found
  · have hno : (t.resolve path).toOption ≠ some p := by
      intro h
      rcases hr' : t.resolve path with e' | found'
      · rw [hr'] at h
        cases h
      · rw [(hentry found').2 hr'] at hr
        cases hr
    rw [if_neg hno]
    rfl
  · have hplace : place? t root dir module = some found := by
      rw [place?_eq hp, (hentry found).1 hr]
      rfl
    obtain ⟨hne, hlink⟩ := place?_no_link htidy hd hm hplace
    simp only [bind, Except.bind, (hentry found).1 hr, node?_of_ne_nil hne, Except.toOption,
      Option.some.injEq]
    by_cases hf : found = p
    · subst hf
      rcases hn : t.nodes.find? found with _ | ⟨old, modified, readable⟩ | _ | target
      · simp [throw, throwThe, MonadExceptOf.throw, editNode, hn]
      · simp [pure, Except.pure, editNode, Table.find?_erase_self]
      · simp [throw, throwThe, MonadExceptOf.throw, editNode, hn]
      · exact absurd hn (hlink target)
    · rw [if_neg hf]
      rcases hn : t.nodes.find? found with _ | ⟨old, modified, readable⟩ | _ | target
      · rfl
      · exact Table.find?_erase_of_ne _ (Ne.symm hf)
      · rfl
      · exact Table.find?_erase_of_ne _ (Ne.symm hf)

/-- What a change does at a path. -/
def perform (t : FileTree) (path : List String) : ArtifactWrite → Except FileError FileTree
  | .truncateLog => t.write path t.stamp .empty
  | .appendLog line => t.append path t.stamp (line ++ "\n").toUTF8
  | .clearError => t.remove path
  | .writeError detail => t.write path t.stamp detail.toUTF8

theorem edited_changeAt {p : String} {change : List String → Except FileError FileTree} :
    (match changeAt p change with
      | .ok t' => t'
      | .error _ => t) = (FilePath.ofText p >>= change).toOption.getD t := by
  unfold changeAt
  cases FilePath.ofText p >>= change <;> rfl

theorem edited_eq (t : FileTree) (root module : String) (write : ArtifactWrite) :
    edited root t (module, write) =
      (FilePath.ofText (joinPath (joinPath root write.dir) module) >>= fun path =>
        perform t path write).toOption.getD t := by
  cases write with
  | truncateLog => exact edited_changeAt
  | appendLog line => exact edited_changeAt
  | writeError detail => exact edited_changeAt
  | clearError =>
    simp only [edited, make, clearError]
    show _ = (FilePath.ofText (errorPath root module) >>= t.remove).toOption.getD t
    rcases FilePath.ofText (errorPath root module) >>= t.remove with e | t'
    · cases e <;> rfl
    · rfl

/-- A change edits the entry at the place of its file, if the way there is open. -/
theorem find?_edited (htidy : Tidy t root) {change : String × ArtifactWrite}
    (hm : FileName.IsEntry change.1) (p : List String) :
    (edited root t change).nodes.find? p =
      if place? t root change.2.dir change.1 = some p then
        editNode change.2.content t.stamp (t.nodes.find? p)
      else t.nodes.find? p := by
  obtain ⟨module, write⟩ := change
  rw [edited_eq]
  rcases hp : FilePath.ofText (joinPath (joinPath root write.dir) module) with e | path
  · have hnone : place? t root write.dir module = none := by
      unfold place?
      rw [hp]
      rfl
    rw [hnone, if_neg nofun]
    rfl
  · cases write with
    | truncateLog => exact find?_writeWith htidy (.inr rfl) hm hp t.stamp _ p
    | appendLog line => exact find?_writeWith htidy (.inr rfl) hm hp t.stamp _ p
    | writeError detail => exact find?_writeWith htidy (.inl rfl) hm hp t.stamp _ p
    | clearError => exact find?_remove htidy (.inl rfl) hm hp t.stamp p

theorem writeWith_stamp {time : FileTime} {change : ByteArray → ByteArray}
    (h : t.writeWith path time change = .ok t') : t'.stamp = t.stamp := by
  obtain ⟨place, -, h⟩ := Except.bind_eq_ok_iff.1 h
  split at h
  · cases h
  · dsimp only at h
    split_ifs at h <;> cases h <;> rfl
  · cases h
  · dsimp only at h
    split_ifs at h <;> cases h <;> rfl

theorem perform_stamp {write : ArtifactWrite} (h : perform t path write = .ok t') :
    t'.stamp = t.stamp := by
  cases write with
  | truncateLog | appendLog | writeError => exact writeWith_stamp h
  | clearError =>
    obtain ⟨place, -, h⟩ := Except.bind_eq_ok_iff.1 h
    split at h
    · cases h
    · cases h
    · cases h
      rfl

/-- The time that files get stays. -/
theorem edited_stamp (t : FileTree) (root : String) (change : String × ArtifactWrite) :
    (edited root t change).stamp = t.stamp := by
  obtain ⟨module, write⟩ := change
  rw [edited_eq]
  rcases h : FilePath.ofText (joinPath (joinPath root write.dir) module) >>= fun path =>
    perform t path write with e | t'
  · rfl
  · obtain ⟨path, -, h⟩ := Except.bind_eq_ok_iff.1 h
    exact perform_stamp h

/-! ## Many changes -/

theorem edited_tidy (htidy : Tidy t root) {change : String × ArtifactWrite}
    (hm : FileName.IsEntry change.1) : Tidy (edited root t change) root := by
  unfold edited
  split
  · rename_i t' h
    exact (made_of_make htidy hm h).tidy htidy
  · exact htidy

theorem place?_leafChange {place : List String} {dir' module' : String} (htidy : Tidy t root)
    (htidy' : Tidy t' root) (hroot : t.RootAt root place)
    (hc : LeafChange t t' (place ++ [dir', module'])) (hd : IsHome dir)
    (hm : FileName.IsEntry module) : place? t' root dir module = place? t root dir module := by
  have hroot' : t'.RootAt root place := hroot.mono hc.extends
  have hdir : t'.node? (place ++ [dir]) = t.node? (place ++ [dir]) := hc.elsewhere _ (by simp)
  refine Option.ext fun found => ?_
  rw [place?_eq_some_iff htidy' hd hm, place?_eq_some_iff htidy hd hm]
  refine and_congr_right fun _ => and_congr_right fun _ => ?_
  constructor
  · rintro ⟨place', hr, hn, hf⟩
    cases hr.unique hroot'
    exact ⟨place, hroot, hdir ▸ hn, hf⟩
  · rintro ⟨place', hr, hn, hf⟩
    cases hr.unique hroot
    exact ⟨place, hroot', hdir.symm ▸ hn, hf⟩

/-- No change moves the place of a file. -/
theorem place?_edited (htidy : Tidy t root) {change : String × ArtifactWrite}
    (hc : FileName.IsEntry change.1) (hd : IsHome dir) (hm : FileName.IsEntry module) :
    place? (edited root t change) root dir module = place? t root dir module := by
  have htidy' := edited_tidy htidy hc
  unfold edited at htidy' ⊢
  rcases h : make t root change.1 change.2 with e | t'
  · rfl
  · rw [h] at htidy'
    cases made_of_make htidy hc h with
    | log place hroot _ hleaf _ => exact place?_leafChange htidy htidy' hroot hleaf hd hm
    | error place hroot _ _ _ hleaf _ => exact place?_leafChange htidy htidy' hroot hleaf hd hm
    | absent he _ _ => exact he ▸ rfl

/-- The tree after changes in turn. -/
def editAll (root : String) (t : FileTree) (changes : List (String × ArtifactWrite)) : FileTree :=
  changes.foldl (edited root) t

/-- What a change makes of the entry at a place. -/
def editAt (t : FileTree) (root : String) (p : List String) (node : Option FileNode)
    (change : String × ArtifactWrite) : Option FileNode :=
  if place? t root change.2.dir change.1 = some p then editNode change.2.content t.stamp node
  else node

theorem editAll_stamp : ∀ (changes : List (String × ArtifactWrite)) (t : FileTree),
    (editAll root t changes).stamp = t.stamp
  | [], _ => rfl
  | change :: changes, t =>
    (editAll_stamp changes (edited root t change)).trans (edited_stamp t root change)

theorem editAll_tidy : ∀ (changes : List (String × ArtifactWrite)) {t : FileTree},
    Tidy t root → (∀ change ∈ changes, FileName.IsEntry change.1) →
      Tidy (editAll root t changes) root
  | [], _, htidy, _ => htidy
  | change :: changes, _, htidy, hm =>
    editAll_tidy changes (edited_tidy htidy (hm change List.mem_cons_self))
      fun c hc => hm c (List.mem_cons_of_mem _ hc)

theorem place?_editAll (hd : IsHome dir) (hm : FileName.IsEntry module) :
    ∀ (changes : List (String × ArtifactWrite)) {t : FileTree}, Tidy t root →
      (∀ change ∈ changes, FileName.IsEntry change.1) →
      place? (editAll root t changes) root dir module = place? t root dir module
  | [], _, _, _ => rfl
  | change :: changes, t, htidy, hc => by
    have hfirst := hc change List.mem_cons_self
    have hrest := place?_editAll hd hm changes (edited_tidy htidy hfirst)
      fun c h => hc c (List.mem_cons_of_mem _ h)
    exact hrest.trans (place?_edited htidy hfirst hd hm)

/-- Place by place, a list of changes edits an entry by those changes that are of its file. -/
theorem find?_editAll (p : List String) :
    ∀ {changes : List (String × ArtifactWrite)} {t : FileTree}, Tidy t root →
      (∀ change ∈ changes, FileName.IsEntry change.1) →
      (editAll root t changes).nodes.find? p = changes.foldl (editAt t root p) (t.nodes.find? p)
  | [], _, _, _ => rfl
  | change :: changes, t, htidy, hm => by
    have hfirst := hm change List.mem_cons_self
    have hrest (c : String × ArtifactWrite) (hc : c ∈ changes) : FileName.IsEntry c.1 :=
      hm c (List.mem_cons_of_mem _ hc)
    have hstep : (edited root t change).nodes.find? p =
        editAt t root p (t.nodes.find? p) change := find?_edited htidy hfirst p
    -- the places are those of the tree at first
    have hsame : changes.foldl (editAt (edited root t change) root p)
          (editAt t root p (t.nodes.find? p) change) =
        changes.foldl (editAt t root p) (editAt t root p (t.nodes.find? p) change) := by
      refine List.foldl_ext _ _ _ fun node c hc => ?_
      unfold editAt
      rw [place?_edited htidy hfirst (isHome_dir c.2) (hrest c hc), edited_stamp]
    rw [List.foldl_cons, ← hsame, ← hstep]
    exact find?_editAll p (edited_tidy htidy hfirst) hrest

/-- Changes that are of no file at a place leave it. -/
theorem foldl_editAt_of_ne {changes : List (String × ArtifactWrite)} {p : List String}
    (h : ∀ change ∈ changes, place? t root change.2.dir change.1 ≠ some p)
    (node : Option FileNode) :
    changes.foldl (editAt t root p) node = node := by
  induction changes with
  | nil => rfl
  | cons change changes ih =>
    rw [List.foldl_cons, editAt, if_neg (h change List.mem_cons_self)]
    exact ih fun c hc => h c (List.mem_cons_of_mem _ hc)

theorem tree_ext (hn : ∀ p, t'.nodes.find? p = t.nodes.find? p) (hs : t'.stamp = t.stamp) :
    t' = t := by
  obtain ⟨nodes, stamp⟩ := t
  obtain ⟨nodes', stamp'⟩ := t'
  have hnodes : nodes' = nodes := Table.ext hn
  cases hnodes
  cases hs
  rfl

/-! ## Contents -/

/-- The content of the log of a module, if there is one. -/
def logContent? (t : FileTree) (root module : String) : Option ByteArray :=
  match FilePath.ofText (logPath root module) with
  | .ok path => t.content? path
  | .error _ => none

/-- What a file holds is what stands at its place. -/
theorem content_eq (t : FileTree) (root dir module : String) :
    (match FilePath.ofText (joinPath (joinPath root dir) module) with
      | .ok path => t.content? path
      | .error _ => none) =
    (place? t root dir module).bind fun p => match t.node? p with
      | some (.file content _ _) => some content
      | _ => none := by
  rcases hp : FilePath.ofText (joinPath (joinPath root dir) module) with e | path
  · unfold place?
    rw [hp]
    rfl
  · dsimp only
    rw [place?_eq hp, content?]
    rcases t.resolve path with e | place
    · rfl
    · rfl

/-- Changes leave the files of modules that they are not of. -/
theorem content_editAll {changes : List (String × ArtifactWrite)} (htidy : Tidy t root)
    (hc : ∀ change ∈ changes, FileName.IsEntry change.1) (hm : FileName.IsEntry module)
    (hne : ∀ change ∈ changes, change.1 ≠ module) :
    logContent? (editAll root t changes) root module = logContent? t root module ∧
      errorContent? (editAll root t changes) root module = errorContent? t root module := by
  have same {dir : String} (hd : IsHome dir) :
      (place? (editAll root t changes) root dir module).bind (fun p =>
        match (editAll root t changes).node? p with
          | some (.file content _ _) => some content
          | _ => none) =
      (place? t root dir module).bind fun p => match t.node? p with
        | some (.file content _ _) => some content
        | _ => none := by
    rw [place?_editAll hd hm changes htidy hc]
    rcases hp : place? t root dir module with _ | p
    · rfl
    · have hne' : p ≠ [] := (place?_no_link htidy hd hm hp).1
      have hother (change : String × ArtifactWrite) (h : change ∈ changes) :
          place? t root change.2.dir change.1 ≠ some p := fun he =>
        hne change h (place?_inj htidy (isHome_dir _) hd (hc change h) hm he hp).2
      simp only [Option.bind_some, node?_of_ne_nil hne']
      rw [find?_editAll p htidy hc, foldl_editAt_of_ne hother]
  constructor
  · exact (content_eq _ root logsDir module).trans
      ((same (.inr rfl)).trans (content_eq t root logsDir module).symm)
  · exact (content_eq _ root errorsDir module).trans
      ((same (.inl rfl)).trans (content_eq t root errorsDir module).symm)

theorem editNode_isLeaf {content : Option ByteArray → Option ByteArray} {stamp : FileTime}
    {node : Option FileNode} (h : IsLeaf node) : IsLeaf (editNode content stamp node) := by
  intro n hn
  rcases node with _ | n'
  · obtain ⟨new, -, rfl⟩ := Option.map_eq_some_iff.1 hn
    exact ⟨_, _, _, rfl⟩
  · obtain ⟨old, modified, readable, rfl⟩ := h n' rfl
    obtain ⟨new, -, rfl⟩ := Option.map_eq_some_iff.1 hn
    exact ⟨_, _, _, rfl⟩

theorem editNode_of_not_isLeaf {content : Option ByteArray → Option ByteArray} {stamp : FileTime}
    {node : Option FileNode} (h : ¬ IsLeaf node) : editNode content stamp node = node := by
  rcases node with _ | ⟨_, _, _⟩ | _ | _
  · exact absurd (fun _ => nofun) h
  · exact absurd (fun n hn => ⟨_, _, _, (Option.some.inj hn).symm⟩) h
  · rfl
  · rfl

theorem editAt_isLeaf {p : List String} {node : Option FileNode} (h : IsLeaf node)
    (change : String × ArtifactWrite) : IsLeaf (editAt t root p node change) := by
  unfold editAt
  split_ifs
  · exact editNode_isLeaf h
  · exact h

theorem editAt_writeError {p : List String} {module : String} {node : Option FileNode}
    (detail : String) (h : IsLeaf node) (hp : place? t root errorsDir module = some p) :
    ∃ modified readable, editAt t root p node (module, .writeError detail) =
      some (.file detail.toUTF8 modified readable) := by
  have hedit : editAt t root p node (module, .writeError detail) =
      editNode (ArtifactWrite.writeError detail).content t.stamp node := if_pos hp
  rw [hedit]
  rcases node with _ | n
  · exact ⟨_, _, rfl⟩
  · obtain ⟨old, modified, readable, rfl⟩ := h n rfl
    exact ⟨_, _, rfl⟩

/-- What an error file holds when what went wrong is the last that was written there. -/
theorem errorContent?_editAll {before after : List (String × ArtifactWrite)}
    {module detail : String} {p : List String} (htidy : Tidy t root)
    (hm : ∀ c ∈ before ++ (module, .writeError detail) :: after, FileName.IsEntry c.1)
    (hp : place? t root errorsDir module = some p) (hdir : t.nodes.find? p ≠ some .dir)
    (hafter : ∀ c ∈ after, c.1 = module → c.2.dir ≠ errorsDir) :
    errorContent? (editAll root t (before ++ (module, .writeError detail) :: after)) root module =
      some detail.toUTF8 := by
  have hmod : FileName.IsEntry module := hm (module, .writeError detail) (by simp)
  obtain ⟨hne, hlink⟩ := place?_no_link htidy (.inl rfl) hmod hp
  have hleaf : IsLeaf (t.nodes.find? p) := by
    intro n hn
    rcases n with ⟨content, modified, readable⟩ | _ | target
    · exact ⟨content, modified, readable, rfl⟩
    · exact absurd hn hdir
    · exact absurd hn (hlink target)
  have hbefore : IsLeaf (before.foldl (editAt t root p) (t.nodes.find? p)) :=
    List.foldlRecOn (motive := IsLeaf) before (editAt t root p) hleaf
      fun _ h change _ => editAt_isLeaf h change
  obtain ⟨modified, readable, hfile⟩ := editAt_writeError detail hbefore hp
  have hother (c : String × ArtifactWrite) (hc : c ∈ after) :
      place? t root c.2.dir c.1 ≠ some p := by
    intro hcp
    have hentry : FileName.IsEntry c.1 := hm c (by simp [hc])
    obtain ⟨hd, hn⟩ := place?_inj htidy (isHome_dir c.2) (.inl rfl) hentry hmod hcp hp
    exact hafter c hc hn hd
  have hnode : (editAll root t (before ++ (module, .writeError detail) :: after)).nodes.find? p =
      some (.file detail.toUTF8 modified readable) := by
    rw [find?_editAll p htidy hm, List.foldl_append, List.foldl_cons, hfile,
      foldl_editAt_of_ne hother]
  refine (content_eq _ root errorsDir module).trans ?_
  rw [place?_editAll (.inl rfl) hmod _ htidy hm, hp, Option.bind_some, node?_of_ne_nil hne, hnode]

/-- A change that is of no file at a place may be left out there. -/
theorem find?_editAll_without {before after : List (String × ArtifactWrite)}
    {change : String × ArtifactWrite} {p : List String} (htidy : Tidy t root)
    (hm : ∀ c ∈ before ++ change :: after, FileName.IsEntry c.1)
    (hp : place? t root change.2.dir change.1 ≠ some p) :
    (editAll root t (before ++ change :: after)).nodes.find? p =
      (editAll root t (before ++ after)).nodes.find? p := by
  have hm' (c : String × ArtifactWrite) (hc : c ∈ before ++ after) : FileName.IsEntry c.1 := by
    refine hm c ?_
    rcases List.mem_append.1 hc with hc | hc <;> simp [hc]
  rw [find?_editAll p htidy hm, find?_editAll p htidy hm', List.foldl_append, List.foldl_append,
    List.foldl_cons, editAt, if_neg hp]

end Artifacts

namespace Site

open Artifacts

variable {E : Engine}

theorem makeChange_files (s : Site E) (change : String × ArtifactWrite) :
    (s.makeChange change).files = edited s.world.root s.files change ∧
      (s.makeChange change).world.root = s.world.root := by
  unfold makeChange edited
  cases make s.files s.world.root change.1 change.2 <;> exact ⟨rfl, rfl⟩

theorem makeChanges_files : ∀ (changes : List (String × ArtifactWrite)) (s : Site E),
    (changes.foldl makeChange s).files = editAll s.world.root s.files changes
  | [], _ => rfl
  | change :: changes, s => by
    obtain ⟨hf, hr⟩ := s.makeChange_files change
    rw [List.foldl_cons, makeChanges_files changes, hf, hr]
    rfl

/-- To settle makes the changes that are asked for in turn. -/
theorem settle_files (s : Site E) :
    s.settle.files = editAll s.world.root s.files s.world.disk.toList := by
  unfold settle
  rw [← Array.foldl_toList]
  exact makeChanges_files _ _

end Site

end LiveModules
