import LiveModules.Proofs.Walks
import LiveModules.Site.Artifacts

/-!
# The files that tell of a module

Where `.errors` and `.logs` are no links and hold none (`Tidy`), a change of the files that tell of
a module changes one entry of one of them and nothing else (`made_of_make`).
-/

namespace LiveModules

namespace FileTree

variable {t : FileTree} {place found : List String}

theorem node?_of_ne_nil (h : place ≠ []) : t.node? place = t.nodes.find? place := by
  cases place with
  | nil => exact absurd rfl h
  | cons => rfl

theorem node?_put (hne : found ≠ []) (node : FileNode) :
    (t.put found node).node? place = if place = found then some node else t.node? place := by
  rcases eq_or_ne place [] with rfl | hp
  · rw [if_neg (Ne.symm hne)]
    rfl
  · rw [node?_of_ne_nil hp, node?_of_ne_nil hp, put, Table.find?_insert]

theorem node?_erase (hne : found ≠ []) :
    ({ t with nodes := t.nodes.erase found } : FileTree).node? place =
      if place = found then none else t.node? place := by
  rcases eq_or_ne place [] with rfl | hp
  · rw [if_neg (Ne.symm hne)]
    rfl
  · rw [node?_of_ne_nil hp, node?_of_ne_nil hp]
    split
    · rename_i h
      rw [h, Table.find?_erase_self]
    · rename_i h
      rw [Table.find?_erase_of_ne _ h]

/-- The content of the file that a path leads to, whether or not it may be read. -/
def content? (t : FileTree) (path : List String) : Option ByteArray :=
  match t.resolve path with
  | .ok place =>
    match t.node? place with
    | some (.file content _ _) => some content
    | _ => none
  | .error _ => none

theorem content?_eq_some_iff {path : List String} {content : ByteArray} :
    t.content? path = some content ↔ ∃ place modified readable, t.resolve path = .ok place ∧
      t.node? place = some (.file content modified readable) := by
  unfold content?
  rcases t.resolve path with e | place
  · simp
  · rcases h : t.node? place with _ | ⟨content', modified, readable⟩ | _ | _
    · simp [h]
    · simp only [h, Except.ok.injEq, Option.some.injEq]
      constructor
      · rintro rfl
        exact ⟨place, modified, readable, rfl, h⟩
      · rintro ⟨_, modified', readable', rfl, h'⟩
        rw [h] at h'
        cases h'
        rfl
    · simp [h]
    · simp [h]

end FileTree

namespace Artifacts

open FileTree

variable {t t' : FileTree} {root dir module : String} {place found path : List String} {last : Bool}

theorem isEntry_errorsDir : FileName.IsEntry errorsDir :=
  ⟨by decide, by decide, by decide, by decide⟩

theorem isEntry_logsDir : FileName.IsEntry logsDir :=
  ⟨by decide, by decide, by decide, by decide⟩

/-- The content of the error file of a module, if there is one. -/
def errorContent? (t : FileTree) (root module : String) : Option ByteArray :=
  match FilePath.ofText (errorPath root module) with
  | .ok path => t.content? path
  | .error _ => none

/-- `dir` is no link and holds none; nothing lies in it if it is not there. -/
structure TidyDir (t : FileTree) (place : List String) (dir : String) : Prop where
  no_link : ∀ target, t.node? (place ++ [dir]) ≠ some (.link target)
  no_link_in : ∀ module target, t.node? (place ++ [dir, module]) ≠ some (.link target)
  none_in : t.node? (place ++ [dir]) = none → ∀ module, t.node? (place ++ [dir, module]) = none

/-- The directories for the files that tell of modules hold no links. -/
structure Tidy (t : FileTree) (root : String) : Prop where
  errors : ∀ place, t.RootAt root place → TidyDir t place errorsDir
  logs : ∀ place, t.RootAt root place → TidyDir t place logsDir

/-- Where both directories are there and nothing is a link, they hold none. -/
theorem Tidy.of_no_link (hl : ∀ place target, t.node? place ≠ some (.link target))
    (hroot : t.RootAt root place) (he : t.node? (place ++ [errorsDir]) = some .dir)
    (hg : t.node? (place ++ [logsDir]) = some .dir) : Tidy t root := by
  have hdir {dir : String} (hd : t.node? (place ++ [dir]) = some .dir) : TidyDir t place dir :=
    ⟨fun target => hl _ target, fun module target => hl _ target, fun hn => by
      rw [hd] at hn
      cases hn⟩
  refine ⟨fun place' h => ?_, fun place' h => ?_⟩ <;> cases h.unique hroot
  · exact hdir he
  · exact hdir hg

/-- Where a file of a module is looked for. -/
theorem walk_artifact (hroot : t.RootAt root place) (htidy : TidyDir t place dir)
    (hd : FileName.IsEntry dir) (hshort : FileName.tooLong dir = false)
    (hm : FileName.IsEntry module) :
    t.walk last maxLinks [] (FilePath.names root ++ [dir, module]) = .ok found ↔
      t.node? (place ++ [dir]) = some .dir ∧ FileName.tooLong module = false ∧
        found = place ++ [dir, module] := by
  obtain ⟨links, hw⟩ := hroot.walk_below last (List.cons_ne_nil dir [module])
  have hin : ∀ target, t.node? ((place ++ [dir]) ++ [module]) ≠ some (.link target) := by
    simpa using htidy.no_link_in module
  rw [hw, walk_cons links hd htidy.no_link, if_neg (by simp [hshort]),
    if_neg (List.cons_ne_nil _ _)]
  unfold goOn
  split
  · rename_i h
    rw [walk_cons links hm hin]
    by_cases hlong : FileName.tooLong module = true
    · simp [hlong]
    · simp [hlong, h, eq_comm]
  · rename_i h
    simp [h]
  · rename_i h _
    exact ⟨fun he => (by cases he), fun he => absurd he.1 h⟩

theorem ofText_errorPath (hm : FileName.IsEntry module)
    (hp : FilePath.ofText (errorPath root module) = .ok path) :
    path = FilePath.names root ++ [errorsDir, module] := by
  rw [FilePath.ofText_joinPath hm hp, FilePath.names_joinPath isEntry_errorsDir, List.append_assoc]
  rfl

theorem ofText_logPath (hm : FileName.IsEntry module)
    (hp : FilePath.ofText (logPath root module) = .ok path) :
    path = FilePath.names root ++ [logsDir, module] := by
  rw [FilePath.ofText_joinPath hm hp, FilePath.names_joinPath isEntry_logsDir, List.append_assoc]
  rfl

theorem errorContent?_eq_some_iff (htidy : Tidy t root) (hm : FileName.IsEntry module)
    {content : ByteArray} :
    errorContent? t root module = some content ↔
      (∃ path, FilePath.ofText (errorPath root module) = .ok path) ∧
      FileName.tooLong module = false ∧
      ∃ place modified readable, t.RootAt root place ∧ t.node? (place ++ [errorsDir]) = some .dir ∧
        t.node? (place ++ [errorsDir, module]) = some (.file content modified readable) := by
  unfold errorContent?
  rcases hp : FilePath.ofText (errorPath root module) with e | path
  · simp
  · simp only [content?_eq_some_iff, resolve, ofText_errorPath hm hp, Except.ok.injEq, exists_eq',
      true_and]
    constructor
    · rintro ⟨found, modified, readable, hw, hn⟩
      obtain ⟨place, hroot⟩ := rootAt_of_walk_below (List.cons_ne_nil _ _) hw
      obtain ⟨hdir, hshort, rfl⟩ :=
        (walk_artifact hroot (htidy.errors place hroot) isEntry_errorsDir rfl hm).1 hw
      exact ⟨hshort, place, modified, readable, hroot, hdir, hn⟩
    · rintro ⟨hshort, place, modified, readable, hroot, hdir, hn⟩
      exact ⟨_, modified, readable,
        (walk_artifact hroot (htidy.errors place hroot) isEntry_errorsDir rfl hm).2
          ⟨hdir, hshort, rfl⟩, hn⟩

/-! ## What a change does -/

/-- No directory and no link. -/
def IsLeaf (node : Option FileNode) : Prop :=
  ∀ n, node = some n → ∃ content modified readable, n = .file content modified readable

/-- `t'` differs from `t` at most in whether and how a file stands at `found`. -/
structure LeafChange (t t' : FileTree) (found : List String) : Prop where
  elsewhere : ∀ place, place ≠ found → t'.node? place = t.node? place
  before : IsLeaf (t.node? found)
  after : IsLeaf (t'.node? found)

theorem LeafChange.extends (h : LeafChange t t' found) : t.Extends t' := by
  intro place node hn hp
  rw [h.elsewhere place, hp]
  rintro rfl
  obtain ⟨content, modified, readable, rfl⟩ := h.before node hp
  exact hn content modified readable rfl

theorem LeafChange.put (hne : found ≠ []) (hb : IsLeaf (t.node? found)) (content : ByteArray)
    (modified : FileTime) (readable : Bool) :
    LeafChange t (t.put found (.file content modified readable)) found where
  elsewhere place hp := by rw [node?_put hne, if_neg hp]
  before := hb
  after n hn := by
    rw [node?_put hne, if_pos rfl] at hn
    exact ⟨content, modified, readable, (Option.some.inj hn).symm⟩

theorem LeafChange.erase (hne : found ≠ []) (hb : IsLeaf (t.node? found)) :
    LeafChange t { t with nodes := t.nodes.erase found } found where
  elsewhere place hp := by rw [node?_erase hne, if_neg hp]
  before := hb
  after n hn := by
    rw [node?_erase hne, if_pos rfl] at hn
    cases hn

theorem isLeaf_of_tidy (htidy : TidyDir t place dir)
    (hn : t.node? (place ++ [dir, module]) ≠ some .dir) :
    IsLeaf (t.node? (place ++ [dir, module])) := by
  intro n h
  rcases n with ⟨content, modified, readable⟩ | _ | target
  · exact ⟨content, modified, readable, rfl⟩
  · exact absurd h hn
  · exact absurd h (htidy.no_link_in module target)

theorem append_pair_ne_nil (place : List String) (a b : String) : place ++ [a, b] ≠ [] := by simp

/-- A file of a module that is written stands in its directory afterwards. -/
theorem writeWith_cases (htidy : ∀ place, t.RootAt root place → TidyDir t place dir)
    (hd : FileName.IsEntry dir) (hshort : FileName.tooLong dir = false)
    (hm : FileName.IsEntry module) {time : FileTime} {change : ByteArray → ByteArray}
    (h : t.writeWith (FilePath.names root ++ [dir, module]) time change = .ok t') :
    ∃ place, t.RootAt root place ∧ t.node? (place ++ [dir]) = some .dir ∧
      FileName.tooLong module = false ∧ LeafChange t t' (place ++ [dir, module]) ∧
      ∃ old modified readable,
        t'.node? (place ++ [dir, module]) = some (.file (change old) modified readable) := by
  have hlast : (FilePath.names root ++ [dir, module]).getLast? ≠ some "." := by
    simpa using hm.ne_dot
  simp only [writeWith, if_neg hlast] at h
  obtain ⟨found, hw, h⟩ := Except.bind_eq_ok_iff.1 h
  obtain ⟨place, hroot⟩ := rootAt_of_walk_below (List.cons_ne_nil _ _) hw
  have ht := htidy place hroot
  obtain ⟨hdir, hm', rfl⟩ := (walk_artifact hroot ht hd hshort hm).1 hw
  refine ⟨place, hroot, hdir, hm', ?_⟩
  have hne := append_pair_ne_nil place dir module
  have hleaf : t.node? (place ++ [dir, module]) ≠ some .dir →
    IsLeaf (t.node? (place ++ [dir, module])) := isLeaf_of_tidy ht
  rcases hn : t.node? (place ++ [dir, module]) with _ | ⟨old, modified, readable⟩ | _ | target <;>
    rw [hn] at h hleaf
  · simp only [Nat.lt_irrefl, ↓reduceIte] at h
    cases h
    exact ⟨.put hne (hn ▸ hleaf nofun) _ _ _, _, time, true, by rw [node?_put hne, if_pos rfl]⟩
  · simp only [Nat.lt_irrefl, ↓reduceIte] at h
    cases h
    exact ⟨.put hne (hn ▸ hleaf nofun) _ _ _, old, time, readable,
      by rw [node?_put hne, if_pos rfl]⟩
  · cases h
  · cases h

/-- A file of a module that is removed is gone afterwards. -/
theorem remove_cases (htidy : ∀ place, t.RootAt root place → TidyDir t place dir)
    (hd : FileName.IsEntry dir) (hshort : FileName.tooLong dir = false)
    (hm : FileName.IsEntry module)
    (h : t.remove (FilePath.names root ++ [dir, module]) = .ok t') :
    ∃ place, t.RootAt root place ∧ t.node? (place ++ [dir]) = some .dir ∧
      FileName.tooLong module = false ∧ LeafChange t t' (place ++ [dir, module]) ∧
      t'.node? (place ++ [dir, module]) = none := by
  obtain ⟨found, hw, h⟩ := Except.bind_eq_ok_iff.1 h
  obtain ⟨place, hroot⟩ := rootAt_of_walk_below (List.cons_ne_nil _ _) hw
  have ht := htidy place hroot
  obtain ⟨hdir, hm', rfl⟩ := (walk_artifact hroot ht hd hshort hm).1 hw
  refine ⟨place, hroot, hdir, hm', ?_⟩
  have hne := append_pair_ne_nil place dir module
  have hleaf : t.node? (place ++ [dir, module]) ≠ some .dir →
    IsLeaf (t.node? (place ++ [dir, module])) := isLeaf_of_tidy ht
  rcases hn : t.node? (place ++ [dir, module]) with _ | ⟨old, modified, readable⟩ | _ | target <;>
    rw [hn] at h hleaf
  · cases h
  · cases h
    exact ⟨.erase hne (hn ▸ hleaf nofun), by rw [node?_erase hne, if_pos rfl]⟩
  · cases h
  · exact absurd hn (ht.no_link_in module target)

/-- A file that is not found when it is to be removed does not exist. -/
theorem errorContent?_of_remove (htidy : Tidy t root) (hm : FileName.IsEntry module)
    (h : FilePath.ofText (errorPath root module) >>= t.remove = .error .notFound) :
    errorContent? t root module = none := by
  rw [Option.eq_none_iff_forall_ne_some]
  intro content hc
  obtain ⟨⟨path, hp⟩, hshort, place, modified, readable, hroot, hdir, hn⟩ :=
    (errorContent?_eq_some_iff htidy hm).1 hc
  have hw : t.resolveEntry path = .ok (place ++ [errorsDir, module]) := by
    rw [ofText_errorPath hm hp]
    exact (walk_artifact hroot (htidy.errors place hroot) isEntry_errorsDir rfl hm).2
      ⟨hdir, hshort, rfl⟩
  rw [hp] at h
  have h : t.remove path = .error .notFound := h
  simp [remove, hw, hn, bind, Except.bind, pure, Except.pure] at h

theorem ok_of_changeAt {p : String} {change : List String → Except FileError FileTree}
    (h : changeAt p change = .ok t') :
    ∃ path, FilePath.ofText p = .ok path ∧ change path = .ok t' := by
  unfold changeAt at h
  rcases hc : FilePath.ofText p >>= change with e | t''
  · rw [hc] at h
    cases h
  · rw [hc] at h
    cases h
    exact Except.bind_eq_ok_iff.1 hc

end Artifacts

/-- What a change makes of the content of the error file. -/
def ArtifactWrite.effect : ArtifactWrite → Option ByteArray → Option ByteArray
  | .writeError detail, _ => some detail.toUTF8
  | .clearError, _ => none
  | .truncateLog, old | .appendLog _, old => old

namespace Artifacts

open FileTree

variable {t t' : FileTree} {root dir module : String} {place found path : List String} {last : Bool}

/-- What a change that is possible does: it changes a log file, or it changes the error file to
what it should be, or the error file that it should remove is not there. -/
inductive Made (t t' : FileTree) (root module : String) (write : ArtifactWrite) : Prop
  | log (place : List String) : t.RootAt root place → t.node? (place ++ [logsDir]) = some .dir →
      LeafChange t t' (place ++ [logsDir, module]) → (∀ old, write.effect old = old) →
      Made t t' root module write
  | error (place : List String) : t.RootAt root place → t.node? (place ++ [errorsDir]) = some .dir →
      FileName.tooLong module = false →
      (∃ path, FilePath.ofText (errorPath root module) = .ok path) →
      LeafChange t t' (place ++ [errorsDir, module]) →
      (∀ old content, (∃ modified readable, t'.node? (place ++ [errorsDir, module]) =
        some (.file content modified readable)) ↔ write.effect old = some content) →
      Made t t' root module write
  | absent : t' = t → errorContent? t root module = none → write.effect none = none →
      Made t t' root module write

theorem made_of_make (htidy : Tidy t root) (hm : FileName.IsEntry module) {write : ArtifactWrite}
    (h : make t root module write = .ok t') : Made t t' root module write := by
  cases write with
  | truncateLog =>
    obtain ⟨path, hp, h⟩ := ok_of_changeAt h
    rw [ofText_logPath hm hp] at h
    obtain ⟨place, hroot, hdir, -, hleaf, -⟩ :=
      writeWith_cases htidy.logs isEntry_logsDir rfl hm h
    exact .log place hroot hdir hleaf fun _ => rfl
  | appendLog line =>
    obtain ⟨path, hp, h⟩ := ok_of_changeAt h
    rw [ofText_logPath hm hp] at h
    obtain ⟨place, hroot, hdir, -, hleaf, -⟩ :=
      writeWith_cases htidy.logs isEntry_logsDir rfl hm h
    exact .log place hroot hdir hleaf fun _ => rfl
  | writeError detail =>
    obtain ⟨path, hp, h⟩ := ok_of_changeAt h
    have hp' := ofText_errorPath hm hp
    rw [hp'] at h
    obtain ⟨place, hroot, hdir, hshort, hleaf, old, modified, readable, hn⟩ :=
      writeWith_cases htidy.errors isEntry_errorsDir rfl hm h
    refine .error place hroot hdir hshort ⟨path, hp⟩ hleaf fun _ content => ?_
    simp [hn, ArtifactWrite.effect]
  | clearError =>
    unfold make clearError at h
    dsimp only at h
    split at h
    · rename_i t'' hr
      cases h
      obtain ⟨path, hp, hr⟩ := Except.bind_eq_ok_iff.1 hr
      have hp' := ofText_errorPath hm hp
      rw [hp'] at hr
      obtain ⟨place, hroot, hdir, hshort, hleaf, hn⟩ :=
        remove_cases htidy.errors isEntry_errorsDir rfl hm hr
      refine .error place hroot hdir hshort ⟨path, hp⟩ hleaf fun _ content => ?_
      simp [hn, ArtifactWrite.effect]
    · rename_i hr
      cases h
      exact .absent rfl (errorContent?_of_remove htidy hm hr) rfl
    · cases h

theorem TidyDir.leafChange {dir' : String} (h : TidyDir t place dir)
    (hc : LeafChange t t' (place ++ [dir', module]))
    (hdir : t.node? (place ++ [dir']) = some .dir) : TidyDir t' place dir := by
  have hself (d : String) : t'.node? (place ++ [d]) = t.node? (place ++ [d]) :=
    hc.elsewhere _ (by simp)
  refine ⟨fun target => ?_, fun module' target hn => ?_, fun hn module' => ?_⟩
  · rw [hself]
    exact h.no_link target
  · by_cases he : place ++ [dir, module'] = place ++ [dir', module]
    · rw [he] at hn
      obtain ⟨_, _, _, hf⟩ := hc.after _ hn
      cases hf
    · rw [hc.elsewhere _ he] at hn
      exact h.no_link_in module' target hn
  · rw [hself] at hn
    rw [hc.elsewhere, h.none_in hn]
    intro he
    have he : dir = dir' ∧ module' = module := by simpa using he
    rw [he.1, hdir] at hn
    cases hn

/-- A change of a file elsewhere leaves the error file of a module alone. -/
theorem errorContent?_leafChange (htidy : Tidy t root) (htidy' : Tidy t' root)
    (hroot : t.RootAt root place) (hc : LeafChange t t' found) (hm : FileName.IsEntry module)
    (hne : place ++ [errorsDir, module] ≠ found) (hdir : place ++ [errorsDir] ≠ found) :
    errorContent? t' root module = errorContent? t root module := by
  have hroot' := hroot.mono hc.extends
  refine Option.ext fun content => ?_
  rw [errorContent?_eq_some_iff htidy' hm, errorContent?_eq_some_iff htidy hm]
  refine and_congr_right fun _ => and_congr_right fun _ => ?_
  constructor
  · rintro ⟨place', modified, readable, hr, hd, hn⟩
    cases hr.unique hroot'
    rw [hc.elsewhere _ hdir] at hd
    rw [hc.elsewhere _ hne] at hn
    exact ⟨place, modified, readable, hroot, hd, hn⟩
  · rintro ⟨place', modified, readable, hr, hd, hn⟩
    cases hr.unique hroot
    rw [← hc.elsewhere _ hdir] at hd
    rw [← hc.elsewhere _ hne] at hn
    exact ⟨place, modified, readable, hroot', hd, hn⟩

theorem Made.tidy {write : ArtifactWrite} (h : Made t t' root module write) (htidy : Tidy t root) :
    Tidy t' root := by
  have leaf {place : List String} {dir : String} (hroot : t.RootAt root place)
      (hdir : t.node? (place ++ [dir]) = some .dir)
      (hc : LeafChange t t' (place ++ [dir, module])) : Tidy t' root := by
    refine ⟨fun place' hr => ?_, fun place' hr => ?_⟩ <;> cases hr.unique (hroot.mono hc.extends)
    · exact (htidy.errors _ hroot).leafChange hc hdir
    · exact (htidy.logs _ hroot).leafChange hc hdir
  cases h with
  | log place hroot hdir hc _ => exact leaf hroot hdir hc
  | error place hroot hdir _ _ hc _ => exact leaf hroot hdir hc
  | absent he _ _ => exact he ▸ htidy

/-- A change has its effect on the error file of its module and none on those of others. -/
theorem Made.errorContent? {write : ArtifactWrite} (h : Made t t' root module write)
    (htidy : Tidy t root) (hm : FileName.IsEntry module) {module' : String}
    (hm' : FileName.IsEntry module') :
    errorContent? t' root module' =
      if module' = module then write.effect (errorContent? t root module')
      else errorContent? t root module' := by
  have htidy' := h.tidy htidy
  cases h with
  | log place hroot hdir hc he =>
    rw [he, ite_self]
    refine errorContent?_leafChange htidy htidy' hroot hc hm' ?_ (by simp)
    simp [errorsDir, logsDir]
  | error place hroot hdir hshort hpath hc he =>
    split
    · rename_i hmod
      subst hmod
      refine Option.ext fun content => ?_
      rw [errorContent?_eq_some_iff htidy' hm', ← he]
      constructor
      · rintro ⟨-, -, place', modified, readable, hr, -, hn⟩
        cases hr.unique (hroot.mono hc.extends)
        exact ⟨modified, readable, hn⟩
      · rintro ⟨modified, readable, hn⟩
        refine ⟨hpath, hshort, place, modified, readable, hroot.mono hc.extends, ?_, hn⟩
        rw [hc.elsewhere _ (by simp), hdir]
    · rename_i hmod
      exact errorContent?_leafChange htidy htidy' hroot hc hm' (by simpa using hmod) (by simp)
  | absent ht hnone he =>
    subst ht
    split
    · rename_i hmod
      rw [hmod, hnone, he]
    · rfl

/-! ## Making the directories -/

/-- `t'` is `t`, or `t` with a directory at `found` where there was nothing. -/
def DirEnsured (t t' : FileTree) (found : List String) : Prop :=
  t' = t ∨ (t.node? found = none ∧
    ∀ place, t'.node? place = if place = found then some .dir else t.node? place)

theorem DirEnsured.extends (h : DirEnsured t t' found) : t.Extends t' := by
  rcases h with rfl | ⟨hnone, hp⟩
  · exact fun _ _ _ => id
  · intro place node _ hn
    rw [hp, if_neg, hn]
    rintro rfl
    rw [hnone] at hn
    cases hn

theorem DirEnsured.tidyDir {dir' : String} (h : DirEnsured t t' (place ++ [dir']))
    (htidy : TidyDir t place dir) : TidyDir t' place dir := by
  rcases h with rfl | ⟨hnone, hp⟩
  · exact htidy
  · have hin (module : String) : t'.node? (place ++ [dir, module]) =
        t.node? (place ++ [dir, module]) := by rw [hp, if_neg (by simp)]
    refine ⟨fun target => ?_, fun module target => ?_, fun hn module => ?_⟩
    · rw [hp]
      split
      · exact nofun
      · exact htidy.no_link target
    · rw [hin]
      exact htidy.no_link_in module target
    · rw [hp] at hn
      split at hn
      · cases hn
      · rw [hin, htidy.none_in hn]

theorem DirEnsured.tidy (h : DirEnsured t t' (place ++ [dir])) (hroot : t.RootAt root place)
    (htidy : Tidy t root) : Tidy t' root := by
  refine ⟨fun place' hr => ?_, fun place' hr => ?_⟩ <;> cases hr.unique (hroot.mono h.extends)
  · exact h.tidyDir (htidy.errors _ hroot)
  · exact h.tidyDir (htidy.logs _ hroot)

theorem DirEnsured.errorContent? (h : DirEnsured t t' (place ++ [dir]))
    (hroot : t.RootAt root place) (htidy : Tidy t root) (hm : FileName.IsEntry module) :
    errorContent? t' root module = errorContent? t root module := by
  have htidy' := h.tidy hroot htidy
  have hroot' := hroot.mono h.extends
  refine Option.ext fun content => ?_
  rw [errorContent?_eq_some_iff htidy' hm, errorContent?_eq_some_iff htidy hm]
  refine and_congr_right fun _ => and_congr_right fun _ => ?_
  have hin : t'.node? (place ++ [errorsDir, module]) = t.node? (place ++ [errorsDir, module]) := by
    rcases h with rfl | ⟨-, hp⟩
    · rfl
    · rw [hp, if_neg (by simp)]
  constructor
  · rintro ⟨place', modified, readable, hr, hd, hn⟩
    cases hr.unique hroot'
    rw [hin] at hn
    rcases hdir : t.node? (place ++ [errorsDir]) with _ | node
    · rw [(htidy.errors place hroot).none_in hdir] at hn
      cases hn
    · refine ⟨place, modified, readable, hroot, ?_, hn⟩
      rcases h with rfl | ⟨hnone, hp⟩
      · exact hd
      · rw [hp, if_neg] at hd
        · exact hd
        · rintro he
          rw [← he, hdir] at hnone
          cases hnone
  · rintro ⟨place', modified, readable, hr, hd, hn⟩
    cases hr.unique hroot
    rw [← hin] at hn
    exact ⟨place, modified, readable, hroot',
      h.extends _ _ (fun _ _ _ => FileNode.noConfusion) hd, hn⟩

/-- Below a root that is there, to make a directory makes one at most. -/
theorem makeDirs_below (hroot : t.RootAt root place) (hd : FileName.IsEntry dir)
    (hshort : FileName.tooLong dir = false) : t.makeDirs (FilePath.names root ++ [dir]) =
      if (t.node? (place ++ [dir])).isNone then .ok (t.put (place ++ [dir]) .dir)
      else if t.isDir (FilePath.names root ++ [dir]) then .ok t else .error .exists := by
  obtain ⟨links, hw⟩ := hroot.walk_below false (List.cons_ne_nil dir [])
  rw [walk_entry links hd, if_neg (by simp [hshort])] at hw
  have hlast : (FilePath.names root ++ [dir]).getLast? ≠ some "." := by simpa using hd.ne_dot
  have hrev : (dir :: (FilePath.names root).reverse).reverse = FilePath.names root ++ [dir] := by
    simp
  rw [makeDirs, List.reverse_append, List.reverse_singleton, List.singleton_append, makeDirsFrom,
    hrev]
  rcases hn : t.node? (place ++ [dir]) with _ | node
  · have hmake : t.makeDir (FilePath.names root ++ [dir]) = .ok (t.put (place ++ [dir]) .dir) := by
      simp only [makeDir, if_neg hlast, resolveEntry, hw, bind, Except.bind, hn]
      rfl
    rw [hmake]
    rfl
  · have hmake : t.makeDir (FilePath.names root ++ [dir]) = .error .exists := by
      simp only [makeDir, if_neg hlast, resolveEntry, hw, bind, Except.bind, hn]
      rfl
    rw [hmake]
    rfl

theorem dirEnsured_of_makeDirs (hroot : t.RootAt root place) (hd : FileName.IsEntry dir)
    (hshort : FileName.tooLong dir = false)
    (h : t.makeDirs (FilePath.names root ++ [dir]) = .ok t') :
    DirEnsured t t' (place ++ [dir]) := by
  rw [makeDirs_below hroot hd hshort] at h
  split_ifs at h with hn
  · cases h
    exact .inr ⟨Option.isNone_iff_eq_none.1 hn, fun p => node?_put (by simp) _⟩
  · exact .inl (Except.ok.inj h).symm

theorem dirEnsured_of_changeAt (hroot : t.RootAt root place) (hd : FileName.IsEntry dir)
    (hshort : FileName.tooLong dir = false)
    (h : changeAt (joinPath root dir) (fun p => if t.isDir p then .ok t else t.makeDirs p) =
      .ok t') :
    DirEnsured t t' (place ++ [dir]) := by
  obtain ⟨path, hp, h⟩ := ok_of_changeAt h
  split at h
  · exact .inl (Except.ok.inj h).symm
  · rw [FilePath.ofText_joinPath hd hp] at h
    exact dirEnsured_of_makeDirs hroot hd hshort h

/-- What each directory that is made keeps holds when both are made, or the first one. -/
theorem ensureDirs_induction {P : FileTree → Prop} (h : P t)
    (hstep : ∀ t t' dir, dir = errorsDir ∨ dir = logsDir → P t →
      changeAt (joinPath root dir) (fun p => if t.isDir p then .ok t else t.makeDirs p) = .ok t' →
      P t') : P (ensureDirs t root).1 := by
  simp only [ensureDirs, ensureDirs.make]
  split
  · rename_i t₁ h₁
    have ht₁ := hstep t t₁ errorsDir (.inl rfl) h h₁
    split
    · rename_i t₂ h₂
      exact hstep t₁ t₂ logsDir (.inr rfl) ht₁ h₂
    · exact ht₁
  · exact h

/-- `t'` differs from `t` only in the two directories and in what is in them; what was a directory
or a link still is. -/
structure Confined (t t' : FileTree) (place : List String) : Prop where
  ways : t.Extends t'
  elsewhere : ∀ p, ¬ place ++ [errorsDir] <+: p → ¬ place ++ [logsDir] <+: p →
    t'.node? p = t.node? p

namespace Confined

theorem refl : Confined t t place := ⟨fun _ _ _ => id, fun _ _ _ => rfl⟩

theorem trans {t'' : FileTree} (h : Confined t t' place) (h' : Confined t' t'' place) :
    Confined t t'' place :=
  ⟨fun p n hn hp => h'.ways p n hn (h.ways p n hn hp),
    fun p he hl => (h'.elsewhere p he hl).trans (h.elsewhere p he hl)⟩

theorem of_leafChange (hd : dir = errorsDir ∨ dir = logsDir)
    (h : LeafChange t t' (place ++ [dir, module])) : Confined t t' place := by
  refine ⟨h.extends, fun p he hl => h.elsewhere p ?_⟩
  rintro rfl
  rcases hd with rfl | rfl
  · exact he (by simp)
  · exact hl (by simp)

theorem of_dirEnsured (hd : dir = errorsDir ∨ dir = logsDir)
    (h : DirEnsured t t' (place ++ [dir])) : Confined t t' place := by
  refine ⟨h.extends, fun p he hl => ?_⟩
  rcases h with rfl | ⟨-, hp⟩
  · rfl
  · rw [hp, if_neg]
    rintro rfl
    rcases hd with rfl | rfl
    · exact he (List.prefix_refl _)
    · exact hl (List.prefix_refl _)

end Confined

theorem Made.confined {write : ArtifactWrite} (h : Made t t' root module write)
    (hroot : t.RootAt root place) : Confined t t' place := by
  cases h with
  | log place' hr _ hc _ =>
    cases hr.unique hroot
    exact .of_leafChange (.inr rfl) hc
  | error place' hr _ _ _ hc _ =>
    cases hr.unique hroot
    exact .of_leafChange (.inl rfl) hc
  | absent he _ _ => exact he ▸ .refl

theorem dirEnsured_of_artifactDir (hroot : t.RootAt root place)
    (hd : dir = errorsDir ∨ dir = logsDir)
    (h : changeAt (joinPath root dir) (fun p => if t.isDir p then .ok t else t.makeDirs p) =
      .ok t') : DirEnsured t t' (place ++ [dir]) := by
  rcases hd with rfl | rfl
  · exact dirEnsured_of_changeAt hroot isEntry_errorsDir rfl h
  · exact dirEnsured_of_changeAt hroot isEntry_logsDir rfl h

/-- To make the directories below a root that is there changes nothing else. -/
theorem ensureDirs_rootAt (hroot : t.RootAt root place) :
    (ensureDirs t root).1.RootAt root place ∧ Confined t (ensureDirs t root).1 place := by
  refine ensureDirs_induction (P := fun t' => t'.RootAt root place ∧ Confined t t' place)
    ⟨hroot, .refl⟩ ?_
  rintro t₁ t₂ dir hd ⟨hroot, hc⟩ h
  have hdir := dirEnsured_of_artifactDir hroot hd h
  exact ⟨hroot.mono hdir.extends, hc.trans (.of_dirEnsured hd hdir)⟩

/-- Where the directories hold no links, no error file changes when they are made. -/
theorem ensureDirs_confined (hroot : t.RootAt root place) (htidy : Tidy t root) :
    Tidy (ensureDirs t root).1 root ∧ Confined t (ensureDirs t root).1 place ∧
      ∀ module, FileName.IsEntry module →
        errorContent? (ensureDirs t root).1 root module = errorContent? t root module := by
  suffices (ensureDirs t root).1.RootAt root place ∧ Tidy (ensureDirs t root).1 root ∧
      ∀ module, FileName.IsEntry module →
        errorContent? (ensureDirs t root).1 root module = errorContent? t root module from
    ⟨this.2.1, (ensureDirs_rootAt hroot).2, this.2.2⟩
  refine ensureDirs_induction (P := fun t' => t'.RootAt root place ∧ Tidy t' root ∧
    ∀ module, FileName.IsEntry module →
      errorContent? t' root module = errorContent? t root module)
    ⟨hroot, htidy, fun _ _ => rfl⟩ ?_
  rintro t₁ t₂ dir hd ⟨hroot, htidy, he⟩ h
  have hdir := dirEnsured_of_artifactDir hroot hd h
  exact ⟨hroot.mono hdir.extends, hdir.tidy hroot htidy,
    fun module hm => (hdir.errorContent? hroot htidy hm).trans (he module hm)⟩

end Artifacts

end LiveModules
