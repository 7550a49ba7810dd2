import LiveModules.Proofs.Leaves
import LiveModules.Proofs.Loads

/-!
# Writing once more

To write a file anew leads no path elsewhere, so where the next writes go is known before it
(`sink?_put`); to remove one leads elsewhere only what ran over it (`walk_of_erase`). So the files
are the same after the changes of a load and after those of a second one (`editAll_repeat`), unless
the way to the error file leads over that file itself (`ClearWay`).
-/

namespace LiveModules

open Artifacts

theorem Artifacts.isLeaf_iff {node : Option FileNode} : IsLeaf node ↔
    node = none ∨ ∃ content modified readable, node = some (.file content modified readable) := by
  rcases node with _ | node
  · exact ⟨fun _ => .inl rfl, fun _ _ h => by cases h⟩
  constructor
  · intro h
    obtain ⟨content, modified, readable, rfl⟩ := h node rfl
    exact .inr ⟨content, modified, readable, rfl⟩
  · rintro (h | ⟨content, modified, readable, h⟩) n hn
    · cases h
    · exact ⟨content, modified, readable, Option.some.inj (hn.symm.trans h)⟩

namespace FileTree

variable {t t' : FileTree} {last : Bool} {place found path : List String}

/-! ## Ways -/

section Names

variable {follow follow' : List String → List String → Except FileError (List String)}
  {base names : List String} {name : String}

/-- Where neither a directory nor a link stands, a walk ends. -/
theorem walkNames_of_leaf (hdot : name ≠ ".") (hdots : name ≠ "..")
    (hlong : ¬ FileName.tooLong name = true) (hl : IsLeaf (t.node? (base ++ [name]))) :
    t.walkNames last follow base (name :: names) = .ok place ↔
      names = [] ∧ base ++ [name] = place := by
  simp only [walkNames, if_neg hdot, if_neg hdots, if_neg hlong]
  rcases isLeaf_iff.1 hl with hn | ⟨content, modified, readable, hn⟩ <;>
  · rw [hn]
    dsimp only
    split_ifs with hnil
    · exact ⟨fun h => ⟨hnil, Except.ok.inj h⟩, fun h => congrArg _ h.2⟩
    · exact ⟨fun h => (by cases h), fun h => absurd h.1 hnil⟩

/-- In a tree with the same directories and links and more, a walk ends at the same place, unless
something stands now where it ended. -/
theorem walkNames_within {spot : List String → Prop} (he : t.Extends t')
    (hs : ∀ p, IsLeaf (t.node? p) → ¬ spot p → IsLeaf (t'.node? p))
    (hf : ∀ base names, follow base names = .ok place →
      spot place ∨ follow' base names = .ok place) : ∀ names base,
      t.walkNames last follow base names = .ok place →
        spot place ∨ t'.walkNames last follow' base names = .ok place := by
  intro names
  induction names with
  | nil => exact fun _ h => .inr h
  | cons name names ih =>
    intro base hw
    by_cases hdot : name = "."
    · simp only [walkNames, if_pos hdot] at hw ⊢
      exact ih _ hw
    by_cases hdots : name = ".."
    · simp only [walkNames, if_neg hdot, if_pos hdots] at hw ⊢
      exact ih _ hw
    by_cases hlong : FileName.tooLong name = true
    · simp only [walkNames, if_neg hdot, if_neg hdots, if_pos hlong] at hw
      cases hw
    by_cases hl : IsLeaf (t.node? (base ++ [name]))
    · obtain ⟨hnil, hp⟩ := (walkNames_of_leaf hdot hdots hlong hl).1 hw
      by_cases hspot : spot (base ++ [name])
      · exact .inl (hp ▸ hspot)
      · exact .inr ((walkNames_of_leaf hdot hdots hlong (hs _ hl hspot)).2 ⟨hnil, hp⟩)
    simp only [walkNames, if_neg hdot, if_neg hdots, if_neg hlong] at hw ⊢
    rcases hn : t.node? (base ++ [name]) with _ | ⟨content, modified, readable⟩ | _ | target
    · exact absurd (isLeaf_iff.2 (.inl hn)) hl
    · exact absurd (isLeaf_iff.2 (.inr ⟨_, _, _, hn⟩)) hl
    · rw [hn] at hw
      rw [he _ _ (fun _ _ _ => FileNode.noConfusion) hn]
      exact ih _ hw
    · rw [hn] at hw
      rw [he _ _ (fun _ _ _ => FileNode.noConfusion) hn]
      dsimp only at hw ⊢
      by_cases hstop : names = [] ∧ (!last) = true
      · rw [if_pos hstop] at hw ⊢
        exact .inr hw
      · rw [if_neg hstop] at hw ⊢
        exact hf _ _ hw

end Names

theorem walk_within (spot : List String → Prop) (he : t.Extends t')
    (hs : ∀ p, IsLeaf (t.node? p) → ¬ spot p → IsLeaf (t'.node? p)) : ∀ links base names,
      t.walk last links base names = .ok place →
        spot place ∨ t'.walk last links base names = .ok place
  | 0, base, names => walkNames_within he hs (fun _ _ hw => by cases hw) names base
  | links + 1, base, names => walkNames_within he hs (walk_within spot he hs links) names base

/-- Both trees have the same directories and links. -/
structure SameWays (t t' : FileTree) : Prop where
  there : t.Extends t'
  back : t'.Extends t

namespace SameWays

theorem symm (h : SameWays t t') : SameWays t' t := ⟨h.back, h.there⟩

theorem isLeaf (h : SameWays t t') {p : List String} (hl : IsLeaf (t.node? p)) :
    IsLeaf (t'.node? p) := by
  intro node hn
  by_contra hnot
  have hfile : ∀ content modified readable, node ≠ .file content modified readable :=
    fun content modified readable he => hnot ⟨content, modified, readable, he⟩
  exact hnot (hl node (h.back p node hfile hn))

theorem walk_mp (h : SameWays t t') {links : Nat} {base names : List String}
    (hw : t.walk last links base names = .ok place) : t'.walk last links base names = .ok place :=
  (walk_within (fun _ => False) h.there (fun _ hl _ => h.isLeaf hl) links base names
    hw).resolve_left id

/-- Where the ways are the same, every path leads to the same place. -/
theorem walk_iff (h : SameWays t t') {links : Nat} {base names : List String} :
    t'.walk last links base names = .ok place ↔ t.walk last links base names = .ok place :=
  ⟨h.symm.walk_mp, h.walk_mp⟩

theorem resolve_toOption (h : SameWays t t') (path : List String) :
    (t'.resolve path).toOption = (t.resolve path).toOption := by
  refine Option.ext fun place => ?_
  have hiff : t'.resolve path = .ok place ↔ t.resolve path = .ok place := h.walk_iff
  rcases hr : t.resolve path with e | p <;> rcases hr' : t'.resolve path with e' | p' <;>
    simp_all [Except.toOption]

end SameWays

/-- The root is a directory. -/
theorem ne_nil_of_isLeaf (hl : IsLeaf (t.node? place)) : place ≠ [] := by
  rintro rfl
  obtain ⟨_, _, _, h⟩ := hl .dir rfl
  cases h

theorem ne_nil_of_node? {node : FileNode} (hn : t.node? place = some node) (hd : node ≠ .dir) :
    place ≠ [] := by
  rintro rfl
  exact hd (Option.some.inj hn).symm

theorem sameWays_put {content : ByteArray} {modified : FileTime} {readable : Bool}
    (hl : IsLeaf (t.node? place)) : SameWays t (t.put place (.file content modified readable)) := by
  have hne := ne_nil_of_isLeaf hl
  constructor
  · intro p node hf hn
    rw [node?_put hne, if_neg]
    · exact hn
    · rintro rfl
      obtain ⟨_, _, _, rfl⟩ := hl node hn
      exact hf _ _ _ rfl
  · intro p node hf hn
    rw [node?_put hne] at hn
    split at hn
    · exact absurd (Option.some.inj hn).symm (hf _ _ _)
    · exact hn

/-- The tree without what stands at a place. -/
def erase (t : FileTree) (place : List String) : FileTree :=
  { t with nodes := t.nodes.erase place }

theorem SameWays.erase (h : SameWays t t') (hne : place ≠ []) :
    SameWays (t.erase place) (t'.erase place) := by
  have half {t t' : FileTree} (h : t.Extends t') : (t.erase place).Extends (t'.erase place) := by
    intro p node hf hn
    rw [FileTree.erase, node?_erase hne] at hn ⊢
    split at hn
    · cases hn
    · rename_i hp
      rw [if_neg hp]
      exact h p node hf hn
  exact ⟨half h.there, half h.back⟩

theorem extends_of_erase (hne : place ≠ []) : (t.erase place).Extends t := by
  intro p node _ hn
  rw [erase, node?_erase hne] at hn
  split at hn
  · cases hn
  · exact hn

theorem sameWays_erase (hl : IsLeaf (t.node? place)) : SameWays t (t.erase place) := by
  have hne := ne_nil_of_isLeaf hl
  refine ⟨fun p node hf hn => ?_, extends_of_erase hne⟩
  rw [erase, node?_erase hne, if_neg]
  · exact hn
  · rintro rfl
    obtain ⟨_, _, _, rfl⟩ := hl node hn
    exact hf _ _ _ rfl

/-- A path that leads anywhere without what stood at a place leads there with it, or to the place
itself. -/
theorem walk_of_erase (hne : found ≠ []) {links : Nat} {base names : List String}
    (h : (t.erase found).walk last links base names = .ok place) :
    place = found ∨ t.walk last links base names = .ok place := by
  refine walk_within (· = found) (extends_of_erase hne) (fun p hl hp => ?_) links base names h
  rwa [erase, node?_erase hne, if_neg hp] at hl

/-! ## Writes -/

/-- The place that a write along a path goes to, and whether the file there may be read then. -/
def sink? (t : FileTree) (path : List String) : Option (List String × Bool) :=
  if path.getLast? = some "." then none
  else (t.resolve path).toOption.bind fun place =>
    match t.node? place with
    | none => some (place, true)
    | some (.file _ _ readable) => some (place, readable)
    | _ => none

/-- What the file at a place holds. -/
def held (t : FileTree) (place : List String) : ByteArray :=
  match t.node? place with
  | some (.file content _ _) => content
  | _ => .empty

theorem writeWith_toOption (time : FileTime) (change : ByteArray → ByteArray) :
    (t.writeWith path time change).toOption =
      (t.sink? path).map fun s => t.put s.1 (.file (change (t.held s.1)) time s.2) := by
  unfold writeWith sink?
  by_cases hdot : path.getLast? = some "."
  · have hlt : path.dropLast.length < path.length := by
      rw [List.length_dropLast]
      have : path ≠ [] := by
        rintro rfl
        cases hdot
      have := List.length_pos_of_ne_nil this
      omega
    simp only [hdot, ↓reduceIte, Option.map_none, hlt]
    rcases t.resolve path.dropLast with e | p
    · rfl
    · rcases hn : t.node? p with _ | _ | _ | _ <;> simp only [bind, Except.bind, hn] <;> rfl
  · simp only [hdot, ↓reduceIte, Nat.lt_irrefl]
    rcases t.resolve path with e | p
    · rfl
    · rcases hn : t.node? p with _ | _ | _ | _ <;>
        simp only [bind, Except.bind, hn, Except.toOption, Option.bind_some, Option.map_some,
          Option.map_none, held, pure, Except.pure, throw, throwThe, MonadExceptOf.throw]

variable {readable : Bool}

theorem sink?_eq_some_iff : t.sink? path = some (place, readable) ↔
    path.getLast? ≠ some "." ∧ t.resolve path = .ok place ∧
      (t.node? place = none ∧ readable = true ∨
        ∃ content modified, t.node? place = some (.file content modified readable)) := by
  unfold sink?
  split
  · rename_i hdot
    exact ⟨nofun, fun h => absurd hdot h.1⟩
  · rename_i hdot
    rcases hr : t.resolve path with e | p
    · simp [Except.toOption]
    · rcases hn : t.node? p with _ | ⟨content, modified, readable'⟩ | _ | _ <;>
        simp only [Except.toOption, Option.bind_some, hn] <;> grind

theorem isLeaf_sink (h : t.sink? path = some (place, readable)) : IsLeaf (t.node? place) := by
  obtain ⟨-, -, ⟨hn, -⟩ | ⟨content, modified, hn⟩⟩ := sink?_eq_some_iff.1 h
  · exact isLeaf_iff.2 (.inl hn)
  · exact isLeaf_iff.2 (.inr ⟨_, _, _, hn⟩)

theorem sink_ne_nil (h : t.sink? path = some (place, readable)) : place ≠ [] :=
  ne_nil_of_isLeaf (isLeaf_sink h)

/-- A write makes no difference to where writes go. -/
theorem sink?_put (h : t.sink? path = some (place, readable)) (content : ByteArray)
    (modified : FileTime) (path' : List String) :
    (t.put place (.file content modified readable)).sink? path' = t.sink? path' := by
  have hways : SameWays t (t.put place (.file content modified readable)) :=
    sameWays_put (isLeaf_sink h)
  have hne := sink_ne_nil h
  unfold sink?
  rw [hways.resolve_toOption]
  rcases (t.resolve path').toOption with _ | p
  · rfl
  simp only [Option.bind_some, node?_put hne]
  by_cases hp : p = place
  · obtain ⟨-, -, ⟨hn, rfl⟩ | ⟨old, time, hn⟩⟩ := sink?_eq_some_iff.1 h <;>
      simp only [hp, hn, ↓reduceIte]
  · rw [if_neg hp]

end FileTree

namespace Artifacts

open FileTree

variable {t t' : FileTree} {root module p p' : String} {place : List String} {readable : Bool}

/-- Where a write to a file goes. -/
def target? (t : FileTree) (p : String) : Option (List String × Bool) :=
  (FilePath.ofText p).toOption.bind t.sink?

/-- The tree with a file written anew; one that cannot be written leaves it. -/
def filed (t : FileTree) (p : String) (content : ByteArray) : FileTree :=
  match target? t p with
  | some (place, readable) => t.put place (.file content t.stamp readable)
  | none => t

theorem filed_cases (t : FileTree) (p : String) :
    (target? t p = none ∧ ∀ content, filed t p content = t) ∨
    ∃ place readable, target? t p = some (place, readable) ∧
      ∀ content, filed t p content = t.put place (.file content t.stamp readable) := by
  unfold filed
  rcases h : target? t p with _ | ⟨place, readable⟩
  · exact .inl ⟨rfl, fun _ => rfl⟩
  · exact .inr ⟨place, readable, rfl, fun _ => rfl⟩

theorem filed_of_target (h : target? t p = some (place, readable)) (content : ByteArray) :
    filed t p content = t.put place (.file content t.stamp readable) := by
  rw [filed, h]

theorem filed_of_none (h : target? t p = none) (content : ByteArray) : filed t p content = t := by
  rw [filed, h]

theorem exists_sink (h : target? t p = some (place, readable)) :
    ∃ path, FilePath.ofText p = .ok path ∧ t.sink? path = some (place, readable) := by
  obtain ⟨path, hp, hs⟩ := Option.bind_eq_some_iff.1 h
  rcases ht : FilePath.ofText p with e | path'
  · rw [ht] at hp
    cases hp
  · rw [ht] at hp
    cases hp
    exact ⟨path, rfl, hs⟩

theorem filed_stamp (t : FileTree) (p : String) (content : ByteArray) :
    (filed t p content).stamp = t.stamp := by
  rcases filed_cases t p with ⟨-, h⟩ | ⟨place, readable, -, h⟩
  · rw [h]
  · rw [h]
    rfl

theorem target?_filed (t : FileTree) (p p' : String) (content : ByteArray) :
    target? (filed t p content) p' = target? t p' := by
  rcases filed_cases t p with ⟨-, h⟩ | ⟨place, readable, hs, h⟩ <;> rw [h]
  obtain ⟨path, -, hs⟩ := exists_sink hs
  exact congrArg (Option.bind _) (funext (sink?_put hs content t.stamp))

theorem sameWays_filed (t : FileTree) (p : String) (content : ByteArray) :
    SameWays t (filed t p content) := by
  rcases filed_cases t p with ⟨-, h⟩ | ⟨place, readable, hs, h⟩ <;> rw [h]
  · exact ⟨fun _ _ _ => id, fun _ _ _ => id⟩
  · obtain ⟨path, -, hs⟩ := exists_sink hs
    exact sameWays_put (isLeaf_sink hs)

theorem put_put (t : FileTree) (place : List String) (node node' : FileNode) :
    (t.put place node).put place node' = t.put place node' :=
  congrArg (FileTree.mk · t.stamp) (Table.insert_insert t.nodes place node node')

/-- What was written there before makes no difference. -/
theorem filed_filed (t : FileTree) (p : String) (content content' : ByteArray) :
    filed (filed t p content) p content' = filed t p content' := by
  rcases filed_cases t p with ⟨-, h⟩ | ⟨place, readable, hs, h⟩
  · rw [h, h]
  · have hs' := target?_filed t p p content
    rw [hs] at hs'
    rw [filed, hs', filed_stamp, h, h]
    exact put_put ..

/-! ## The changes of a load -/

theorem edited_eq_of_write {write : ArtifactWrite} (change : ByteArray → ByteArray)
    (hw : ∀ path, perform t path write = t.writeWith path t.stamp change) (module : String) :
    edited root t (module, write) =
      match target? t (joinPath (joinPath root write.dir) module) with
      | some (place, readable) => t.put place (.file (change (t.held place)) t.stamp readable)
      | none => t := by
  rw [edited_eq, target?]
  rcases FilePath.ofText (joinPath (joinPath root write.dir) module) with e | path
  · rfl
  · show (perform t path write).toOption.getD t = _
    rw [hw, writeWith_toOption]
    show _ = match t.sink? path with
      | some (place, readable) => _
      | none => t
    cases t.sink? path <;> rfl

theorem edited_truncateLog (t : FileTree) (root module : String) :
    edited root t (module, .truncateLog) = filed t (logPath root module) .empty :=
  edited_eq_of_write (fun _ => .empty) (fun _ => rfl) module

theorem edited_writeError (t : FileTree) (root module detail : String) :
    edited root t (module, .writeError detail) = filed t (errorPath root module) detail.toUTF8 :=
  edited_eq_of_write (fun _ => detail.toUTF8) (fun _ => rfl) module

/-- A line goes behind what was written. -/
theorem edited_appendLog (t : FileTree) (root module : String) (content : ByteArray)
    (line : String) :
    edited root (filed t (logPath root module) content) (module, .appendLog line) =
      filed t (logPath root module) (content ++ (line ++ "\n").toUTF8) := by
  rw [edited_eq_of_write (· ++ (line ++ "\n").toUTF8) (fun _ => rfl)]
  show (match target? (filed t (logPath root module) content) (logPath root module) with
    | some (place, readable) => _
    | none => _) = _
  rw [target?_filed, filed_stamp]
  rcases filed_cases t (logPath root module) with ⟨hs, h⟩ | ⟨place, readable, hs, h⟩
  · rw [hs, h, h]
  · obtain ⟨path, -, hsink⟩ := exists_sink hs
    have hheld : (t.put place (.file content t.stamp readable)).held place = content := by
      rw [held, node?_put (sink_ne_nil hsink), if_pos rfl]
    rw [hs, h, h]
    dsimp only
    rw [hheld, put_put]

/-- After a log was emptied, lines that are appended come to the same as one text. -/
theorem editAll_lines {writes : List ArtifactWrite}
    (h : ∀ write ∈ writes, ∃ line, write = .appendLog line) (root module : String)
    (start : ByteArray) :
    ∃ content, ∀ t, editAll root (filed t (logPath root module) start)
      (writes.map (Prod.mk module)) = filed t (logPath root module) content := by
  induction writes generalizing start with
  | nil => exact ⟨start, fun _ => rfl⟩
  | cons write writes ih =>
    obtain ⟨line, rfl⟩ := h write List.mem_cons_self
    obtain ⟨content, hc⟩ := ih (fun w hw => h w (List.mem_cons_of_mem _ hw))
      (start ++ (line ++ "\n").toUTF8)
    refine ⟨content, fun t => ?_⟩
    rw [List.map_cons, editAll, List.foldl_cons, edited_appendLog]
    exact hc t

theorem editAll_append (root : String) (t : FileTree) (a b : List (String × ArtifactWrite)) :
    editAll root t (a ++ b) = editAll root (editAll root t a) b := List.foldl_append

/-- The changes of a load are one of the log and one of the error file. -/
theorem editAll_writes {E : Engine} (r : Run E.State E.Callback) (root module : String) :
    ∃ content, ∀ t, editAll root t (r.writes.map (Prod.mk module)) =
      edited root (filed t (logPath root module) content) (module, closingWrite r.failure) := by
  have hlines : ∀ write ∈ r.requests.filterMap Request.write?,
      ∃ line, write = .appendLog line := by
    intro write hw
    obtain ⟨q, -, hq⟩ := List.mem_filterMap.1 hw
    cases q with
    | log line => exact ⟨line, (Option.some.inj hq).symm⟩
    | _ => cases hq
  obtain ⟨content, hc⟩ := editAll_lines hlines root module .empty
  refine ⟨content, fun t => ?_⟩
  rw [Run.writes, List.map_append, editAll_append]
  simp only [List.map_cons, List.map_nil]
  rw [editAll, List.foldl_cons, List.foldl_nil]
  congr 1
  rw [editAll, List.foldl_cons, edited_truncateLog]
  exact hc t

/-- Where the error file of a module is a link, the way to it does not lead over that link: without
it, the path leads to its place as before. -/
def ClearWay (t : FileTree) (root module : String) : Prop :=
  ∀ path place target, FilePath.ofText (errorPath root module) = .ok path →
    t.resolveEntry path = .ok place → t.node? place = some (.link target) →
      (t.erase place).resolveEntry path = .ok place

theorem ClearWay.of_sameWays (h : ClearWay t root module) (hw : SameWays t t') :
    ClearWay t' root module := by
  intro path place target hp hr hn
  have hne := ne_nil_of_node? hn FileNode.noConfusion
  exact (hw.erase hne).walk_iff.2 (h path place target hp (hw.walk_iff.1 hr)
    (hw.back place _ (fun _ _ _ => FileNode.noConfusion) hn))

/-- To clear the error file of a module removes the file or link that stands there, if one does. -/
theorem edited_clearError_cases (t : FileTree) (root module : String) :
    edited root t (module, .clearError) = t ∨
    ∃ path place node, FilePath.ofText (errorPath root module) = .ok path ∧
      t.resolveEntry path = .ok place ∧ t.node? place = some node ∧ node ≠ .dir ∧
      edited root t (module, .clearError) = t.erase place := by
  have hedit : edited root t (module, .clearError) =
      (FilePath.ofText (errorPath root module) >>= t.remove).toOption.getD t := edited_eq ..
  rw [hedit]
  rcases FilePath.ofText (errorPath root module) with e | path
  · exact .inl rfl
  rcases hr : t.resolveEntry path with e | place
  · refine .inl ?_
    show (t.remove path).toOption.getD t = t
    rw [remove, hr]
    rfl
  have hremove : (Except.ok path >>= t.remove : Except FileError FileTree) = t.remove path := rfl
  rw [hremove, remove, hr]
  rcases hn : t.node? place with _ | _ | _ | _ <;> simp only [bind, Except.bind, hn]
  · exact .inl rfl
  · exact .inr ⟨path, place, _, rfl, hr, hn, FileNode.noConfusion, rfl⟩
  · exact .inl rfl
  · exact .inr ⟨path, place, _, rfl, hr, hn, FileNode.noConfusion, rfl⟩

/-- A write that goes elsewhere than to what was removed goes there without the removal. -/
theorem target?_of_erase (hne : place ≠ []) {place' : List String}
    (h : target? (t.erase place) p = some (place', readable)) (hplace : place' ≠ place) :
    target? t p = some (place', readable) := by
  obtain ⟨path, hp, hs⟩ := exists_sink h
  obtain ⟨hdot, hr, hn⟩ := sink?_eq_some_iff.1 hs
  rw [erase, node?_erase hne, if_neg hplace] at hn
  have hr' : t.resolve path = .ok place' := (walk_of_erase hne hr).resolve_left hplace
  rw [target?, hp]
  exact sink?_eq_some_iff.2 ⟨hdot, hr', hn⟩

section Removed

variable {path : List String} (hp : FilePath.ofText (errorPath root module) = .ok path)
  (hne : place ≠ [])

include hp hne

/-- What was removed is not removed again. -/
theorem edited_clearError_of_erase (hr : t.resolveEntry path = .ok place) :
    edited root (t.erase place) (module, .clearError) = t.erase place := by
  rcases edited_clearError_cases (t.erase place) root module with
    h | ⟨path', place', node, hp', hr', hn, -, -⟩
  · exact h
  · cases hp.symm.trans hp'
    have hplace : place' = place := by
      rcases walk_of_erase hne hr' with h | h
      · exact h
      · exact Except.ok.inj (h.symm.trans hr)
    rw [hplace, erase, node?_erase hne, if_pos rfl] at hn
    cases hn

/-- What is written at the place of a file that was removed is removed with the next one. -/
theorem edited_clearError_of_put (hopen : (t.erase place).resolveEntry path = .ok place)
    (content : ByteArray) (modified : FileTime) (readable : Bool) :
    edited root ((t.erase place).put place (.file content modified readable))
      (module, .clearError) = t.erase place := by
  have hleaf : IsLeaf ((t.erase place).node? place) := by
    rw [erase, node?_erase hne, if_pos rfl]
    exact isLeaf_iff.2 (.inl rfl)
  have hr' : ((t.erase place).put place (.file content modified readable)).resolveEntry path =
      .ok place := (sameWays_put hleaf).walk_iff.2 hopen
  have hn : ((t.erase place).put place (.file content modified readable)).node? place =
      some (.file content modified readable) := by rw [node?_put hne, if_pos rfl]
  have hedit : edited root ((t.erase place).put place (.file content modified readable))
      (module, .clearError) =
        ((t.erase place).put place (.file content modified readable)).erase place := by
    rw [edited_eq]
    show (FilePath.ofText (errorPath root module) >>= remove _).toOption.getD _ = _
    rw [hp]
    show (remove _ path).toOption.getD _ = _
    rw [remove, hr']
    simp only [bind, Except.bind, hn]
    rfl
  rw [hedit]
  refine tree_ext (fun p => ?_) rfl
  by_cases h : p = place
  · rw [h]
    exact (Table.find?_erase_self _ _).trans (Table.find?_erase_self _ _).symm
  · exact (Table.find?_erase_of_ne _ h).trans (Table.find?_insert_of_ne _ h _)

end Removed

/-- To write a log, clear the error file, and do so again comes to the same as to do it once. -/
theorem clear_filed_again (hc : ClearWay t root module) (content : ByteArray) :
    let once := edited root (filed t (logPath root module) content) (module, .clearError)
    edited root (filed once (logPath root module) content) (module, .clearError) = once := by
  intro once
  have hways := sameWays_filed t (logPath root module) content
  have hc := hc.of_sameWays hways
  rcases edited_clearError_cases (filed t (logPath root module) content) root module with
    h | ⟨path, place, node, hp, hr, hn, hd, h⟩
  · show edited root (filed (edited root _ _) _ content) _ = edited root _ _
    rw [h, filed_filed, h]
  have hne := ne_nil_of_node? hn hd
  have honce : once = (filed t (logPath root module) content).erase place := h
  rw [honce]
  rcases filed_cases ((filed t (logPath root module) content).erase place)
    (logPath root module) with ⟨-, hf⟩ | ⟨place', readable, hs, hf⟩
  · rw [hf]
    exact edited_clearError_of_erase hp hne hr
  rw [hf]
  by_cases hplace : place' = place
  · -- the log is written where the error file was, and goes as that went
    rw [hplace]
    refine edited_clearError_of_put hp hne ?_ ..
    rcases node with ⟨old, modified, readable'⟩ | _ | target
    · exact (sameWays_erase (isLeaf_iff.2 (.inr ⟨_, _, _, hn⟩))).walk_iff.2 hr
    · exact absurd rfl hd
    · exact hc path place target hp hr hn
  · -- the log is where it was, and holds this already
    have hlog := target?_of_erase hne hs hplace
    have hheld := filed_filed t (logPath root module) content content
    rw [filed_of_target hlog, filed_stamp] at hheld
    have hnode : (filed t (logPath root module) content).nodes.find? place' =
        some (.file content t.stamp readable) := by
      rw [← hheld]
      exact Table.find?_insert_self ..
    have hsame : ((filed t (logPath root module) content).erase place).put place'
        (.file content ((filed t (logPath root module) content).erase place).stamp readable) =
          (filed t (logPath root module) content).erase place := by
      refine congrArg (FileTree.mk · _) (Table.insert_of_find? ?_)
      rw [erase, Table.find?_erase_of_ne _ hplace, hnode]
      show _ = some (FileNode.file content (filed t (logPath root module) content).stamp readable)
      rw [filed_stamp]
    rw [hsame]
    exact edited_clearError_of_erase hp hne hr

/-- To write two files in turn, and both again, comes to the same as to write them once. -/
theorem filed_both_again (t : FileTree) (p p' : String) (content content' : ByteArray) :
    let once := filed (filed t p content) p' content'
    filed (filed once p content) p' content' = once := by
  intro once
  have htarget (q : String) : target? once q = target? t q := by
    rw [target?_filed, target?_filed]
  have hstamp : once.stamp = t.stamp := by
    rw [filed_stamp, filed_stamp]
  rcases filed_cases t p with ⟨hs, h⟩ | ⟨place, readable, hs, h⟩
  · have hfirst : filed once p content = once := filed_of_none ((htarget p).trans hs) content
    rw [hfirst]
    exact filed_filed ..
  rcases filed_cases (filed t p content) p' with ⟨hs', h'⟩ | ⟨place', readable', hs', h'⟩
  · have hfirst : once = filed t p content := h' content'
    rw [hfirst, filed_filed]
    exact h' content'
  have hs' : target? t p' = some (place', readable') :=
    (target?_filed t p p' content).symm.trans hs'
  have honce : once =
      (t.put place (.file content t.stamp readable)).put place'
        (.file content' t.stamp readable') := by
    rw [← h content]
    exact (h' content').trans (by rw [filed_stamp])
  have hfirst := filed_of_target ((htarget p).trans hs) content
  have hsecond : target? (filed once p content) p' = some (place', readable') := by
    rw [target?_filed, htarget, hs']
  rw [filed_of_target hsecond, hfirst, hstamp]
  show (once.put place (.file content t.stamp readable)).put place'
    (.file content' once.stamp readable') = once
  rw [hstamp, honce]
  refine tree_ext (fun q => ?_) rfl
  simp only [put, Table.find?_insert]
  split_ifs <;> rfl

/-- To make the changes of a load once more changes nothing. -/
theorem editAll_repeat {E : Engine} (r : Run E.State E.Callback)
    (hc : r.failure.isSome = true ∨ ClearWay t root module) :
    editAll root (editAll root t (r.writes.map (Prod.mk module))) (r.writes.map (Prod.mk module)) =
      editAll root t (r.writes.map (Prod.mk module)) := by
  obtain ⟨content, hwrites⟩ := editAll_writes r root module
  rw [hwrites, hwrites]
  rcases hf : r.failure with _ | detail
  · rw [hf] at hc
    exact clear_filed_again (hc.resolve_left Bool.false_ne_true) content
  · simp only [closingWrite, edited_writeError]
    exact filed_both_again ..

end Artifacts

end LiveModules
