import LiveModules.Files.Tree
import LiveModules.Proofs.Results
import LiveModules.Proofs.Table
import LiveModules.World.Basic

/-!
# Where paths lead

A path that is joined to another is walked by walking the other first (`walk_append`), and only
directories and links stand on the way: a change that leaves those alone leads nobody elsewhere
(`RootAt.mono`).
-/

namespace LiveModules

/-- A name that an entry of a directory may have. -/
structure FileName.IsEntry (name : String) : Prop where
  ne_empty : name ≠ ""
  ne_dot : name ≠ "."
  ne_dots : name ≠ ".."
  no_slash : '/' ∉ name.toList

namespace FilePath

variable {base part : String}

theorem toList_ne_nil (h : FileName.IsEntry part) : part.toList ≠ [] :=
  fun hn => h.ne_empty (String.toList_eq_nil_iff.1 hn)

theorem joinPath_toList (base : String) (h : FileName.IsEntry part) :
    (joinPath base part).toList = part.toList ∧ base = "" ∨
      ∃ dirs, (joinPath base part).toList = dirs ++ '/' :: part.toList ∧
        (base.toList = dirs ∨ base.toList = dirs ++ ['/']) := by
  have hs : startsWithSlash part = false := by
    rw [startsWithSlash, beq_eq_false_iff_ne]
    exact fun he => h.no_slash (List.mem_of_mem_head? he)
  simp only [joinPath, hs, Bool.false_eq_true, ↓reduceIte]
  split
  · rename_i hb
    rcases Bool.or_eq_true_iff.1 hb with hb | hb
    · have hb : base = "" := by simpa using hb
      exact .inl ⟨by simp [hb], hb⟩
    · obtain ⟨dirs, hd⟩ := List.getLast?_eq_some_iff.1 (beq_iff_eq.1 hb)
      exact .inr ⟨dirs, by simp [hd], .inr hd⟩
  · exact .inr ⟨base.toList, by simp, .inl rfl⟩

theorem names_joinPath (h : FileName.IsEntry part) :
    names (joinPath base part) = names base ++ [part] := by
  have hpart : ([part.toList].map String.ofList).filter (· ≠ "") = [part] := by
    simp [h.ne_empty]
  rcases joinPath_toList base h with ⟨hj, rfl⟩ | ⟨dirs, hj, hb⟩
  · rw [names, hj, List.splitOn_eq_singleton h.no_slash, hpart]
    rfl
  · rw [names, names, hj, List.splitOn_append_cons_self, List.splitOn_eq_singleton h.no_slash,
      List.map_append, List.filter_append, hpart]
    rcases hb with hb | hb
    · rw [hb]
    · rw [hb, List.splitOn_append_cons_self]
      simp

theorem endsWithSlash_joinPath (h : FileName.IsEntry part) :
    endsWithSlash (joinPath base part) = false := by
  have hlast : part.toList.getLast? ≠ some '/' := fun he => h.no_slash (List.mem_of_getLast? he)
  rw [endsWithSlash, beq_eq_false_iff_ne]
  rcases joinPath_toList base h with ⟨hj, -⟩ | ⟨dirs, hj, -⟩
  · rwa [hj]
  · have hne : ('/' :: part.toList).getLast? = part.toList.getLast? := by
      obtain ⟨c, rest, hc⟩ := List.exists_cons_of_ne_nil (toList_ne_nil h)
      rw [hc, List.getLast?_cons_cons]
    rw [hj, List.getLast?_append_of_ne_nil _ (List.cons_ne_nil _ _), hne]
    exact hlast

theorem split_joinPath (h : FileName.IsEntry part) :
    split (joinPath base part) = names base ++ [part] := by
  rw [split, endsWithSlash_joinPath h, names_joinPath h]
  rfl

/-- The names of a path, unless it has a character that no path may have. -/
theorem ofText_joinPath (h : FileName.IsEntry part) {path : List String}
    (hp : ofText (joinPath base part) = .ok path) : path = names base ++ [part] := by
  unfold ofText at hp
  split at hp
  · cases hp
  · split at hp
    · cases hp
    · rw [← split_joinPath h]
      exact (Except.ok.inj hp).symm

end FilePath

namespace FileTree

variable {t t' : FileTree} {last : Bool} {place rest : List String}

/-- Every step down to `place` is a directory. -/
def DirTo (t : FileTree) (place : List String) : Prop :=
  ∀ above, above <+: place → t.node? above = some .dir

theorem dirTo_nil : t.DirTo [] := fun above h => by
  rw [List.prefix_nil.1 h]
  rfl

theorem DirTo.dropLast (h : t.DirTo place) : t.DirTo place.dropLast :=
  fun above ha => h above <| ha.trans <| List.dropLast_prefix place

theorem DirTo.concat {name : String} (h : t.DirTo place)
    (hn : t.node? (place ++ [name]) = some .dir) : t.DirTo (place ++ [name]) := by
  intro above ha
  rcases List.prefix_concat_iff.1 ha with rfl | ha
  · exact hn
  · exact h above ha

/-- How a walk goes on where another ended. -/
def goOn (t : FileTree) (last : Bool) (links : Nat) (rest place : List String) :
    Except FileError (List String) :=
  match t.node? place with
  | some .dir => t.walk last links place rest
  | some (.file ..) => .error .notDirectory
  | _ => .error .notFound

theorem walkNames_append (hrest : rest ≠ []) (links : Nat)
    {follow follow' : List String → List String → Except FileError (List String)}
    (hw : t.walk last links = t.walkNames last follow)
    (hf : ∀ base names, t.DirTo base → ∃ links',
      follow base (names ++ rest) = (follow' base names >>= t.goOn last links' rest)) :
    ∀ names base, t.DirTo base → ∃ links', t.walkNames last follow base (names ++ rest) =
      (t.walkNames true follow' base names >>= t.goOn last links' rest) := by
  intro names
  induction names with
  | nil =>
    intro base hb
    refine ⟨links, ?_⟩
    show _ = t.goOn last links rest base
    rw [goOn, hb base (List.prefix_refl base), hw]
    rfl
  | cons name names ih =>
    intro base hb
    have hne : names ++ rest ≠ [] := List.append_ne_nil_of_right_ne_nil _ hrest
    simp only [List.cons_append, walkNames]
    split
    · exact ih base hb
    · split
      · exact ih _ hb.dropLast
      · split
        · exact ⟨0, rfl⟩
        · rcases hn : t.node? (base ++ [name]) with _ | ⟨content, modified, readable⟩ | _ | target
          · refine ⟨0, ?_⟩
            dsimp only
            split
            · show _ = t.goOn last 0 rest (base ++ [name])
              rw [goOn, hn]
            · rfl
          · refine ⟨0, ?_⟩
            dsimp only
            split
            · show _ = t.goOn last 0 rest (base ++ [name])
              rw [goOn, hn]
            · rfl
          · exact ih _ (hb.concat hn)
          · have hfollow : ¬ (names = [] ∧ (!true) = true) := fun h => Bool.false_ne_true h.2
            dsimp only
            rw [if_neg (fun h => hne h.1), if_neg hfollow, ← List.append_assoc]
            refine hf _ _ ?_
            split
            · exact dirTo_nil
            · exact hb

/-- To walk along more names is to walk along the first ones, to a directory, and to go on there. -/
theorem walk_append (last : Bool) (hrest : rest ≠ []) : ∀ (links : Nat) (names base : List String),
    t.DirTo base → ∃ links', t.walk last links base (names ++ rest) =
      (t.walk true links base names >>= t.goOn last links' rest)
  | 0 => walkNames_append hrest 0 rfl fun _ _ _ => ⟨0, rfl⟩
  | links + 1 => walkNames_append hrest (links + 1) rfl fun base names hb =>
    walk_append last hrest links names base hb

/-- A name that leads to no link leads to its own place. -/
theorem walk_cons (links : Nat) {base : List String} {name : String} (hn : FileName.IsEntry name)
    (hl : ∀ target, t.node? (base ++ [name]) ≠ some (.link target)) :
    t.walk last links base (name :: rest) =
      if FileName.tooLong name then .error .nameTooLong
      else if rest = [] then .ok (base ++ [name])
      else t.goOn last links rest (base ++ [name]) := by
  cases links <;>
  · simp only [walk, walkNames, hn.ne_dot, hn.ne_dots, ↓reduceIte, goOn]
    split
    · rfl
    · rcases h : t.node? (base ++ [name]) with _ | _ | _ | target
      · rfl
      · rfl
      · dsimp only
        split
        · rename_i hr
          rw [hr, walkNames]
        · rfl
      · exact absurd h (hl target)

/-- A link that is not followed is found at its own place, as anything else is. -/
theorem walk_entry (links : Nat) {base : List String} {name : String} (hn : FileName.IsEntry name) :
    t.walk false links base [name] =
      if FileName.tooLong name then .error .nameTooLong else .ok (base ++ [name]) := by
  cases links <;>
  · simp only [walk, walkNames, hn.ne_dot, hn.ne_dots, ↓reduceIte]
    split
    · rfl
    · rcases t.node? (base ++ [name]) with _ | _ | _ | target <;> rfl

/-! ## The root -/

/-- The path `root` leads to the directory `place`. -/
structure RootAt (t : FileTree) (root : String) (place : List String) : Prop where
  walk : t.walk true maxLinks [] (FilePath.names root) = .ok place
  dir : t.node? place = some .dir

theorem RootAt.unique {root : String} {place' : List String} (h : t.RootAt root place)
    (h' : t.RootAt root place') : place = place' :=
  Except.ok.inj (h.walk.symm.trans h'.walk)

/-- What lies below the root is looked for at its place. -/
theorem RootAt.walk_below {root : String} (h : t.RootAt root place) (last : Bool)
    (hrest : rest ≠ []) :
    ∃ links, t.walk last maxLinks [] (FilePath.names root ++ rest) =
      t.walk last links place rest := by
  obtain ⟨links, hw⟩ := walk_append last hrest maxLinks (FilePath.names root) [] dirTo_nil
  refine ⟨links, hw.trans ?_⟩
  rw [h.walk]
  show t.goOn last links rest place = _
  rw [goOn, h.dir]

theorem rootAt_of_walk_below {root : String} {found : List String} (hrest : rest ≠ [])
    (h : t.walk last maxLinks [] (FilePath.names root ++ rest) = .ok found) :
    ∃ place, t.RootAt root place := by
  obtain ⟨links, hw⟩ := walk_append last hrest maxLinks (FilePath.names root) [] dirTo_nil
  rw [h] at hw
  rcases hp : t.walk true maxLinks [] (FilePath.names root) with e | place
  · rw [hp] at hw
    cases hw
  · rw [hp] at hw
    have hw : .ok found = t.goOn last links rest place := hw
    unfold goOn at hw
    split at hw
    · rename_i hd
      exact ⟨place, hp, hd⟩
    · cases hw
    · cases hw

theorem ofText_eq {text : String} {path : List String} (h : FilePath.ofText text = .ok path) :
    path = FilePath.split text := by
  unfold FilePath.ofText at h
  split at h
  · cases h
  · split at h
    · cases h
    · exact (Except.ok.inj h).symm

theorem exists_rootAt {root : String} {path : List String} (hp : FilePath.ofText root = .ok path)
    (hd : t.isDir path = true) : ∃ place, t.RootAt root place := by
  have hstat : t.stat path = .ok .dir := by
    unfold isDir at hd
    split at hd
    · assumption
    · cases hd
  obtain ⟨place, hw, hstat⟩ := Except.bind_eq_ok_iff.1 hstat
  rw [ofText_eq hp, FilePath.split] at hw
  split at hw
  · exact rootAt_of_walk_below (List.cons_ne_nil _ _) hw
  · refine ⟨place, hw, ?_⟩
    split at hstat
    · cases hstat
    · assumption
    · cases hstat

theorem RootAt.resolve {root : String} {path : List String} (h : t.RootAt root place)
    (hp : FilePath.ofText root = .ok path) : t.resolve path = .ok place := by
  rw [ofText_eq hp, FilePath.split, FileTree.resolve]
  split
  · obtain ⟨links, hw⟩ := h.walk_below true (List.cons_ne_nil "." [])
    rw [hw]
    cases links <;> simp [FileTree.walk, walkNames]
  · exact h.walk

/-- An entry of the root that is no link is looked for at its own place. -/
theorem RootAt.resolve_entry {root name : String} (h : t.RootAt root place)
    (hn : FileName.IsEntry name) (hl : ∀ target, t.node? (place ++ [name]) ≠ some (.link target)) :
    t.resolve (FilePath.names root ++ [name]) =
      if FileName.tooLong name then .error .nameTooLong else .ok (place ++ [name]) := by
  obtain ⟨links, hw⟩ := h.walk_below true (List.cons_ne_nil name [])
  rw [FileTree.resolve, hw, walk_cons links hn hl, if_pos rfl]

/-- What is listed in a directory stands below it. -/
theorem mem_list {path listed : List String} {name : String} (hp : t.resolve path = .ok place)
    (h : t.list path = .ok listed) :
    name ∈ listed ↔ ∃ node, t.node? (place ++ [name]) = some node := by
  obtain ⟨place', hp', h⟩ := Except.bind_eq_ok_iff.1 h
  cases hp.symm.trans hp'
  rw [show t.node? (place ++ [name]) = t.nodes.find? (place ++ [name]) by cases place <;> rfl,
    ← Table.mem_keys_iff]
  split at h
  · rw [← Except.ok.inj h, List.mem_filterMap]
    constructor
    · rintro ⟨p, hk, hp⟩
      rw [Option.ite_none_right_eq_some] at hp
      rwa [← hp.1, List.dropLast_append_getLast? name hp.2]
    · exact fun hk => ⟨place ++ [name], hk, by simp⟩
  · cases h
  · cases h

/-- Where a path leads to the same place and the same stands there, it shows the same. -/
theorem look_congr {path : List String} (hr : t'.resolve path = t.resolve path)
    (hn : ∀ found, t.resolve path = .ok found → t'.node? found = t.node? found) :
    t'.stat path = t.stat path ∧ t'.readText path = t.readText path := by
  unfold stat readText read
  rw [hr]
  rcases hf : t.resolve path with e | found
  · exact ⟨rfl, rfl⟩
  · simp only [bind, Except.bind, hn found hf, and_self]

/-- `t'` has every directory and every link of `t`. -/
def Extends (t t' : FileTree) : Prop :=
  ∀ place node, (∀ content modified readable, node ≠ .file content modified readable) →
    t.node? place = some node → t'.node? place = some node

theorem walkNames_mono (h : t.Extends t')
    {follow follow' : List String → List String → Except FileError (List String)}
    (hf : ∀ base names, follow base names = .ok place → follow' base names = .ok place)
    (hd : t.node? place = some .dir) : ∀ names base,
      t.walkNames true follow base names = .ok place →
      t'.walkNames true follow' base names = .ok place := by
  intro names
  induction names with
  | nil => exact fun _ h => h
  | cons name names ih =>
    intro base hw
    simp only [walkNames] at hw ⊢
    by_cases hdot : name = "."
    · rw [if_pos hdot] at hw ⊢
      exact ih _ hw
    rw [if_neg hdot] at hw ⊢
    by_cases hdots : name = ".."
    · rw [if_pos hdots] at hw ⊢
      exact ih _ hw
    rw [if_neg hdots] at hw ⊢
    split at hw
    · cases hw
    rename_i hlong
    rw [if_neg hlong]
    rcases hn : t.node? (base ++ [name]) with _ | ⟨content, modified, readable⟩ | _ | target <;>
      rw [hn] at hw <;> dsimp only at hw
    · split at hw
      · rw [← Except.ok.inj hw, hn] at hd
        cases hd
      · cases hw
    · split at hw
      · rw [← Except.ok.inj hw, hn] at hd
        cases hd
      · cases hw
    · rw [h _ _ (fun _ _ _ => FileNode.noConfusion) hn]
      exact ih _ hw
    · rw [h _ _ (fun _ _ _ => FileNode.noConfusion) hn]
      have hfollow : ¬ (names = [] ∧ (!true) = true) := fun h => Bool.false_ne_true h.2
      rw [if_neg hfollow] at hw
      dsimp only
      rw [if_neg hfollow]
      exact hf _ _ hw

theorem walk_mono (h : t.Extends t') (hd : t.node? place = some .dir) : ∀ links base names,
    t.walk true links base names = .ok place → t'.walk true links base names = .ok place
  | 0, base, names => walkNames_mono h (fun _ _ hw => by cases hw) hd names base
  | links + 1, base, names => walkNames_mono h (walk_mono h hd links) hd names base

theorem RootAt.mono {root : String} (h : t.RootAt root place) (he : t.Extends t') :
    t'.RootAt root place :=
  ⟨walk_mono he h.dir _ _ _ h.walk, he _ _ (fun _ _ _ => FileNode.noConfusion) h.dir⟩

end FileTree

end LiveModules
