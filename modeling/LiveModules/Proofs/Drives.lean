import LiveModules.Proofs.Disks
import LiveModules.Site.Scan

/-!
# The drive of a site

A site does what it does on its drive. That comes to the same as to do it in a world that keeps the
changes of files for later, and to make them afterwards (`Site.reload_eq`, `Site.act_eq`).
-/

namespace LiveModules

namespace Drive

/-- A change of the drive is a change of its files, or it is not possible. -/
theorem make_cases (d : Drive) (module : String) (a : ArtifactWrite) :
    (∃ files, Artifacts.make d.files d.root module a = .ok files ∧
      Disk.make d module a = .ok { d with files }) ∨ ∃ e, Disk.make d module a = .error e := by
  rcases hr : d.refuses d.files module a with _ | e
  · rcases hm : Artifacts.make d.files d.root module a with e | files
    · exact .inr ⟨e, by simp only [Disk.make, hr, hm, Except.map]⟩
    · exact .inl ⟨files, rfl, by simp only [Disk.make, hr, hm, Except.map]⟩
  · exact .inr ⟨e, by simp only [Disk.make, hr]⟩

/-- A change is made, or there is a warning. -/
theorem put_cases (d : Drive) (module : String) (a : ArtifactWrite) :
    (∃ files, Artifacts.make d.files d.root module a = .ok files ∧
      Disk.put d module a = { d with files }) ∨
    ∃ e, Disk.make d module a = .error e ∧
      Disk.put d module a = { d with warnings := d.warnings.push (module, e) } := by
  rcases d.make_cases module a with ⟨files, hm, h⟩ | ⟨e, h⟩
  · exact .inl ⟨files, hm, by simp only [Disk.put, h]⟩
  · exact .inr ⟨e, h, by simp only [Disk.put, h, Disk.warn]⟩

theorem put_frame (d : Drive) (module : String) (a : ArtifactWrite) :
    (Disk.put d module a).root = d.root ∧ (Disk.put d module a).refuses = d.refuses := by
  rcases d.put_cases module a with ⟨files, -, h⟩ | ⟨e, -, h⟩ <;> rw [h] <;> exact ⟨rfl, rfl⟩

/-- Where nothing is refused, the files decide. -/
theorem put_of_never {d : Drive} (h : d.refuses = .never) (module : String) (a : ArtifactWrite) :
    Disk.put d module a =
      match Artifacts.make d.files d.root module a with
      | .ok files => { d with files }
      | .error e => { d with warnings := d.warnings.push (module, e) } := by
  have hr : d.refuses d.files module a = none := by rw [h]; rfl
  cases hm : Artifacts.make d.files d.root module a <;>
    simp only [Disk.put, Disk.make, hr, hm, Except.map, Disk.warn]

theorem carried_makeAll (d : String → Drive) :
    Disk.Carried fun root (o : Outbox) => (d root).makeAll o :=
  fun _ _ _ _ => Array.foldl_push

end Drive

namespace Site

open World

variable {E : Engine} (s : Site E)

/-- Makes one change of files; one that is not possible is left out and noted. -/
def makeChange (s : Site E) (change : String × ArtifactWrite) : Site E :=
  match Artifacts.make s.files s.world.root change.1 change.2 with
  | .ok files => { s with files }
  | .error e => { s with world := s.world.note (.unwritten change.1 e) }

/-- Makes the changes of files that wait. -/
def settle (s : Site E) : Site E :=
  s.world.disk.foldl makeChange { s with world := { s.world with disk := #[] } }

theorem unmount_root (w : World E Drive) : (s.unmount w).world.root = w.root := by
  unfold unmount
  rw [← Array.foldl_toList]
  exact List.foldlRecOn (motive := fun v : World E => v.root = w.root) _ _ rfl fun _ h _ _ => h

/-- To make a change of files is to make it on the drive. -/
theorem makeChange_unmount {w : World E} {d : Drive} (hroot : d.root = w.root)
    (hnever : d.refuses = .never) (change : String × ArtifactWrite) :
    (s.unmount (w.onDisk d)).makeChange change =
      s.unmount (w.onDisk (Disk.put d change.1 change.2)) := by
  rw [Drive.put_of_never hnever, makeChange, unmount_root]
  show (match Artifacts.make d.files w.root change.1 change.2 with
    | .ok files => _
    | .error e => _) = _
  rw [hroot]
  cases Artifacts.make d.files w.root change.1 change.2 with
  | ok files => rfl
  | error e => simp only [unmount, onDisk, Array.foldl_push]

theorem settle_eq_unmount (w : World E) :
    { s with world := w }.settle =
      s.unmount (w.mapDisk fun root => { s.drive with root }.makeAll) := by
  have hfold : ∀ (changes : List (String × ArtifactWrite)) (d : Drive), d.root = w.root →
      d.refuses = .never → changes.foldl makeChange (s.unmount (w.onDisk d)) =
        s.unmount (w.onDisk (changes.foldl (fun d c => Disk.put d c.1 c.2) d)) := by
    intro changes
    induction changes with
    | nil => exact fun _ _ _ => rfl
    | cons change rest ih =>
      intro d hroot hnever
      obtain ⟨hroot', hnever'⟩ := d.put_frame change.1 change.2
      rw [List.foldl_cons, List.foldl_cons, s.makeChange_unmount hroot hnever]
      exact ih _ (hroot'.trans hroot) (hnever'.trans hnever)
  have h := hfold w.disk.toList { s.drive with root := w.root } rfl rfl
  rw [Array.foldl_toList, Array.foldl_toList] at h
  exact h

variable (name : String)

theorem reload_eq (modified : FileTime) (source : String) :
    s.reload name modified source =
      { s with world := s.world.reload name modified source }.settle := by
  rw [settle_eq_unmount, ← mapDisk_reload (Drive.carried_makeAll _)]
  rfl

theorem readFailed_eq (e : FileError) :
    s.readFailed name e = { s with world := s.world.readFailed name e.message }.settle := by
  rw [settle_eq_unmount, ← mapDisk_readFailed (Drive.carried_makeAll _)]
  rfl

variable (fuel : Nat)

theorem act_eq (a : Action) : s.act fuel a =
    (perform fuel a s.world).map fun r => ({ s with world := r.1 }.settle, r.2) := by
  have h := perform_carried (Drive.carried_makeAll fun root => { s.drive with root }) fuel a s.world
  rw [act]
  refine (congrArg (Option.map _) h).trans ?_
  simp only [settle_eq_unmount, Option.map_map]
  rfl

theorem dispatch_eq (event : GameEvent) : s.dispatch fuel name event =
    (s.world.dispatch (perform fuel) (.surface name) event).map fun r =>
      ({ s with world := r.1 }.settle, r.2) := by
  have hφ := Drive.carried_makeAll fun root => { s.drive with root }
  have h := mapDisk_dispatch s.world hφ (perform_carried hφ fuel) (.surface name) event
  rw [dispatch]
  refine (congrArg (Option.map _) h).trans ?_
  simp only [settle_eq_unmount, Option.map_map]
  rfl

theorem checkSpawns_eq (owner : String) : s.checkSpawns fuel owner =
    (s.world.spawnCheck (perform fuel) (.label owner)).map fun r =>
      ({ s with world := r.1 }.settle, r.2) := by
  have hφ := Drive.carried_makeAll fun root => { s.drive with root }
  have h := mapDisk_spawnCheck s.world (perform_carried hφ fuel) (.label owner)
  rw [checkSpawns]
  refine (congrArg (Option.map _) h).trans ?_
  simp only [settle_eq_unmount, Option.map_map]
  rfl

variable {s : Site E} {s' : Site E} {name : String} {fuel : Nat}

theorem act_inv {a : Action} {r : Answer} (h : s.act fuel a = some (s', r)) :
    ∃ w, perform fuel a s.world = some (w, r) ∧ s' = { s with world := w }.settle := by
  rw [act_eq] at h
  obtain ⟨⟨w, r'⟩, hw, he⟩ := Option.map_eq_some_iff.1 h
  cases he
  exact ⟨w, hw, rfl⟩

theorem dispatch_inv {event : GameEvent} {n : Nat}
    (h : s.dispatch fuel name event = some (s', n)) :
    ∃ w, s.world.dispatch (perform fuel) (.surface name) event = some (w, n) ∧
      s' = { s with world := w }.settle := by
  rw [dispatch_eq] at h
  obtain ⟨⟨w, n'⟩, hw, he⟩ := Option.map_eq_some_iff.1 h
  cases he
  exact ⟨w, hw, rfl⟩

theorem checkSpawns_inv {owner : String} {keys : List SpawnKey}
    (h : s.checkSpawns fuel owner = some (s', keys)) :
    ∃ w, s.world.spawnCheck (perform fuel) (.label owner) = some (w, keys) ∧
      s' = { s with world := w }.settle := by
  rw [checkSpawns_eq] at h
  obtain ⟨⟨w, keys'⟩, hw, he⟩ := Option.map_eq_some_iff.1 h
  cases he
  exact ⟨w, hw, rfl⟩

end Site

end LiveModules
