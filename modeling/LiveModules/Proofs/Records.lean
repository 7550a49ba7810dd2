import LiveModules.Proofs.ErrorFiles
import LiveModules.Proofs.Reloads
import LiveModules.Proofs.Strides

/-!
# What records and surfaces tell

Between the operations of a site every module that was ever loaded has one record and one surface,
and both tell of its latest load (`registry_told`). Only a load changes them (`Kept`), and a load
that has come to its end leaves them told again, whatever its outcome (`Registered.reload`).
-/

namespace LiveModules

attribute [local irreducible] lastOf

/-- The entry tells that a load of the module began. -/
def Entry.loads (module : String) : Entry → Bool
  | .loading name .. => name = module
  | _ => false

/-- How a load of the module ended. -/
def Entry.outcome (module : String) : Option String → Entry
  | none => .loaded module
  | some detail => .failed module detail

/-- How often a load of the module began. -/
def loadsTold (journal : List Entry) (module : String) : Nat :=
  journal.countP (Entry.loads module)

/-- The module was last loaded into this surface, from a file of that time, and this came of it. -/
def LatestLoad (journal : List Entry) (module : String) (surface : Nat) (modified : FileTime)
    (failure : Option String) : Prop :=
  ∃ pre mid post,
    journal = pre ++ .loading module surface modified :: (mid ++ .outcome module failure :: post) ∧
      (∀ e ∈ mid, ¬ e.Judges module) ∧ loadsTold mid module = 0 ∧ loadsTold post module = 0

theorem loadsTold_append (a b : List Entry) (module : String) :
    loadsTold (a ++ b) module = loadsTold a module + loadsTold b module :=
  List.countP_append

theorem LatestLoad.append {journal entries : List Entry} {module : String} {surface : Nat}
    {modified : FileTime} {failure : Option String}
    (h : LatestLoad journal module surface modified failure)
    (he : loadsTold entries module = 0) :
    LatestLoad (journal ++ entries) module surface modified failure := by
  obtain ⟨pre, mid, post, rfl, hj, hm, hp⟩ := h
  refine ⟨pre, mid, post ++ entries, by simp, hj, hm, ?_⟩
  rw [loadsTold_append, hp, he]

/-- The record when the load has ended. -/
def Record.close (r : Record) (failure : Option String) : Record :=
  { r with lastError := failure, state := if failure.isNone then .active else .errored }

variable {E : Engine} {L : Licence} {w w' w'' : World E} {module : String}

namespace World

/-- The current surface of a module and the module that it says it is of. -/
def version? (w : World E) (module : String) : Option (Nat × String) :=
  (w.surfaces.find? module).map fun s => (s.id, s.module)

/-- What the record and the surface of a module say is what the journal tells of its latest load. -/
structure Told (w : World E) (module : String) (r : Record) (s : Surface E) : Prop where
  name : r.name = module
  logPath : r.logPath = LiveModules.logPath w.root module
  errorPath : r.errorPath = LiveModules.errorPath w.root module
  state : r.state = .active ∧ r.lastError = none ∨
    ∃ detail, r.state = .errored ∧ r.lastError = some detail
  generation : r.generation = loadsTold w.journal.toList module
  loaded : 1 ≤ r.generation
  surface : s.module = module
  latest : LatestLoad w.journal.toList module s.id r.modified r.lastError

/-- Every module is known by one record and one surface, or was never loaded. -/
structure Registered (w : World E) : Prop where
  known : ∀ module,
    (w.records.find? module = none ∧ w.surfaces.find? module = none ∧
      loadsTold w.journal.toList module = 0) ∨
    ∃ r s, w.records.find? module = some r ∧ w.surfaces.find? module = some s ∧
      Told w module r s
  lt : ∀ module v, w.version? module = some v → v.1 < w.nextId
  distinct : ∀ module module' v v', w.version? module = some v → w.version? module' = some v' →
    v.1 = v'.1 → module = module'

/-! ## What leaves records and surfaces -/

theorem version?_eq_some_iff {v : Nat × String} : w.version? module = some v ↔
    ∃ s, w.surfaces.find? module = some s ∧ s.id = v.1 ∧ s.module = v.2 := by
  simp only [version?, Option.map_eq_some_iff, Prod.ext_iff]

theorem version?_eq_none_iff : w.version? module = none ↔ w.surfaces.find? module = none :=
  Option.map_eq_none_iff

theorem version?_of_surface {s : Surface E} (h : w.surfaces.find? module = some s) :
    w.version? module = some (s.id, s.module) := by
  rw [version?, h, Option.map_some]

/-- Records and surfaces are as they were, who is subscribed there apart, and nothing was loaded. -/
structure Kept (w w' : World E) (entries : List Entry) : Prop where
  root : w'.root = w.root
  records : w'.records = w.records
  surfaces : ∀ module, w'.version? module = w.version? module
  nextId : w.nextId ≤ w'.nextId
  journal : w'.journal.toList = w.journal.toList ++ entries
  silent : ∀ module, loadsTold entries module = 0

namespace Kept

variable {entries rest : List Entry}

theorem of_eq (hroot : w'.root = w.root) (hr : w'.records = w.records)
    (hs : w'.surfaces = w.surfaces) (hn : w.nextId ≤ w'.nextId) (hj : w'.journal = w.journal) :
    Kept w w' [] :=
  ⟨hroot, hr, fun module => by rw [version?, version?, hs], hn, by rw [hj, List.append_nil],
    fun _ => rfl⟩

/-- Something else than a load is told of. -/
theorem step {e : Entry} (hroot : w'.root = w.root) (hr : w'.records = w.records)
    (hs : w'.surfaces = w.surfaces) (hn : w.nextId ≤ w'.nextId)
    (hj : w'.journal = w.journal.push e) (he : ∀ module, e.loads module = false) :
    Kept w w' [e] :=
  ⟨hroot, hr, fun module => by rw [version?, version?, hs], hn, by rw [hj, Array.toList_push],
    fun module => by simp [loadsTold, he module]⟩

theorem note (w : World E) {e : Entry} (he : ∀ module, e.loads module = false) :
    Kept w (w.note e) [e] :=
  .step rfl rfl rfl (Nat.le_refl _) rfl he

theorem trans (h : Kept w w' entries) (h' : Kept w' w'' rest) : Kept w w'' (entries ++ rest) where
  root := h'.root.trans h.root
  records := h'.records.trans h.records
  surfaces module := (h'.surfaces module).trans (h.surfaces module)
  nextId := Nat.le_trans h.nextId h'.nextId
  journal := by rw [h'.journal, h.journal, List.append_assoc]
  silent module := by rw [loadsTold_append, h.silent, h'.silent]

/-- To change who is subscribed leaves every surface. -/
theorem updateRoster (w : World E) (f : Roster (Subscriber E) → Roster (Subscriber E))
    (place : Place) : Kept w (w.updateRoster f place) [] := by
  rcases place with _ | _ | name
  · exact .of_eq rfl rfl rfl (Nat.le_refl _) rfl
  · exact .of_eq rfl rfl rfl (Nat.le_refl _) rfl
  · refine ⟨rfl, rfl, fun module => ?_, Nat.le_refl _, (List.append_nil _).symm, fun _ => rfl⟩
    simp only [version?, World.updateRoster]
    by_cases hm : module = name
    · rw [hm, Table.find?_modify_self, Option.map_map]
      rfl
    · rw [Table.find?_modify_of_ne _ hm]

theorem subscribeScript (w : World E) (f : ScriptFunction E) (key : EventKey) :
    Kept w (w.subscribeScript f key) [] := by
  rcases w.subscribeScript_cases f key with ⟨_, h⟩ | ⟨s, -, -, h⟩
  · rw [h]
    exact .of_eq rfl rfl rfl (Nat.le_succ _) rfl
  · have hn : Kept w { w with nextId := w.nextId + 1 } [] :=
      .of_eq rfl rfl rfl (Nat.le_succ _) rfl
    rw [h]
    exact hn.trans (.updateRoster ..)

end Kept

/-- A request of a script says nothing of how a module fares. -/
theorem grant_kept (origin : Origin) (r : Request E.Callback) :
    ∃ entries, Kept w (w.grant origin r) entries ∧
      ∀ e ∈ entries, ∀ module, ¬ e.Judges module := by
  cases r with
  | item | preventDefault | log =>
    exact ⟨_, .step rfl rfl rfl (Nat.le_refl _) rfl fun _ => rfl, by simp [Entry.Judges]⟩
  | handler key callback => exact ⟨[], .subscribeScript w _ key, by simp⟩
  | _ => exact ⟨[], .of_eq rfl rfl rfl (Nat.le_refl _) rfl, by simp⟩

end World

open World

theorem Move.kept (h : Move L w w') : ∃ entries, Kept w w' entries := by
  have hn := h.nextId_le
  cases h with
  | remark e he =>
    refine ⟨_, .note w fun module => ?_⟩
    cases e <;> first | rfl | exact absurd he id
  | hear | prevent => exact ⟨_, .note w fun _ => rfl⟩
  | leave place id label event =>
    exact ⟨_, .trans (.note w fun _ => rfl) (.updateRoster ..)⟩
  | unlisten label =>
    obtain ⟨hub, he, -⟩ := w.unlisten_cases label
    rw [he]
    exact ⟨[], .of_eq rfl rfl rfl (Nat.le_refl _) rfl⟩
  | unsubscribe key label =>
    obtain ⟨emitter, he, -⟩ := w.unsubscribe_cases key label
    rw [he]
    exact ⟨[], .of_eq rfl rfl rfl (Nat.le_refl _) rfl⟩
  | grant origin r _ => exact (grant_kept origin r).imp fun _ => And.left
  | fail name detail _ => exact ⟨_, .step rfl rfl rfl (Nat.le_refl _) rfl fun _ => rfl⟩
  | _ => exact ⟨[], .of_eq rfl rfl rfl hn rfl⟩

theorem Moves.kept (h : Moves L w w') : ∃ entries, Kept w w' entries := by
  induction h with
  | refl => exact ⟨[], .of_eq rfl rfl rfl (Nat.le_refl _) rfl⟩
  | tail _ h ih =>
    obtain ⟨entries, ih⟩ := ih
    obtain ⟨rest, h⟩ := h.kept
    exact ⟨entries ++ rest, ih.trans h⟩

namespace World

/-- What is told of a module stays told while nothing is loaded. -/
theorem Told.keep {entries : List Entry} {r : Record} {s s' : Surface E} (h : Told w module r s)
    (hroot : w'.root = w.root) (hj : w'.journal.toList = w.journal.toList ++ entries)
    (hl : loadsTold entries module = 0) (hid : s.id = s'.id) (hm : s.module = s'.module) :
    Told w' module r s' where
  name := h.name
  logPath := hroot ▸ h.logPath
  errorPath := hroot ▸ h.errorPath
  state := h.state
  generation := by rw [h.generation, hj, loadsTold_append, hl, Nat.add_zero]
  loaded := h.loaded
  surface := hm ▸ h.surface
  latest := by
    rw [hj, ← hid]
    exact h.latest.append hl

theorem Registered.keep {entries : List Entry} (h : Registered w) (hk : Kept w w' entries) :
    Registered w' where
  known module := by
    rw [hk.records]
    rcases h.known module with ⟨hr, hs, hl⟩ | ⟨r, s, hr, hs, ht⟩
    · refine .inl ⟨hr, ?_, ?_⟩
      · rwa [← version?_eq_none_iff, hk.surfaces, version?_eq_none_iff]
      · rw [hk.journal, loadsTold_append, hl, hk.silent]
    · have hv := hk.surfaces module
      rw [version?_of_surface hs] at hv
      obtain ⟨s', hs', hid, hm⟩ := version?_eq_some_iff.1 hv
      exact .inr ⟨r, s', hr, hs', ht.keep hk.root hk.journal (hk.silent module) hid.symm hm.symm⟩
  lt module v hv := Nat.lt_of_lt_of_le (h.lt module v (hk.surfaces module ▸ hv)) hk.nextId
  distinct module module' v v' hv hv' :=
    h.distinct module module' v v' (hk.surfaces module ▸ hv) (hk.surfaces module' ▸ hv')

/-! ## Loads -/

theorem finishRun_kept (origin : Origin) (r : Run E.State E.Callback) :
    ∃ entries, Kept w (w.finishRun origin r) entries ∧
      ∀ e ∈ entries, ∀ module, ¬ e.Judges module := by
  refine finishRun_related (R := fun w w' => ∃ entries, Kept w w' entries ∧
    ∀ e ∈ entries, ∀ module, ¬ e.Judges module) (fun _ => ?_) ?_ (fun _ _ => ?_)
    (fun _ => grant_kept origin) w r
  · exact ⟨[], .of_eq rfl rfl rfl (Nat.le_refl _) rfl, by simp⟩
  · rintro u v w ⟨entries, hk, hj⟩ ⟨rest, hk', hj'⟩
    refine ⟨entries ++ rest, hk.trans hk', fun e he => ?_⟩
    exact (List.mem_append.1 he).elim (hj e) (hj' e)
  · exact ⟨[], .of_eq rfl rfl rfl (Nat.le_refl _) rfl, by simp⟩

/-- A load is told, and then what came of it; nothing in between says how a module fares. -/
structure LoadTold (w w' : World E) (module : String) (modified : FileTime) (mid : List Entry)
    (failure : Option String) : Prop where
  root : w'.root = w.root
  nextId : w.nextId + 2 ≤ w'.nextId
  journal : w'.journal.toList = w.journal.toList ++
    .loading module w.nextId modified :: (mid ++ [.outcome module failure])
  unjudged : ∀ e ∈ mid, ¬ e.Judges module
  silent : ∀ name, loadsTold mid name = 0
  surfaces : ∀ name, w'.version? name =
    if name = module then some (w.nextId, module) else w.version? name
  records : ∀ name, w'.records.find? name =
    if name = module then some ((w.openRecord module modified).close failure)
    else w.records.find? name

theorem reload_told (module : String) (modified : FileTime) (source : String) :
    ∃ mid failure, LoadTold w (w.reload module modified source) module modified mid failure := by
  have hbegin : (w.beginLoad module modified).journal.toList =
      w.journal.toList ++ [.loading module w.nextId modified] := Array.toList_push
  have hversion (name : String) : (w.beginLoad module modified).version? name =
      if name = module then some (w.nextId, module) else w.version? name := by
    simp only [version?, beginLoad, replaceSurface, Table.find?_insert]
    split <;> rfl
  obtain ⟨mid, hk, hj⟩ := finishRun_kept
    (w := (w.beginLoad module modified).write module .truncateLog) ⟨w.nextId, module⟩
    (E.load module source)
  -- what is left: to tell the outcome, to give notice of it, to close the record
  generalize hv : ((w.beginLoad module modified).write module .truncateLog).finishRun
    ⟨w.nextId, module⟩ (E.load module source) = v at hk
  have hrecords (failure : Option String) (name : String) :
      (v.records.modify module (·.close failure)).find? name =
      if name = module then some ((w.openRecord module modified).close failure)
      else w.records.find? name := by
    have hr : v.records = w.records.insert module (w.openRecord module modified) := hk.records
    rw [hr]
    by_cases hn : name = module
    · rw [if_pos hn, hn, Table.find?_modify_self, Table.find?_insert_self, Option.map_some]
    · rw [if_neg hn, Table.find?_modify_of_ne _ hn, Table.find?_insert_of_ne _ hn]
  have hjournal (e : Entry) : (v.journal.push e).toList = w.journal.toList ++
      .loading module w.nextId modified :: (mid ++ [e]) := by
    have hj : v.journal.toList = (w.beginLoad module modified).journal.toList ++ mid := hk.journal
    rw [Array.toList_push, hj, hbegin]
    simp
  refine ⟨mid, (E.load module source).failure, ?_⟩
  rcases hf : (E.load module source).failure with _ | detail <;>
    simp only [World.reload, evaluate, hv, hf, noteOutcome]
  · exact ⟨hk.root, hk.nextId, hjournal _, fun e he => hj e he module, hk.silent,
      fun name => (hk.surfaces name).trans (hversion name), hrecords none⟩
  · exact ⟨hk.root, hk.nextId, hjournal _, fun e he => hj e he module, hk.silent,
      fun name => (hk.surfaces name).trans (hversion name), hrecords (some detail)⟩

/-- A record is opened with what is known of the module, or afresh. -/
theorem Registered.openRecord (h : Registered w) (module : String) (modified : FileTime) :
    (w.openRecord module modified).name = module ∧
    (w.openRecord module modified).modified = modified ∧
    (w.openRecord module modified).logPath = LiveModules.logPath w.root module ∧
    (w.openRecord module modified).errorPath = LiveModules.errorPath w.root module ∧
    (w.openRecord module modified).generation = loadsTold w.journal.toList module + 1 := by
  unfold World.openRecord
  rcases h.known module with ⟨hr, -, hl⟩ | ⟨r, s, hr, -, ht⟩ <;> rw [hr]
  · exact ⟨rfl, rfl, rfl, rfl, by rw [hl]⟩
  · exact ⟨ht.name, rfl, ht.logPath, ht.errorPath, by rw [← ht.generation]⟩

theorem Registered.load (h : Registered w) {modified : FileTime} {mid : List Entry}
    {failure : Option String} (hl : LoadTold w w' module modified mid failure) :
    Registered w' := by
  have hloads (name : String) : loadsTold w'.journal.toList name =
      loadsTold w.journal.toList name + if name = module then 1 else 0 := by
    have ho : Entry.loads name (.outcome module failure) = false := by cases failure <;> rfl
    have hm : mid.countP (Entry.loads name) = 0 := hl.silent name
    rw [hl.journal, loadsTold_append]
    simp only [loadsTold, List.countP_cons, List.countP_append, List.countP_nil, hm, ho]
    by_cases hn : name = module
    · simp [Entry.loads, hn]
    · simp [Entry.loads, hn, Ne.symm hn]
  refine ⟨fun name => ?_, fun name v hv => ?_, fun name name' v v' hv hv' hid => ?_⟩
  · by_cases hn : name = module
    · subst hn
      obtain ⟨s, hs, hid, hm⟩ := version?_eq_some_iff.1 ((hl.surfaces name).trans (if_pos rfl))
      obtain ⟨hname, hmod, hlog, herror, hgen⟩ := h.openRecord name modified
      refine .inr ⟨_, s, (hl.records name).trans (if_pos rfl), hs, hname, ?_, ?_, ?_, ?_, ?_, hm,
        ?_⟩
      · rw [hl.root]
        exact hlog
      · rw [hl.root]
        exact herror
      · rcases failure with _ | detail
        · exact .inl ⟨rfl, rfl⟩
        · exact .inr ⟨detail, rfl, rfl⟩
      · rw [hloads, if_pos rfl]
        exact hgen
      · exact hgen ▸ Nat.le_add_left 1 _
      · refine ⟨w.journal.toList, mid, [], ?_, hl.unjudged, hl.silent name, rfl⟩
        rw [hl.journal, hid, show ((w.openRecord name modified).close failure).modified = modified
          from hmod]
        rfl
    · rw [hl.records, if_neg hn]
      have hv := (hl.surfaces name).trans (if_neg hn)
      rcases h.known name with ⟨hr, hs, hz⟩ | ⟨r, s, hr, hs, ht⟩
      · refine .inl ⟨hr, ?_, ?_⟩
        · rwa [← version?_eq_none_iff, hv, version?_eq_none_iff]
        · rw [hloads, hz, if_neg hn]
      · rw [version?_of_surface hs] at hv
        obtain ⟨s', hs', hid, hm⟩ := version?_eq_some_iff.1 hv
        have hz := hloads name
        rw [hl.journal, loadsTold_append, if_neg hn, Nat.add_zero, Nat.add_eq_left] at hz
        exact .inr ⟨r, s', hr, hs', ht.keep hl.root hl.journal hz hid.symm hm.symm⟩
  · rw [hl.surfaces] at hv
    have := hl.nextId
    split at hv
    · cases hv
      show w.nextId < w'.nextId
      omega
    · have := h.lt name v hv
      omega
  · -- the number of a fresh surface is that of no other
    rw [hl.surfaces] at hv hv'
    split at hv <;> split at hv'
    · rename_i hn hn'
      rw [hn, hn']
    · cases hv
      have := h.lt name' v' hv'
      simp only at hid
      omega
    · cases hv'
      have := h.lt name v hv
      simp only at hid
      omega
    · exact h.distinct name name' v v' hv hv' hid

theorem Registered.reload (h : Registered w) (module : String) (modified : FileTime)
    (source : String) : Registered (w.reload module modified source) := by
  obtain ⟨mid, failure, hl⟩ := w.reload_told module modified source
  exact h.load hl

theorem Registered.readFailed (h : Registered w) (module source : String) :
    Registered (w.readFailed module source) :=
  h.keep (.step rfl rfl rfl (Nat.le_refl _) rfl fun _ => rfl)

end World

/-! ## Sites -/

/-- Neither a record nor a surface is ever taken away. -/
theorem Pass.contains (h : Pass L w w') (module : String) :
    (w.records.contains module → w'.records.contains module) ∧
      (w.surfaces.contains module → w'.surfaces.contains module) := by
  have hkept {entries : List Entry} {v : World E} (hk : Kept w v entries) :
      (w.records.contains module → v.records.contains module) ∧
        (w.surfaces.contains module → v.surfaces.contains module) := by
    refine ⟨fun hc => hk.records ▸ hc, fun hc => ?_⟩
    obtain ⟨s, hs⟩ := Option.isSome_iff_exists.1 hc
    obtain ⟨s', hs', -⟩ := version?_eq_some_iff.1
      ((hk.surfaces module).trans (version?_of_surface hs))
    rw [Table.contains, hs', Option.isSome_some]
  cases h with
  | turn h =>
    cases h with
    | move h =>
      obtain ⟨entries, hk⟩ := h.kept
      exact hkept hk
    | beginLoad name modified _ =>
      constructor <;> intro hc
      · show ((w.records.insert name _).find? module).isSome = true
        rw [Table.find?_insert]
        split
        · rfl
        · exact hc
      · show ((w.surfaces.insert name _).find? module).isSome = true
        rw [Table.find?_insert]
        split
        · rfl
        · exact hc
    | closeRecord name failure =>
      refine ⟨fun hc => ?_, id⟩
      rw [Table.contains, closeRecord]
      by_cases hn : module = name
      · subst hn
        rwa [Table.find?_modify_self, Option.isSome_map]
      · rwa [Table.find?_modify_of_ne _ hn]
    | _ => exact ⟨id, id⟩
  | _ => exact ⟨id, id⟩

theorem Passes.contains (h : Passes L w w') (module : String) :
    (w.records.contains module → w'.records.contains module) ∧
      (w.surfaces.contains module → w'.surfaces.contains module) := by
  induction h with
  | refl => exact ⟨id, id⟩
  | tail _ h ih => exact ⟨fun hc => (h.contains module).1 (ih.1 hc),
      fun hc => (h.contains module).2 (ih.2 hc)⟩

namespace Site

variable {C : FileTree → FileTree → Prop} {s s' s₀ : Site E}

theorem settle_registered (h : Registered s.world) : Registered s.settle.world := by
  refine settle_keeps (P := fun t => Registered t.world) ?_ fun t change _ ht => ?_
  · exact h.keep (.of_eq rfl rfl rfl (Nat.le_refl _) rfl)
  · rcases t.makeChange_cases change with ⟨files, -, he⟩ | ⟨e, he⟩ <;> rw [he]
    · exact ht
    · exact ht.keep (.note _ fun _ => rfl)

theorem reload_registered (h : Registered s.world) (name : String) (modified : FileTime)
    (source : String) : Registered (s.reload name modified source).world := by
  rw [reload_eq]
  exact settle_registered (s := { s with world := s.world.reload name modified source })
    (h.reload name modified source)

theorem visit_registered (h : Registered s.world) (name : String) :
    Registered (s.visit name).1.world :=
  visit_keeps (P := fun t => Registered t.world) h
    (fun e => by
      rw [readFailed_eq]
      exact settle_registered (s := { s with world := s.world.readFailed name e.message })
        (h.readFailed name e.message))
    (reload_registered h name)

theorem scan_registered (h : Registered s.world) : Registered s.scan.1.world := by
  have hs := s.scanned
  generalize s.scan = r at hs
  cases hs with
  | visited names =>
    exact visitAll_keeps (P := fun t => Registered t.world) (s := s.opened) h
      fun t name _ ht => visit_registered ht name
  | _ => exact h

theorem Moves.settle_registered {w : World E} (h : Registered s.world) (hm : Moves L s.world w) :
    Registered { s with world := w }.settle.world := by
  obtain ⟨entries, hk⟩ := hm.kept
  exact Site.settle_registered (s := { s with world := w }) (h.keep hk)

theorem Run.registered (h : Run L C s₀ s) : Registered s.world := by
  refine h.induction (P := fun s => Registered s.world) ?_ fun s s' hw ih hs => ?_
  · rintro root files extension rfl
    exact ⟨fun _ => .inl ⟨rfl, rfl, rfl⟩, fun _ _ hv => (by cases hv), fun _ _ _ _ hv => (by
      cases hv)⟩
  · cases hs with
    | change => exact ih
    | clock c => exact ih.keep (.of_eq rfl rfl rfl (Nat.le_refl _) rfl)
    | scan => exact scan_registered ih
    | reload name modified source => exact reload_registered ih name modified source
    | act fuel a r ha hs =>
      obtain ⟨w, h₁, rfl⟩ := act_inv hs
      exact Moves.settle_registered ih (perform_moves fuel ha hw h₁)
    | dispatch fuel name event n hs =>
      obtain ⟨w, h₁, rfl⟩ := dispatch_inv hs
      exact Moves.settle_registered ih (World.dispatch_moves (perform_moves fuel) hw h₁)
    | checkSpawns fuel owner keys hs =>
      obtain ⟨w, h₁, rfl⟩ := checkSpawns_inv hs
      exact Moves.settle_registered ih (World.spawnCheck_moves (perform_moves fuel) hw h₁)

end Site

/-- In every state between operations, each record stands under its own name with the paths of that
name, is active without an error or errored with what its latest load came to, and counts the loads
of its module. To each record there is one surface, that of the latest load, and to each surface a
record; no two modules share a surface; and no step takes a record or a surface away. -/
theorem registry_told {C : FileTree → FileTree → Prop} {s₀ s : Site E}
    (h : Site.Run L C s₀ s) :
    (∀ module r, s.world.records.find? module = some r → ∃ surface,
      s.world.surfaces.find? module = some surface ∧ Told s.world module r surface) ∧
    (∀ module surface, s.world.surfaces.find? module = some surface →
      ∃ r, s.world.records.find? module = some r) ∧
    (∀ module module' surface surface', s.world.surfaces.find? module = some surface →
      s.world.surfaces.find? module' = some surface' → surface.id = surface'.id →
      module = module') ∧
    ∀ s', Site.Step L C s s' → ∀ module,
      (s.world.records.contains module → s'.world.records.contains module) ∧
      (s.world.surfaces.contains module → s'.world.surfaces.contains module) := by
  have hr := h.registered
  refine ⟨fun module r hf => ?_, fun module surface hf => ?_, ?_, fun s' hs => ?_⟩
  · rcases hr.known module with ⟨hn, -⟩ | ⟨r', surface, hf', hs, ht⟩
    · rw [hf] at hn
      cases hn
    · cases hf.symm.trans hf'
      exact ⟨surface, hs, ht⟩
  · rcases hr.known module with ⟨-, hn, -⟩ | ⟨r, _, hf', -⟩
    · rw [hf] at hn
      cases hn
    · exact ⟨r, hf'⟩
  · intro module module' surface surface' hf hf' hid
    exact hr.distinct module module' _ _ (version?_of_surface hf) (version?_of_surface hf') hid
  · exact (hs.passes (h.licensed h.passes)).contains

/-- A module that failed and was loaded well since is active, and both loads are counted. -/
theorem recovered_module_told :
    ∃ (s : Site stumbler) (r : Record) (surface : Surface stumbler),
      Site.Run .all (fun _ _ => True) (.start "world" .empty none) s ∧
      s.world.records.find? "a.lua" = some r ∧ r.generation = 2 ∧ r.state = .active ∧
      s.world.surfaces.find? "a.lua" = some surface ∧ Told s.world "a.lua" r surface := by
  let s₀ : Site stumbler := .start "world" .empty none
  let s₁ := s₀.reload "a.lua" ⟨100, 0⟩ "at once"
  let s := s₁.reload "a.lua" ⟨200, 0⟩ "late"
  have hrun : Site.Run .all (fun _ _ => True) s₀ s :=
    ((Site.Run.refl "world" .empty none).tail (.reload s₀ "a.lua" ⟨100, 0⟩ "at once" trivial)).tail
      (.reload s₁ "a.lua" ⟨200, 0⟩ "late" trivial)
  have hs : (s.world.records.find? "a.lua").map (fun r => (r.generation, r.state)) =
      some (2, .active) := by decide +kernel
  obtain ⟨r, hr, he⟩ := Option.map_eq_some_iff.1 hs
  obtain ⟨hgen, hstate⟩ := Prod.mk.inj he
  obtain ⟨surface, hsurface, ht⟩ := (registry_told hrun).1 "a.lua" r hr
  exact ⟨s, r, surface, hrun, hr, hgen, hstate, hsurface, ht⟩

end LiveModules
