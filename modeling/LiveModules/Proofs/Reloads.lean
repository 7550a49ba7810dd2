import LiveModules.Proofs.Places
import LiveModules.World.Registry

/-!
# What a load changes

A load leaves every other module `Untouched`, and opens one record that says from which version of
the file it was and that it was one load more (`reload_record`). A file that could not be read
leaves its own module untouched, too.
-/

namespace LiveModules

attribute [local irreducible] lastOf

namespace World

variable {E : Engine} {w w' w'' : World E} {name : String}

/-- The time of modification that a module was last loaded with. -/
def modified? (w : World E) (name : String) : Option FileTime :=
  (w.records.find? name).map (·.modified)

/-- How often a module was loaded. -/
def generation (w : World E) (name : String) : Nat :=
  ((w.records.find? name).map (·.generation)).getD 0

theorem needsReload_iff {modified : FileTime} :
    w.needsReload name modified = true ↔ w.modified? name ≠ some modified := by
  unfold needsReload modified?
  cases w.records.find? name <;> simp

/-- A module kept its record and its surface, with all that is subscribed there, and was not
loaded. -/
structure Untouched (name : String) (w w' : World E) : Prop where
  record : w'.records.find? name = w.records.find? name
  surface : w'.surfaces.find? name = w.surfaces.find? name
  journal : ∃ entries, w'.journal.toList = w.journal.toList ++ entries ∧
    ∀ surface modified, .loading name surface modified ∉ entries

namespace Untouched

theorem of_eq (hr : w'.records = w.records) (hs : w'.surfaces = w.surfaces)
    (hj : w'.journal = w.journal) : Untouched name w w' :=
  ⟨by rw [hr], by rw [hs], [], by rw [hj, List.append_nil], fun _ _ h => (by cases h)⟩

theorem refl (w : World E) : Untouched name w w := of_eq rfl rfl rfl

theorem trans (h : Untouched name w w') (h' : Untouched name w' w'') : Untouched name w w'' := by
  obtain ⟨entries, hj, hl⟩ := h.journal
  obtain ⟨entries', hj', hl'⟩ := h'.journal
  refine ⟨h'.record.trans h.record, h'.surface.trans h.surface, entries ++ entries', ?_, ?_⟩
  · rw [hj', hj, List.append_assoc]
  · exact fun surface modified hm =>
      (List.mem_append.1 hm).elim (hl surface modified) (hl' surface modified)

theorem note (w : World E) {e : Entry}
    (he : ∀ surface modified, e ≠ .loading name surface modified) :
    Untouched name w (w.note e) :=
  ⟨rfl, rfl, [e], Array.toList_push, fun surface modified hm =>
    he surface modified (List.mem_singleton.1 hm).symm⟩

theorem modified?_eq (h : Untouched name w w') : w'.modified? name = w.modified? name := by
  rw [modified?, modified?, h.record]

theorem generation_eq (h : Untouched name w w') : w'.generation name = w.generation name := by
  rw [generation, generation, h.record]

end Untouched

/-! ## Runs of scripts -/

theorem grant_records (origin : Origin) (r : Request E.Callback) :
    (w.grant origin r).records = w.records := by
  cases r with
  | handler key callback =>
    rcases w.subscribeScript_cases ⟨origin, callback⟩ key with ⟨_, h⟩ | ⟨s, -, -, h⟩ <;>
      simp only [grant, h]
    rfl
  | _ => rfl

theorem grantAll_records (origin : Origin) : ∀ (requests : List (Request E.Callback)) (w : World E),
    (w.grantAll origin requests).records = w.records
  | [], _ => rfl
  | r :: requests, w =>
    (grantAll_records origin requests (w.grant origin r)).trans (grant_records origin r)

/-- A request touches the surface of its own module at most. -/
theorem grant_untouched {origin : Origin} (hn : name ≠ origin.module) (r : Request E.Callback) :
    Untouched name w (w.grant origin r) := by
  cases r with
  | handler key callback =>
    rcases w.subscribeScript_cases ⟨origin, callback⟩ key with ⟨_, h⟩ | ⟨s, -, -, h⟩ <;>
      simp only [grant, h]
    · exact .of_eq rfl rfl rfl
    · exact ⟨rfl, Table.find?_modify_of_ne _ hn _, [], by simp [updateRoster],
        fun _ _ hm => (by cases hm)⟩
  | item | preventDefault | log =>
    exact .trans (.note w fun _ _ => Entry.noConfusion) (.of_eq rfl rfl rfl)
  | _ => exact .of_eq rfl rfl rfl

theorem grantAll_untouched {origin : Origin} (hn : name ≠ origin.module) :
    ∀ (requests : List (Request E.Callback)) (w : World E),
      Untouched name w (w.grantAll origin requests)
  | [], _ => .refl _
  | r :: requests, _ => (grant_untouched hn r).trans (grantAll_untouched hn requests _)

/-! ## Loads -/

theorem evaluate_records (origin : Origin) (source : String) :
    (w.evaluate origin source).1.records = w.records := by
  simp only [evaluate, finishRun]
  cases (E.load origin.module source).failure <;> exact grantAll_records ..

theorem evaluate_untouched {origin : Origin} (hn : name ≠ origin.module) (source : String) :
    Untouched name w (w.evaluate origin source).1 := by
  have hrun : Untouched name w ((w.write origin.module .truncateLog).finishRun origin
      (E.load origin.module source)) := by
    unfold finishRun
    refine .trans ?_ (grantAll_untouched hn _ _)
    exact .of_eq rfl rfl rfl
  simp only [evaluate]
  cases (E.load origin.module source).failure <;>
  exact hrun.trans (.note _ fun _ _ => Entry.noConfusion)

theorem beginLoad_untouched {module : String} (hn : name ≠ module) (modified : FileTime) :
    Untouched name w (w.beginLoad module modified) := by
  refine ⟨Table.find?_insert_of_ne _ hn _, Table.find?_insert_of_ne _ hn _, _,
    Array.toList_push, ?_⟩
  intro surface modified hm
  cases List.mem_singleton.1 hm
  exact hn rfl

theorem closeRecord_untouched {module : String} (hn : name ≠ module) (failure : Option String) :
    Untouched name w (w.closeRecord module failure) :=
  ⟨Table.find?_modify_of_ne _ hn _, rfl, [], (List.append_nil _).symm, fun _ _ h => (by cases h)⟩

theorem reload_untouched {module : String} (hn : name ≠ module) (modified : FileTime)
    (source : String) : Untouched name w (w.reload module modified source) := by
  have ho : name ≠ (⟨w.nextId, module⟩ : Origin).module := hn
  have h : Untouched name w ((w.beginLoad module modified).evaluate ⟨w.nextId, module⟩ source).1 :=
    (beginLoad_untouched hn modified).trans (evaluate_untouched ho source)
  unfold reload
  rcases he : (w.beginLoad module modified).evaluate ⟨w.nextId, module⟩ source with
    ⟨v, _ | detail⟩ <;> rw [he] at h
  · have htold : Untouched name v (v.loadSucceeded module) := .of_eq rfl rfl rfl
    exact (h.trans htold).trans (closeRecord_untouched hn none)
  · have htold : Untouched name v (v.loadFailed module detail) := .of_eq rfl rfl rfl
    exact (h.trans htold).trans (closeRecord_untouched hn (some detail))

/-- The record of a module that was loaded says with which version, and counts the load. -/
theorem reload_record (module : String) (modified : FileTime) (source : String) :
    (w.reload module modified source).modified? module = some modified ∧
      (w.reload module modified source).generation module = w.generation module + 1 := by
  have hopen : ((w.beginLoad module modified).evaluate ⟨w.nextId, module⟩ source).1.records =
      w.records.insert module (w.openRecord module modified) := evaluate_records ..
  have hgen : (w.openRecord module modified).modified = modified ∧
      (w.openRecord module modified).generation = w.generation module + 1 := by
    unfold openRecord generation
    cases w.records.find? module <;> exact ⟨rfl, rfl⟩
  have hclose {v : World E} (failure : Option String)
      (hv : v.records = w.records.insert module (w.openRecord module modified)) :
      (v.closeRecord module failure).modified? module = some modified ∧
        (v.closeRecord module failure).generation module = w.generation module + 1 := by
    simp only [modified?, generation, closeRecord, hv, Table.find?_modify_self,
      Table.find?_insert_self, Option.map_some, Option.getD_some]
    exact ⟨congrArg some hgen.1, hgen.2⟩
  unfold reload
  rcases he : (w.beginLoad module modified).evaluate ⟨w.nextId, module⟩ source with
    ⟨v, _ | detail⟩ <;> rw [he] at hopen
  · exact hclose none hopen
  · exact hclose (some detail) hopen

theorem readFailed_untouched (module source : String) :
    Untouched name w (w.readFailed module source) :=
  .trans (.note w fun _ _ => Entry.noConfusion) (.of_eq rfl rfl rfl)

end World

end LiveModules
