import LiveModules.World.Perform

/-!
# Loading modules

To load a module makes a fresh surface current and runs the text in it. The surface that was current
loses its spawn rules; all else that it registered stays until something replaces it. A load that
fails keeps what was registered before the failure.
-/

namespace LiveModules

namespace World

variable {E : Engine} {D : Type}

/-- Whether a module was never loaded, or from another version of its file. -/
def needsReload (w : World E D) (module : String) (modified : FileTime) : Bool :=
  match w.records.find? module with
  | some r => r.modified ≠ modified
  | none => true

/-- The record of a module that is about to be loaded. -/
def openRecord (w : World E D) (module : String) (modified : FileTime) : Record :=
  match w.records.find? module with
  | some r => { r with modified, state := .loading, generation := r.generation + 1 }
  | none =>
    ⟨module, modified, .loading, logPath w.root module, errorPath w.root module, none, 1⟩

/-- A surface that only checks the spawn rules it will own. -/
def freshSurface (w : World E D) (module : String) : Surface E :=
  ⟨w.nextId, module, Roster.empty.add .tick (w.nextId + 1) (.spawnCheck w.nextId)⟩

/-- Makes a fresh surface current; the one before it loses its spawn rules and keeps its emitter. -/
def replaceSurface (w : World E D) (module : String) : World E D :=
  let (spawns, retired) := match w.surfaces.find? module with
    | some previous => (w.spawns.release (.surface previous.id),
      w.retired.insert previous.id previous.emitter)
    | none => (w.spawns, w.retired)
  { w with
    spawns
    retired
    nextId := w.nextId + 2
    surfaces := w.surfaces.insert module (w.freshSurface module) }

/-- Notes how the evaluation of a module ended. -/
def noteOutcome (w : World E D) (module : String) : Option String → World E D
  | none => w.note (.loaded module)
  | some detail => w.note (.failed module detail)

/-- Runs the text of a module in its fresh surface; answers what went wrong, if it failed. -/
def evaluate [Disk D] (w : World E D) (origin : Origin) (source : String) :
    World E D × Option String :=
  let r := E.load origin.module source
  (((w.write origin.module .truncateLog).finishRun origin r).noteOutcome origin.module r.failure,
    r.failure)

/-- Notes how a load ended. -/
def closeRecord (w : World E D) (module : String) (failure : Option String) : World E D :=
  { w with records := w.records.modify module fun r =>
      { r with lastError := failure, state := if failure.isNone then .active else .errored } }

def loadSucceeded [Disk D] (w : World E D) (module : String) : World E D :=
  (w.write module .clearError).notify ⟨.warn, "Reloaded world module: " ++ module⟩

/-- The notice of a module that could not be loaded. -/
def loadError (module detail : String) : Notice :=
  ⟨.error, "Error loading world module: " ++ module ++ "\n" ++ detail⟩

def loadFailed [Disk D] (w : World E D) (module detail : String) : World E D :=
  ((w.broadcast ("Oh no some one broke " ++ module ++ "!")).writeError module detail).notify
    (loadError module detail)

/-- Opens the record of a module and makes a fresh surface current. -/
def beginLoad (w : World E D) (module : String) (modified : FileTime) : World E D :=
  ({ w with records := w.records.insert module (w.openRecord module modified) }.note
    (.loading module w.nextId modified)).replaceSurface module

/-- Loads a version of a module. -/
def reload [Disk D] (w : World E D) (module : String) (modified : FileTime) (source : String) :
    World E D :=
  let (loaded, failure) := (w.beginLoad module modified).evaluate ⟨w.nextId, module⟩ source
  let told := match failure with
    | none => loaded.loadSucceeded module
    | some detail => loaded.loadFailed module detail
  told.closeRecord module failure

/-- The state of a module's record. -/
def stateOf (w : World E D) (module : String) : ModuleState :=
  ((w.records.find? module).map (·.state)).getD .unloaded

/-- A module whose file could not be read: its record is left alone. -/
def readFailed [Disk D] (w : World E D) (module source : String) : World E D :=
  let detail := (HostError.moduleRead module source).message
  ((w.note (.failed module detail)).writeError module detail).notify (loadError module detail)

/-- Attaches the relay that hands the events of the hub on to the surfaces. -/
def attachRelay (w : World E D) : World E D :=
  { w with nextId := w.nextId + 1, hub := w.hub.onAny w.nextId .relay }

end World

end LiveModules
