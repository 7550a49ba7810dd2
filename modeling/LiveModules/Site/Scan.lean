import LiveModules.ModuleName
import LiveModules.Site.Artifacts

/-!
# Scanning

A site is a world with the files it lives among. What happens in the world happens on the drive of
the site: a change of files is made, or found impossible, when the world comes to it. A scan looks
at every name that can hold a module, in order, and loads those whose time of modification is not
the recorded one. A file that fails leaves the others alone.
-/

namespace LiveModules

structure Site (E : Engine) where
  world : World E
  files : FileTree
  /-- The extension of module names; absent if any will do. -/
  extension : Option String
  /-- Whether a scan is under way. -/
  scanning : Bool

/-- What a scan did. -/
structure ScanReport where
  reloaded : List String
  failed : List String
  unchanged : List String
  /-- Recorded modules whose file is gone. -/
  missing : List String
  /-- Another scan was under way. -/
  skipped : Bool
  deriving DecidableEq, Repr

def ScanReport.empty : ScanReport := ⟨[], [], [], [], false⟩

def ScanReport.changed (r : ScanReport) : Bool := !r.reloaded.isEmpty || !r.failed.isEmpty

/-- What a scan made of one name. -/
inductive Sighting where
  | reloaded
  | failed
  | unchanged
  /-- Not a file. -/
  | passedOver
  deriving DecidableEq, Repr

namespace Site

variable {E : Engine}

def drive (s : Site E) : Drive := ⟨s.world.root, s.files, .never, #[]⟩

/-- The world on the drive of the site; changes that wait are made first. -/
def mounted (s : Site E) : World E Drive := s.world.onDisk (s.drive.makeAll s.world.disk)

/-- Takes a world off the drive, which leaves the files as they are now; what was not possible is
noted. -/
def unmount (s : Site E) (w : World E Drive) : Site E :=
  { s with
    files := w.disk.files
    world := w.disk.warnings.foldl (fun w c => w.note (.unwritten c.1 c.2)) (w.onDisk #[]) }

def pathOf (s : Site E) (name : String) : String := joinPath s.world.root name

/-- What a name of the directory leads to. -/
def stat (s : Site E) (name : String) : Except FileError FileKind :=
  FilePath.ofText (s.pathOf name) >>= s.files.stat

def readText (s : Site E) (name : String) : Except FileError String :=
  FilePath.ofText (s.pathOf name) >>= s.files.readText

/-- Reports a module whose file could not be looked at or read. -/
def readFailed (s : Site E) (name : String) (e : FileError) : Site E :=
  s.unmount (s.mounted.readFailed name e.message)

/-- Loads a version of a module. -/
def reload (s : Site E) (name : String) (modified : FileTime) (source : String) : Site E :=
  s.unmount (s.mounted.reload name modified source)

/-- Reads a module's file and loads what it says. -/
def readAndReload (s : Site E) (name : String) (modified : FileTime) : Site E × Sighting :=
  match s.readText name with
  | .error e => (s.readFailed name e, .failed)
  | .ok source =>
    let s := s.reload name modified source
    (s, if s.world.stateOf name = .active then .reloaded else .failed)

/-- Looks at one name. -/
def visit (s : Site E) (name : String) : Site E × Sighting :=
  match s.stat name with
  | .error e => (s.readFailed name e, .failed)
  | .ok .dir => (s, .passedOver)
  | .ok (.file modified) =>
    if s.world.needsReload name modified then s.readAndReload name modified
    else (s, .unchanged)

/-- The sightings of the names in turn. -/
def visitAll (s : Site E) : List String → Site E × List (String × Sighting)
  | [] => (s, [])
  | name :: rest =>
    let (s, sighting) := s.visit name
    let (s, sightings) := s.visitAll rest
    (s, (name, sighting) :: sightings)

/-- The names in the directory that can hold a module, in order. -/
def moduleNames (s : Site E) : Except FileError (List String) := do
  let path ← FilePath.ofText s.world.root
  let names ← s.files.list path
  return (names.filter fun n => FileName.isText n && ModuleName.eligible n s.extension).mergeSort
    fun a b => compare a b != .gt

def rootIsDir (s : Site E) : Bool :=
  match FilePath.ofText s.world.root with
  | .ok path => s.files.isDir path
  | .error _ => false

/-- What the sightings say, `recorded` being the names with a record. -/
def report (recorded : List String) (sightings : List (String × Sighting)) : ScanReport :=
  let seen (v : Sighting) := (sightings.filter (·.2 = v)).map (·.1)
  { reloaded := seen .reloaded
    failed := seen .failed
    unchanged := seen .unchanged
    missing := recorded.filter fun n =>
      !sightings.any fun e => e.1 == n && e.2 != .passedOver
    skipped := false }

/-- Makes the directories that the host writes to; the fault that stopped it comes with what was
made. -/
def openDirs (s : Site E) : Site E × Option HostError :=
  let (files, fault) := Artifacts.ensureDirs s.files s.world.root
  ({ s with files }, fault)

/-- A scan that no other scan stands in the way of. -/
def scanNow (s : Site E) : Site E × Except HostError ScanReport :=
  if !s.rootIsDir then (s, .error (.directoryNotFound s.world.root))
  else
    match s.openDirs with
    | (s, some e) => (s, .error e)
    | (s, none) =>
      match s.moduleNames with
      | .error e => (s, .error (.scanFailed s.world.root e.message))
      | .ok names =>
        let (s, sightings) := s.visitAll names
        (s, .ok (report s.world.records.keys sightings))

/-- One pass over the directory. -/
def scan (s : Site E) : Site E × Except HostError ScanReport :=
  if s.scanning then (s, .ok { ScanReport.empty with skipped := true })
  else
    let (s, outcome) := { s with scanning := true }.scanNow
    ({ s with scanning := false }, outcome)

/-! ## Everything else -/

/-- Performs an action. -/
def act (fuel : Nat) (a : Action) (s : Site E) : Option (Site E × Answer) :=
  (perform fuel a s.mounted).map fun r => (s.unmount r.1, r.2)

def tickEvent : GameEvent := ⟨.tick, []⟩

/-- Emits the built-in event. -/
def tick (fuel : Nat) (s : Site E) : Option (Site E × Answer) := s.act fuel (.emit tickEvent)

/-- Runs the timers that are due. -/
def runTimers (fuel : Nat) (s : Site E) : Option (Site E × Answer) :=
  s.act fuel (.runDue s.world.clock.now)

/-- Delivers an event to the current surface of one module. -/
def dispatch (fuel : Nat) (module : String) (event : GameEvent) (s : Site E) :
    Option (Site E × Nat) :=
  (s.mounted.dispatch (perform fuel) (.surface module) event).map fun r => (s.unmount r.1, r.2)

/-- Checks the spawn rules of somebody known by a label. -/
def checkSpawns (fuel : Nat) (owner : String) (s : Site E) : Option (Site E × List SpawnKey) :=
  (s.mounted.spawnCheck (perform fuel) (.label owner)).map fun r => (s.unmount r.1, r.2)

end Site

end LiveModules
