import LiveModules.Options
import LiveModules.Script.Sandbox
import LiveModules.Site.Loop
import Std.Time.DateTime.Timestamp

/-!
# The program

Hosts a world directory until it is stopped: between the instants of the loop the directory is read
into a file tree, and what the host changed in it is written back. Notices go to standard output,
what modules log to standard error.
-/

namespace LiveModules.Program

def usage : String :=
  "Hot-reloading host for Lua world modules

Usage: worldhost [OPTIONS] <ROOT>

Arguments:
  [ROOT]  Directory containing world modules

Options:
  -c, --config <FILE>         JSON configuration file; other flags override its values
      --poll-ms <MS>          Milliseconds between directory scans
      --tick-ms <MS>          Milliseconds between tick events
      --eval-timeout-ms <MS>  Abort module code running longer than this
      --extension <EXT>       Only load files with this extension
      --any-extension         Load every non-hidden file regardless of extension
  -h, --help                  Print help
  -V, --version               Print version"

def version : String := "worldhost 0.1.1"

def usageFault : UsageError → String
  | .missingArgument => "the following required arguments were not provided:\n  <ROOT>"
  | .unknownArgument => "unexpected argument found"
  | .invalidValue => "a value is required"
  | .valueRejected => "invalid value for an option that takes milliseconds"
  | .conflict => "an argument cannot be used with another one, or more than once"
  | .tooManyValues => "unexpected value for an option that takes none"
  | .help | .version => ""

/-! ## The disk -/

/-- Time of a file as the host keeps it. -/
def timeOf (data : IO.FS.Metadata) : FileTime :=
  ⟨data.modified.sec.toNat, data.modified.nsec.toNat⟩

/-- Puts a file or link of the disk under `place`; directories are not entered. -/
def loadEntry (t : FileTree) (place : List String) (entry : IO.FS.DirEntry) : IO FileTree := do
  try
    let data ← entry.path.metadata
    match data.type with
    | .dir => return t.put place .dir
    | .file =>
      try return t.put place (.file (← IO.FS.readBinFile entry.path) (timeOf data) true)
      catch _ => return t.put place (.file .empty (timeOf data) false)
    | _ => return t
  catch _ => return t.put place (.link (String.ofList [FileName.nul]))

/-- Puts a directory with all that is directly in it under `place`. -/
def loadDir (t : FileTree) (place : List String) (dir : IO.FS.DirEntry) : IO FileTree := do
  if !(← dir.path.isDir) then return t
  let mut t := t
  for k in List.range place.length do
    t := t.put (place.take (k + 1)) .dir
  for entry in ← dir.path.readDir do
    t ← loadEntry t (place ++ [entry.fileName]) entry
  return t

def artifactDirs : List String := [errorsDir, logsDir]

/-- The world directory: where it is on the disk, and at which place of the tree. -/
structure Disk where
  root : IO.FS.DirEntry
  place : List String

/-- Reads the world directory and the files that tell of its modules. -/
def Disk.load (d : Disk) : IO FileTree := do
  let mut t ← loadDir .empty d.place d.root
  for name in artifactDirs do
    t ← loadDir t (d.place ++ [name]) ⟨d.root.path, name⟩
  return t

/-- Writes one place of a directory back to the disk. -/
def save (before after : FileTree) (place : List String) (entry : IO.FS.DirEntry) : IO Unit := do
  match before.node? place, after.node? place with
  | some (.file ..), none => IO.FS.removeFile entry.path
  | some (.file old _ _), some (.file new _ _) =>
    if old != new then IO.FS.writeBinFile entry.path new
  | _, some (.file new _ _) => IO.FS.writeBinFile entry.path new
  | none, some .dir => IO.FS.createDirAll entry.path
  | _, _ => return

/-- Writes back what changed among the files that tell of modules; what cannot be written is left
out. -/
def Disk.save (d : Disk) (before after : FileTree) : IO Unit := do
  for dir in artifactDirs do
    let place := d.place ++ [dir]
    let entry : IO.FS.DirEntry := ⟨d.root.path, dir⟩
    try Program.save before after place entry catch _ => pure ()
    let inside (p : List String) : Bool := p.length = place.length + 1 && place.isPrefixOf p
    for p in (before.nodes.keys ++ after.nodes.keys).filter inside do
      try Program.save before after p ⟨entry.path, p.getLastD ""⟩ catch _ => pure ()

/-! ## The loop -/

def consoleReader : String := "console"

/-- Prints what was broadcast and logged since it was last printed. -/
def report {E : Engine} (w : World E) : IO (World E) := do
  for e in w.journal do
    match e with
    | .logged module line => IO.eprintln ("[" ++ module ++ "] " ++ line)
    | _ => pure ()
  let w := { w with journal := #[] }
  match w.game.bus.read consoleReader with
  | none => return w
  | some (reading, bus) =>
    if reading.lagged ≠ 0 then
      IO.eprintln
        ("Notice console fell behind, " ++ toString reading.lagged ++ " notice(s) dropped")
    for n in reading.notices do
      IO.println ("[" ++ n.level.name ++ "] " ++ n.message)
    (← IO.getStdout).flush
    return { w with game := { w.game with bus } }

/-- Callbacks may nest this deep. -/
def nesting : Nat := 1000

/-- Does a job at the time of the wall clock, on the files of the disk. -/
def doJob {E : Engine} (disk : Disk) (s : Site E) (j : Job) : IO (Site E) := do
  let wall := (← Std.Time.Timestamp.now).toMillisecondsSinceUnixEpoch.val
  let files ← disk.load
  let world := { s.world with clock := ⟨0, some (Float.ofInt wall / 1000)⟩ }
  match Site.doJob nesting { s with files, world } j with
  | none => return s
  | some after =>
    disk.save files after.files
    return { after with world := ← report after.world }

/-- One turn of the loop after another: a job that is due, or a wait. -/
partial def loop {E : Engine} (disk : Disk) (begun : Nat) (s : Site E) (l : Loop) : IO Unit := do
  let l := { l with now := (← IO.monoMsNow) - begun }
  match l.first? with
  | some j => loop disk begun (← doJob disk s j) (l.advance j)
  | none =>
    IO.sleep 1
    loop disk begun s l

def host (c : Config) : IO Unit := do
  let w : World (Script.Sandbox.engine c.evalTimeoutMs) := (World.empty c.root).attachRelay
  let w := { w with game := { w.game with bus := w.game.bus.subscribe consoleReader } }
  let cwd ← IO.currentDir
  let place ← match FilePath.ofText c.root with
    | .error e => throw (IO.userError e.message)
    | .ok place => pure place
  if h : 0 < c.pollIntervalMs ∧ 0 < c.tickIntervalMs then
    loop ⟨⟨cwd, c.root⟩, place⟩ (← IO.monoMsNow) ⟨w, .empty, c.extension, false⟩ (.start c h.1 h.2)

/-- What a fault of the disk is called. -/
def faultText : IO.Error → String
  | .noFileOrDirectory .. => FileError.notFound.message
  | .permissionDenied .. => FileError.notPermitted.message
  | .inappropriateType .. => FileError.isDirectory.message
  | e => toString e

/-- The contents of a configuration file. -/
def contentsOf (path : String) : IO (Except String String) := do
  try return (Text.ofUtf8 (← IO.FS.readBinFile path)).mapError fun _ => FileError.notText.message
  catch e => return .error (faultText e)

def run (args : List String) : IO UInt32 := do
  match Options.ofArgs args with
  | .error .help =>
    IO.println usage
    return 0
  | .error .version =>
    IO.println version
    return 0
  | .error e =>
    IO.eprintln ("error: " ++ usageFault e ++ "\n\nFor more information, try '--help'.")
    return 2
  | .ok o =>
    let contents ← match o.config with
      | some path => contentsOf path
      | none => pure (.error "")
    match o.toConfig fun _ => contents with
    | .error chain =>
      IO.eprintln ("Error: " ++ ": ".intercalate chain)
      return 1
    | .ok c =>
      host c
      return 0

end LiveModules.Program

def main (args : List String) : IO UInt32 := LiveModules.Program.run args
