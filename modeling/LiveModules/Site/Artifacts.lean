import LiveModules.Files.Tree
import LiveModules.World.Registry

/-!
# Files that tell of a module

Under the watched directory, `.logs` holds what each module logged since it was last loaded, and
`.errors` what last went wrong with a module that has not been loaded well since.
-/

namespace LiveModules

namespace Artifacts

/-- A change of the file at `path`, its fault as an error of the host. -/
def changeAt (path : String) (change : List String → Except FileError FileTree) :
    Except HostError FileTree :=
  (FilePath.ofText path >>= change).mapError fun e => .artifact path e.message

/-- Makes the directories that are missing; the fault that stopped it comes with what was made. -/
def ensureDirs (t : FileTree) (root : String) : FileTree × Option HostError :=
  make t [joinPath root errorsDir, joinPath root logsDir]
where
  make (t : FileTree) : List String → FileTree × Option HostError
    | [] => (t, none)
    | path :: rest =>
      match changeAt path fun p => if t.isDir p then .ok t else t.makeDirs p with
      | .ok t => make t rest
      | .error e => (t, some e)

def truncateLog (t : FileTree) (root module : String) : Except HostError FileTree :=
  changeAt (logPath root module) fun p => t.write p t.stamp .empty

def appendLog (t : FileTree) (root module line : String) : Except HostError FileTree :=
  changeAt (logPath root module) fun p => t.append p t.stamp (line ++ "\n").toUTF8

def writeError (t : FileTree) (root module detail : String) : Except HostError FileTree :=
  changeAt (errorPath root module) fun p => t.write p t.stamp detail.toUTF8

/-- Removes the error file; answers whether there was one. -/
def clearError (t : FileTree) (root module : String) : Except HostError (FileTree × Bool) :=
  let path := errorPath root module
  match FilePath.ofText path >>= t.remove with
  | .ok t => .ok (t, true)
  | .error .notFound => .ok (t, false)
  | .error e => .error (.artifact path e.message)

def readError (t : FileTree) (root module : String) : Option String :=
  (FilePath.ofText (errorPath root module) >>= t.readText).toOption

/-- Makes one change of the files that tell of a module. -/
def make (t : FileTree) (root module : String) : ArtifactWrite → Except HostError FileTree
  | .truncateLog => truncateLog t root module
  | .appendLog line => appendLog t root module line
  | .clearError => (clearError t root module).map Prod.fst
  | .writeError detail => writeError t root module detail

end Artifacts

/-- Which changes of files are refused, whatever the files are like, and why. -/
def Refusals := FileTree → String → ArtifactWrite → Option HostError

def Refusals.never : Refusals := fun _ _ _ => none

/-- The files under the watched directory, with what went wrong in changing them. -/
structure Drive where
  root : String
  files : FileTree
  refuses : Refusals
  /-- Changes that were not possible, in order, each with its module. -/
  warnings : Array (String × HostError)

instance : Disk Drive where
  make d module a :=
    match d.refuses d.files module a with
    | some e => .error e
    | none => (Artifacts.make d.files d.root module a).map fun files => { d with files }
  warn d module e := { d with warnings := d.warnings.push (module, e) }

/-- Makes changes that waited, in order. -/
def Drive.makeAll (d : Drive) (changes : Outbox) : Drive :=
  changes.foldl (fun d c => Disk.put d c.1 c.2) d

end LiveModules
