import LiveModules.Files.Name
import LiveModules.Files.Time
import LiveModules.Table

/-!
# File trees

Directories, files and symbolic links under the top directory, each under its path. A path is
resolved name by name; links are followed, though not more than forty of them.
-/

namespace LiveModules

inductive FileNode where
  | file (content : ByteArray) (modified : FileTime) (readable : Bool)
  | dir
  | link (target : String)

/-- What a path leads to. -/
inductive FileKind where
  | file (modified : FileTime)
  | dir
  deriving DecidableEq, Repr

structure FileTree where
  nodes : Table (List String) FileNode
  /-- The time that files written by the host get. -/
  stamp : FileTime

namespace FileTree

def empty : FileTree := ⟨∅, ⟨0, 0⟩⟩

/-- What stands under a path whose directories are no links. -/
def node? (t : FileTree) : List String → Option FileNode
  | [] => some .dir
  | path => t.nodes.find? path

/-- Walks from the directory `base` along the names. The last name need not exist; whether a link
there is followed, `last` says. `follow` goes on from a directory along what a link says and the
names behind it. -/
def walkNames (t : FileTree) (last : Bool)
    (follow : List String → List String → Except FileError (List String)) (base : List String) :
    List String → Except FileError (List String)
  | [] => .ok base
  | name :: rest =>
    if name = "." then walkNames t last follow base rest
    else if name = ".." then walkNames t last follow base.dropLast rest
    else if FileName.tooLong name then .error .nameTooLong
    else
      let path := base ++ [name]
      match t.node? path with
      | none => if rest = [] then .ok path else .error .notFound
      | some (.file ..) => if rest = [] then .ok path else .error .notDirectory
      | some .dir => walkNames t last follow path rest
      | some (.link target) =>
        if rest = [] ∧ !last then .ok path
        else follow (if FilePath.startsWithSlash target then [] else base)
            (FilePath.split target ++ rest)

/-- Walks from `base` along the names, `links` links being followed at most. -/
def walk (t : FileTree) (last : Bool) : (links : Nat) → (base names : List String) →
    Except FileError (List String)
  | 0 => walkNames t last fun _ _ => .error .linkLoop
  | links + 1 => walkNames t last (walk t last links)

def maxLinks : Nat := 40

/-- The place that a path leads to, links followed. -/
def resolve (t : FileTree) (path : List String) : Except FileError (List String) :=
  t.walk true maxLinks [] path

/-- The place of the last name itself, which may be a link. -/
def resolveEntry (t : FileTree) (path : List String) : Except FileError (List String) :=
  t.walk false maxLinks [] path

def put (t : FileTree) (place : List String) (node : FileNode) : FileTree :=
  { t with nodes := t.nodes.insert place node }

/-! ## Looking -/

def stat (t : FileTree) (path : List String) : Except FileError FileKind := do
  match t.node? (← t.resolve path) with
  | some (.file _ modified _) => return .file modified
  | some .dir => return .dir
  | _ => throw .notFound

def isDir (t : FileTree) (path : List String) : Bool :=
  match t.stat path with
  | .ok .dir => true
  | _ => false

def read (t : FileTree) (path : List String) : Except FileError ByteArray := do
  match t.node? (← t.resolve path) with
  | some (.file content _ readable) => if readable then return content else throw .notPermitted
  | some .dir => throw .isDirectory
  | _ => throw .notFound

/-- The content of a file as text. -/
def readText (t : FileTree) (path : List String) : Except FileError String := do
  (Text.ofUtf8 (← t.read path)).mapError fun _ => .notText

/-- The names in a directory, in order. -/
def list (t : FileTree) (path : List String) : Except FileError (List String) := do
  let place ← t.resolve path
  match t.node? place with
  | some .dir =>
    return t.nodes.keys.filterMap fun p =>
      if p.dropLast = place then p.getLast? else none
  | some _ => throw .notDirectory
  | none => throw .notFound

/-! ## Changing -/

/-- Writes a file, which is made if there is none: `change` gives its content from the old one. -/
def writeWith (t : FileTree) (path : List String) (modified : FileTime)
    (change : ByteArray → ByteArray) : Except FileError FileTree := do
  let names := if path.getLast? = some "." then path.dropLast else path
  let place ← t.resolve names
  match t.node? place with
  | some .dir => throw .isDirectory
  | some (.file content _ readable) =>
    if names.length < path.length then throw .notDirectory
    return t.put place (.file (change content) modified readable)
  | some (.link _) => throw .linkLoop
  | none =>
    if names.length < path.length then throw .isDirectory
    return t.put place (.file (change .empty) modified true)

/-- Writes a file anew. -/
def write (t : FileTree) (path : List String) (modified : FileTime) (content : ByteArray) :
    Except FileError FileTree :=
  t.writeWith path modified fun _ => content

def append (t : FileTree) (path : List String) (modified : FileTime) (content : ByteArray) :
    Except FileError FileTree :=
  t.writeWith path modified (· ++ content)

/-- Removes a file or a link. -/
def remove (t : FileTree) (path : List String) : Except FileError FileTree := do
  let place ← t.resolveEntry path
  match t.node? place with
  | none => throw .notFound
  | some .dir => throw .isDirectory
  | some _ => return { t with nodes := t.nodes.erase place }

/-- Makes one directory. -/
def makeDir (t : FileTree) (path : List String) : Except FileError FileTree := do
  let path := if path.getLast? = some "." then path.dropLast else path
  let place ← t.resolveEntry path
  match t.node? place with
  | some _ => throw .exists
  | none => return t.put place .dir

/-- Makes a directory and those above it that are missing; the path is given from its end. -/
def makeDirsFrom (t : FileTree) : List String → Except FileError FileTree
  | [] => .ok t
  | name :: above =>
    let path := (name :: above).reverse
    match t.makeDir path with
    | .ok t => .ok t
    | .error .notFound => do
      let t ← t.makeDirsFrom above
      match t.makeDir path with
      | .ok t => return t
      | .error e => if t.isDir path then return t else throw e
    | .error e => if t.isDir path then .ok t else .error e

def makeDirs (t : FileTree) (path : List String) : Except FileError FileTree :=
  t.makeDirsFrom path.reverse

/-- Removes a directory with all that is in it, or a link. -/
def removeDir (t : FileTree) (path : List String) : Except FileError FileTree := do
  let place ← t.resolveEntry path
  match t.node? place with
  | none => throw .notFound
  | some (.file ..) => throw .notDirectory
  | some _ => return { t with nodes := t.nodes.filter fun p _ => !place.isPrefixOf p }

def makeLink (t : FileTree) (path : List String) (target : String) :
    Except FileError FileTree := do
  let place ← t.resolveEntry path
  match t.node? place with
  | some _ => throw .exists
  | none => return t.put place (.link target)

end FileTree

end LiveModules
