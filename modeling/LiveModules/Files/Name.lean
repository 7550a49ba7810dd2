import LiveModules.Text.Utf8

/-!
# Names and paths of files

A path is a list of names from the top down. A name that is not UTF-8 is kept as U+0000 and the
bytes in hexadecimal; no other name has that character, so the two kinds never meet.
-/

namespace LiveModules

inductive FileError where
  | notFound
  | notPermitted
  | exists
  | notDirectory
  | isDirectory
  | nameTooLong
  | notEmpty
  | linkLoop
  | nulInName
  | notText
  deriving DecidableEq, Repr

def FileError.message : FileError → String
  | notFound => "No such file or directory (os error 2)"
  | notPermitted => "Permission denied (os error 13)"
  | .exists => "File exists (os error 17)"
  | notDirectory => "Not a directory (os error 20)"
  | isDirectory => "Is a directory (os error 21)"
  | nameTooLong => "File name too long (os error 36)"
  | notEmpty => "Directory not empty (os error 39)"
  | linkLoop => "Too many levels of symbolic links (os error 40)"
  | nulInName => "file name contained an unexpected NUL byte"
  | notText => "stream did not contain valid UTF-8"

namespace FileName

def nul : Char := '\x00'

/-- Whether a name is UTF-8. -/
def isText (name : String) : Bool := name.toList.head? != some nul

def hexByte (b : UInt8) : List Char :=
  let digit (n : Nat) := (Nat.toDigits 16 n).getLastD '0'
  [digit (b.toNat / 16), digit b.toNat]

/-- The name that the bytes spell. -/
def ofBytes (bytes : ByteArray) : String :=
  match Text.ofUtf8 bytes with
  | .ok s => s
  | .error _ => String.ofList (nul :: bytes.toList.flatMap hexByte)

/-- The longest name that files may have, in bytes. -/
def limit : Nat := 255

def tooLong (name : String) : Bool := isText name && limit < name.utf8ByteSize

end FileName

namespace FilePath

def startsWithSlash (path : String) : Bool := path.toList.head? == some '/'

def endsWithSlash (path : String) : Bool := path.toList.getLast? == some '/'

/-- The names between the slashes of a path. -/
def names (path : String) : List String :=
  (path.toList.splitOn '/').map String.ofList |>.filter (· ≠ "")

/-- The names in a path; one that ends in a slash goes on with `.`, which only a directory has. -/
def split (path : String) : List String :=
  if endsWithSlash path then names path ++ ["."] else names path

def ofText (path : String) : Except FileError (List String) :=
  if path.toList.contains FileName.nul then .error .nulInName
  else if path.isEmpty then .error .notFound
  else .ok (split path)

end FilePath

end LiveModules
