import LiveModules.Text.Blank

/-!
# Names of modules

Which names in the watched directory hold a module. Hidden names never do; where an extension is
set, what stands behind the last dot of the last path component has to be it.
-/

namespace LiveModules.ModuleName

/-- Cuts at every `sep`. -/
def splitAt (sep : Char) : List Char → List (List Char)
  | [] => [[]]
  | c :: rest =>
    if c = sep then [] :: splitAt sep rest
    else match splitAt sep rest with
      | [] => [[c]]
      | part :: parts => (c :: part) :: parts

/-- The last component of a path that is neither empty nor `.`; a leading `.` counts. -/
def lastComponent? (path : List Char) : Option (List Char) :=
  match splitAt '/' path with
  | [] => none
  | first :: parts =>
    let inner := parts.filter fun p => p ≠ [] ∧ p ≠ ['.']
    (if first = [] then inner else first :: inner).getLast?

/-- What stands behind the last dot of the last component, unless that dot leads it. -/
def extension? (path : List Char) : Option (List Char) :=
  match lastComponent? path with
  | none => none
  | some name =>
    if name = ['.'] ∨ name = ['.', '.'] then none
    else
      let behind := (name.reverse.takeWhile (· ≠ '.')).reverse
      let before := name.length - behind.length
      if before ≤ 1 then none else some behind

/-- Whether a directory entry of this name holds a module. -/
def eligible (name : String) (extension : Option String) : Bool :=
  match name.toList with
  | [] => false
  | c :: rest =>
    c ≠ '.' && c ≠ '~' &&
      match extension with
      | none => true
      | some e => extension? (c :: rest) == some e.toList

end LiveModules.ModuleName
