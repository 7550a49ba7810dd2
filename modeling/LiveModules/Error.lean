/-!
# Errors of the host

Each constructor is a cause; `message` is its one wording.
-/

namespace LiveModules

inductive HostError where
  | directoryNotFound (path : String)
  | scanFailed (path source : String)
  | moduleRead (module source : String)
  | evaluation (module detail : String)
  | handler (module target detail : String)
  | script (detail : String)
  | artifact (path source : String)
  | invalidInput (field reason : String)
  | io (source : String)
  | json (source : String)
  deriving DecidableEq, Repr

namespace HostError

def message : HostError → String
  | directoryNotFound path => s!"World directory not found: {path}"
  | scanFailed path source => s!"Failed to scan {path}: {source}"
  | moduleRead module source => s!"Failed to read module '{module}': {source}"
  | evaluation module detail => s!"Module '{module}' failed to evaluate: {detail}"
  | handler module target detail =>
    s!"Module '{module}' failed while handling '{target}': {detail}"
  | script detail => s!"Lua script error: {detail}"
  | artifact path source => s!"Artifact I/O failed for {path}: {source}"
  | invalidInput field reason => s!"Invalid input for field '{field}': {reason}"
  | io source => s!"IO error: {source}"
  | json source => s!"JSON serialization error: {source}"

/-- The wording of the error beneath this one, if there is one. -/
def source? : HostError → Option String
  | scanFailed _ source | moduleRead _ source | artifact _ source | io source | json source =>
    some source
  | _ => none

/-- The wordings from this error down to the last beneath it. -/
def chain (e : HostError) : List String := e.message :: e.source?.toList

end HostError

end LiveModules
