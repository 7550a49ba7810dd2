import LiveModules.Error
import LiveModules.Json.Decode
import LiveModules.Text.Blank

/-!
# Configuration

Where the modules are, how often the directory is scanned and events tick, how long a script may
run, and which extension a module's name has. A valid configuration has a root, positive intervals
and no budget or extension that would mean nothing.
-/

namespace LiveModules

structure Config where
  root : String
  pollIntervalMs : Nat
  tickIntervalMs : Nat
  /-- Absent: scripts are never interrupted. -/
  evalTimeoutMs : Option Nat
  /-- Absent: names with any extension hold modules. -/
  extension : Option String
  deriving DecidableEq, Repr

namespace Config

def defaultPollMs : Nat := 5000

def defaultTickMs : Nat := 1000

def defaultExtension : Option String := some "lua"

def ofRoot (root : String) : Config :=
  ⟨root, defaultPollMs, defaultTickMs, none, defaultExtension⟩

/-- The configuration, if it is valid. -/
def validate (c : Config) : Except HostError Config :=
  if c.root.isEmpty then .error (.invalidInput "root" "World directory cannot be empty")
  else if c.pollIntervalMs = 0 then .error (.invalidInput "poll_interval_ms" "must be positive")
  else if c.tickIntervalMs = 0 then .error (.invalidInput "tick_interval_ms" "must be positive")
  else if c.evalTimeoutMs = some 0 then
    .error (.invalidInput "eval_timeout_ms" "must be positive when set")
  else if c.extension.any Text.allBlank then
    .error (.invalidInput "extension" "cannot be empty, omit it to accept any file")
  else .ok c

/-! ## The written form -/

def form : Json.Form :=
  ⟨"struct HostConfig", [.of "root" (Json.readText "path string") true,
    .of "poll_interval_ms" Json.readUnsigned false,
    .of "tick_interval_ms" Json.readUnsigned false,
    .of "eval_timeout_ms" (Json.readOption Json.readUnsigned) false,
    .of "extension" (Json.readOption (Json.readText "a string")) false]⟩

def read (d : Json.Draft) : Except Json.Fault Config := do
  let fields ← form.read d
  let root ←
    Json.fieldOr fields "root" (Json.readText "path string") (.error (.missingField "root"))
  let poll ← Json.fieldOr fields "poll_interval_ms" Json.readUnsigned (.ok defaultPollMs)
  let tick ← Json.fieldOr fields "tick_interval_ms" Json.readUnsigned (.ok defaultTickMs)
  let timeout ←
    Json.fieldOr fields "eval_timeout_ms" (Json.readOption Json.readUnsigned) (.ok none)
  let extension ← Json.fieldOr fields "extension" (Json.readOption (Json.readText "a string"))
    (.ok defaultExtension)
  return ⟨root, poll, tick, timeout, extension⟩

/-- The members of the written form; an absent budget is left out. -/
def members (c : Config) : Members :=
  ("root", .string c.root) :: ("poll_interval_ms", .nat c.pollIntervalMs) ::
    ("tick_interval_ms", .nat c.tickIntervalMs) ::
    (c.evalTimeoutMs.map fun ms => ("eval_timeout_ms", Json.nat ms)).toList ++
    [("extension", (c.extension.map Json.string).getD .null)]

/-- Reads a text and validates what it says. -/
def ofText (text : String) : Except HostError Config :=
  match Json.readWhole form.shape read text with
  | .error f => .error (.json f.message)
  | .ok c => c.validate

/-! ## Durations -/

structure Duration where
  secs : Nat
  nanos : Nat
  deriving DecidableEq, Repr

/-- Whole milliseconds, modulo 2^64. -/
def Duration.toMs (d : Duration) : Nat := (d.secs * 1000 + d.nanos / 1000000) % Nat.pow 2 64

def Duration.ofMs (ms : Nat) : Duration := ⟨ms / 1000, ms % 1000 * 1000000⟩

/-- What a configuration has a duration for. -/
inductive Timing where
  | poll
  | tick
  | timeout
  deriving DecidableEq, Repr

/-- The duration that a configuration has for `t`; only a timeout may be absent. -/
def duration? (c : Config) (t : Timing) : Option Duration :=
  match t with
  | .poll => some (.ofMs c.pollIntervalMs)
  | .tick => some (.ofMs c.tickIntervalMs)
  | .timeout => c.evalTimeoutMs.map .ofMs

/-- One setting of a configuration under construction. -/
inductive Setting where
  | pollInterval (d : Duration)
  | tickInterval (d : Duration)
  | evalTimeout (d : Duration)
  | extension (e : String)
  | anyExtension
  deriving DecidableEq, Repr

def apply (c : Config) : Setting → Config
  | .pollInterval d => { c with pollIntervalMs := d.toMs }
  | .tickInterval d => { c with tickIntervalMs := d.toMs }
  | .evalTimeout d => { c with evalTimeoutMs := some d.toMs }
  | .extension e => { c with extension := some e }
  | .anyExtension => { c with extension := none }

/-- Applies settings in turn to the defaults, and validates the result. -/
def build (root : String) (settings : List Setting) : Except HostError Config :=
  (settings.foldl apply (ofRoot root)).validate

end Config

end LiveModules
