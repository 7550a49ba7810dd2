import LiveModules.Config

/-!
# Options of the command line

Arguments are read from left to right. The value of an option is checked only when the next
argument that is known, or the end, is met; then conflicts and missing arguments are looked for.
`Options.toConfig` merges what was given over the configuration file and the defaults.
-/

namespace LiveModules

structure Options where
  root : Option String
  config : Option String
  pollMs : Option Nat
  tickMs : Option Nat
  evalTimeoutMs : Option Nat
  extension : Option String
  anyExtension : Bool
  deriving DecidableEq, Repr

inductive UsageError where
  | missingArgument
  | unknownArgument
  | invalidValue
  | valueRejected
  | conflict
  | tooManyValues
  | help
  | version
  deriving DecidableEq, Repr

namespace Options

/-- What takes a value. -/
inductive Param where
  | root
  | config
  | pollMs
  | tickMs
  | evalTimeoutMs
  | extension
  deriving DecidableEq, Repr

/-- What takes none. -/
inductive Switch where
  | anyExtension
  | help
  | version
  deriving DecidableEq, Repr

def empty : Options := ⟨none, none, none, none, none, none, false⟩

def long? (name : String) : Option (Param ⊕ Switch) :=
  match name with
  | "config" => some (.inl .config)
  | "poll-ms" => some (.inl .pollMs)
  | "tick-ms" => some (.inl .tickMs)
  | "eval-timeout-ms" => some (.inl .evalTimeoutMs)
  | "extension" => some (.inl .extension)
  | "any-extension" => some (.inr .anyExtension)
  | "help" => some (.inr .help)
  | "version" => some (.inr .version)
  | _ => none

def short? (c : Char) : Option (Param ⊕ Switch) :=
  match c with
  | 'c' => some (.inl .config)
  | 'h' => some (.inr .help)
  | 'V' => some (.inr .version)
  | _ => none

/-- A decimal number below 2^64, which a plus sign may lead. -/
def readMs (v : String) : Option Nat :=
  let digits := match v.toList with
    | '+' :: rest => rest
    | cs => cs
  if digits = [] ∨ !digits.all Char.isDigit then none
  else
    let n := digits.foldl (fun n c => n * 10 + (c.toNat - '0'.toNat)) 0
    if n < Nat.pow 2 64 then some n else none

/-- Arguments read so far; `pending` is a parameter whose value is not checked yet, or not met. -/
structure Progress where
  options : Options
  given : List Param
  pending : Option (Param × Option String)
  positionals : Nat

namespace Progress

def store (options : Options) (p : Param) (v : String) : Except UsageError Options :=
  let ms (put : Nat → Options) : Except UsageError Options :=
    match readMs v with
    | some n => .ok (put n)
    | none => .error .valueRejected
  match p with
  | .root => if v.isEmpty then .error .invalidValue else .ok { options with root := some v }
  | .config => if v.isEmpty then .error .invalidValue else .ok { options with config := some v }
  | .pollMs => ms fun n => { options with pollMs := some n }
  | .tickMs => ms fun n => { options with tickMs := some n }
  | .evalTimeoutMs => ms fun n => { options with evalTimeoutMs := some n }
  | .extension => .ok { options with extension := some v }

/-- Checks and stores the pending value. -/
def settle (s : Progress) : Except UsageError Progress :=
  match s.pending with
  | none => .ok s
  | some (_, none) => .error .invalidValue
  | some (p, some v) =>
    if s.given.contains p then .error .conflict
    else do
      let options ← store s.options p v
      return { s with options, given := p :: s.given, pending := none }

/-- Takes a parameter with the value attached to it, if any. -/
def take (s : Progress) (p : Param) (attached : Option String) : Except UsageError Progress := do
  let s ← s.settle
  let s := { s with pending := some (p, attached) }
  if attached.isSome then s.settle else return s

def switch (s : Progress) (f : Switch) : Except UsageError Progress := do
  let s ← s.settle
  match f with
  | .help => throw .help
  | .version => throw .version
  | .anyExtension =>
    if s.options.anyExtension then throw .conflict
    return { s with options := { s.options with anyExtension := true } }

def positional (s : Progress) (v : String) : Except UsageError Progress :=
  if s.positionals = 0 then do
    let s ← s.settle
    return { s with pending := some (.root, some v), positionals := 1 }
  else .error .unknownArgument

/-- Reads `--name` or `--name=value`, without the dashes. -/
def long (s : Progress) (text : List Char) : Except UsageError Progress :=
  let name := String.ofList (text.takeWhile (· ≠ '='))
  let value :=
    match text.dropWhile (· ≠ '=') with
    | [] => none
    | _ :: v => some (String.ofList v)
  match long? name with
  | none => .error .unknownArgument
  | some (.inl p) => s.take p value
  | some (.inr f) => if value.isSome then .error .tooManyValues else s.switch f

/-- Reads letters behind one dash: switches, and at last an option with the rest as its value. -/
def short (s : Progress) : List Char → Except UsageError Progress
  | [] => .ok s
  | c :: rest =>
    match short? c with
    | none => .error .unknownArgument
    | some (.inr f) => do short (← s.switch f) rest
    | some (.inl p) =>
      match rest with
      | [] => s.take p none
      | '=' :: v => s.take p (some (String.ofList v))
      | v => s.take p (some (String.ofList v))

/-- Reads the arguments; behind a lone `--` all of them are positional. -/
def readAll (s : Progress) : Bool → List String → Except UsageError Progress
  | _, [] => s.settle
  | true, a :: rest => do readAll (← s.positional a) true rest
  | false, a :: rest =>
    match a.toList with
    | ['-', '-'] => readAll s true rest
    | '-' :: '-' :: text => do readAll (← s.long text) false rest
    | '-' :: c :: text => do readAll (← s.short (c :: text)) false rest
    | _ =>
      match s.pending with
      | some (p, none) => readAll { s with pending := some (p, some a) } false rest
      | _ => do readAll (← s.positional a) false rest

end Progress

/-- The options that the arguments give. -/
def ofArgs (args : List String) : Except UsageError Options := do
  let s ← Progress.readAll ⟨empty, [], none, 0⟩ false args
  if s.options.extension.isSome && s.options.anyExtension then throw .conflict
  if s.options.root.isNone && s.options.config.isNone then throw .missingArgument
  return s.options

/-! ## Merging -/

/-- What stands in place of the options: the file, or the defaults for the root. -/
def base (o : Options) (contents : String → Except String String) :
    Except (List String) Config :=
  match o.config, o.root with
  | some path, _ =>
    let context := "failed to load config " ++ path
    match contents path with
    | .error source => .error (context :: (HostError.io source).chain)
    | .ok text =>
      match Config.ofText text with
      | .error e => .error (context :: e.chain)
      | .ok c => .ok c
  | none, some root => (Config.build root []).mapError HostError.chain
  | none, none => .error ["a world directory or --config is required"]

/-- A configuration with everything that is given in its place. -/
def override (o : Options) (c : Config) : Config :=
  ⟨o.root.getD c.root, o.pollMs.getD c.pollIntervalMs, o.tickMs.getD c.tickIntervalMs,
    o.evalTimeoutMs.or c.evalTimeoutMs,
    if o.anyExtension then none else o.extension.or c.extension⟩

/-- The configuration to run with, or the messages from the outermost cause down. -/
def toConfig (o : Options) (contents : String → Except String String) :
    Except (List String) Config := do
  let c ← o.base contents
  (o.override c).validate.mapError fun e => "invalid configuration" :: e.chain

end Options

end LiveModules
