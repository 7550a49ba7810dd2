import LiveModules.Script.Engine
import LiveModules.Script.Exchange

/-!
# Capabilities

What a call of a capability asks of the host. Arguments are converted from left to right and then
checked, and the host is asked last.
-/

namespace LiveModules.Script

namespace Capability

/-- The globals under which modules find their capabilities. -/
def names : List (String × Capability) :=
  [("command", .command), ("itemCommand", .itemCommand), ("room", .room), ("item", .item),
    ("character", .character), ("handler", .handler), ("event", .event),
    ("setTimeout", .setTimeout), ("preventDefault", .preventDefault), ("broadcast", .broadcast),
    ("log", .log), ("print", .log)]

/-- Puts the capabilities among the globals. -/
def install (h : Heap) : Heap :=
  names.foldl (fun h e => h.setField Heap.globals e.1 (.builtin (.capability e.2))) h

/-! ## Conversions -/

/-- The name of a value's type; integers and floats have different ones. -/
def kindOf : Value → String
  | .nil => "nil"
  | .bool _ => "boolean"
  | .num (.int _) => "integer"
  | .num (.float _) => "number"
  | .str _ => "string"
  | .table _ => "table"
  | .function _ | .builtin _ => "function"
  | .thread _ => "thread"
  | .null => "lightuserdata"
  | .failure _ => "error"

def conversionFault (v : Value) (wanted : String) : String :=
  "error converting Lua " ++ kindOf v ++ " to " ++ wanted

def toText (v : Value) : Except String String :=
  match v with
  | .str s =>
    (Text.ofUtf8 s).mapError fun f => conversionFault v "String" ++ " (" ++ f.message ++ ")"
  | .num n => .ok n.write
  | _ => .error (conversionFault v "String" ++ " (expected string or number)")

def toFunction (v : Value) : Except String Value :=
  match v with
  | .function _ | .builtin _ => .ok v
  | _ => .error (conversionFault v "function")

/-- A number; `nil` stands for zero. -/
def toDelay (v : Value) : Except String Float :=
  match v, v.toNum? with
  | .nil, _ => .ok 0
  | _, some n => .ok n.toFloat
  | _, none =>
    .error (conversionFault v "f64" ++ " (expected number or string coercible to number)")

/-- Converts argument `n`, counted from 1; one that is not given is `nil`. -/
def argument {α : Type} (convert : Value → Except String α) (args : List Value) (n : Nat) :
    Except String α :=
  (convert (args[n - 1]?.getD .nil)).mapError fun m => "bad argument #" ++ toString n ++ ": " ++ m

def failed (message : String) : String := "runtime error: " ++ message

/-- The properties that a table gives; `nil`, null, functions and empty lists give none. -/
def toMembers (h : Heap) (v : Value) : Except String Members := do
  match ← Exchange.toJson false h v with
  | .object members => return members
  | .null => return []
  | .array [] => return []
  | other => throw (failed ("expected a table, got " ++ Json.write other))

/-! ## Calls -/

/-- What a call does: it may ask the host for something, and it answers or is refused. What was
asked for by then stays asked for. -/
abbrev Asking := ExceptT String (StateM (Array (Request Value)))

/-- Asks the host for something. -/
def request (r : Request Value) : Asking Unit := modify (·.push r)

def asCommand (key : CommandKey) (args : List Value) (n : Nat) : Asking (List Value) := do
  let description ← argument toText args n
  let f ← argument toFunction args (n + 1)
  request (.command key description f)
  return []

def asRoom (h : Heap) (args : List Value) : Asking (List Value) := do
  let id ← argument toText args 1
  let members ← toMembers h (args[1]?.getD .nil)
  let spec ← (RoomSpec.read (.ofJson (.object members))).mapError fun f =>
    failed ("invalid room '" ++ id ++ "': " ++ f.message)
  request (.room id spec)
  return []

/-- How long an item takes to come back, unless its template says it. -/
def defaultRespawnSecs : Float := 10

def asItem (h : Heap) (args : List Value) : Asking (List Value) := do
  let room ← argument toText args 1
  let name ← argument toText args 2
  let members ← toMembers h (args[2]?.getD .nil)
  let secs := ((Assoc.find? "respawnTimer" members).bind Json.asFloat?).getD defaultRespawnSecs
  request (.item room (.ofProperties name members) secs)
  return []

def asCharacter (h : Heap) (args : List Value) : Asking (List Value) := do
  let name ← argument toText args 1
  let members ← toMembers h (args[1]?.getD .nil)
  request (.character name members)
  return [.text name]

def asHandler (key : EventKey) (args : List Value) (n : Nat) : Asking (List Value) := do
  let f ← argument toFunction args n
  request (.handler key f)
  return []

/-- The name of a timeout: 36 characters, in the form of a random identifier. -/
def timeoutName (n : Nat) : String :=
  "00000000-0000-4000-8000-" ++ String.ofList (Decimal.padLeft 12 (Nat.toDigits 16 n))

def asTimeout (h : Heap) (args : List Value) : Asking (List Value) := do
  let f ← argument toFunction args 1
  let delay ← argument toDelay args 2
  request (.timeout delay f)
  return [.text (timeoutName h.timeouts)]

/-- A call with these arguments; a log line is given as a whole. -/
def ask (c : Capability) (h : Heap) (args : List Value) : Asking (List Value) := do
  match c with
  | .command =>
    let verb ← argument toText args 1
    asCommand ⟨verb, none⟩ args 2
  | .itemCommand =>
    let verb ← argument toText args 1
    let item ← argument toText args 2
    asCommand ⟨verb, some item⟩ args 3
  | .room => asRoom h args
  | .item => asItem h args
  | .character => asCharacter h args
  | .handler =>
    let name ← argument toText args 1
    asHandler (.unscoped name) args 2
  | .event =>
    let name ← argument toText args 1
    let subject ← argument toText args 2
    asHandler (.withSubject name subject) args 3
  | .setTimeout => asTimeout h args
  | .preventDefault =>
    request .preventDefault
    return []
  | .broadcast =>
    let message ← argument toText args 1
    request (.broadcast message)
    return []
  | .log =>
    let line ← toText (args.headD .nil)
    request (.log line)
    return []

end Capability

end LiveModules.Script
