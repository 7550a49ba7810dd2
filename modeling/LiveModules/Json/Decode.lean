import LiveModules.Json.Draft

/-!
# Typed readings of a draft

Each reading visits a draft from left to right and reports the first fault or wrong type it meets.
A record is read from an object, in any order, or from an array of its fields in their order. A
flattened record is read from an object only and keeps the members it does not name.
-/

namespace LiveModules.Json

def readText (expected : String) : Draft → Except Fault String
  | .string s => .ok s
  | d => .error (d.mismatch expected)

/-- An unsigned 64-bit number. -/
def readUnsigned : Draft → Except Fault Nat
  | .number (.int i) =>
    if 0 ≤ i then .ok i.toNat else .error (.invalidValue (Draft.number (.int i)).describe "u64")
  | d => .error (d.mismatch "u64")

def readOption {α : Type} (read : Draft → Except Fault α) : Draft → Except Fault (Option α)
  | .null => .ok none
  | d => (read d).map some

def orStop {α : Type} (stop : Option Fault) (a : α) : Except Fault α :=
  match stop with
  | some f => .error f
  | none => .ok a

/-- A list of arbitrary values. -/
def readList : Draft → Except Fault (List Json)
  | .array items stop => do orStop stop (← Draft.toItems items)
  | d => .error (d.mismatch "a sequence")

/-- A map from text to text; of two members with one key the later stays. -/
def readTextMap : Draft → Except Fault (Table String String)
  | .object members stop => do
    let entries ← members.mapM fun m => (readText "a string" m.2).map (m.1, ·)
    orStop stop (Table.ofList entries)
  | d => .error (d.mismatch "a map")

/-- One of the names in `known`, as a string or as the only key of an object that holds `null`. -/
def readVariant (known : List String) (d : Draft) : Except Fault String :=
  let variant (name : String) : Except Fault String :=
    if known.contains name then .ok name else .error (.unknownVariant name known)
  match d with
  | .string s => variant s
  | .object [] none => .error .expectedValue
  | .object [] (some .endInObject) => .error .endInValue
  | .object [] (some f) => .error f
  | .object ((key, value) :: rest) stop => do
    let name ← variant key
    match value with
    | .null => pure ()
    | d => throw (d.mismatch "unit")
    match rest, stop with
    | [], none => .ok name
    | [], some .endInObject => .error .endInObject
    | _, _ => .error .expectedValue
  | .broken f => .error f
  | _ => .error .expectedValue

/-! ## Records -/

/-- A field of a record: `check` is its reading, the value left out. -/
structure Field where
  name : String
  shape : Shape
  check : Draft → Except Fault Unit
  required : Bool

def Field.of {α : Type} (name : String) (read : Draft → Except Fault α) (required : Bool)
    (shape : Shape := .any) : Field :=
  ⟨name, shape, fun d => (read d).map fun _ => (), required⟩

/-- A record type: its name in messages and its fields. -/
structure Form where
  title : String
  fields : List Field

def Form.shape (form : Form) : Shape := .record (form.fields.map fun f => (f.name, f.shape))

def Form.field? (form : Form) (name : String) : Option Field :=
  form.fields.find? fun f => f.name == name

/-- Checks members from left to right; `seen` are the names of the fields so far. -/
def Form.checkMembers (form : Form) (unnamed : Draft → Except Fault Unit) :
    List String → List (String × Draft) → Except Fault Unit
  | _, [] => .ok ()
  | seen, (key, d) :: rest => do
    match form.field? key with
    | none =>
      unnamed d
      form.checkMembers unnamed seen rest
    | some field =>
      if seen.contains key then throw (.duplicateField key)
      field.check d
      form.checkMembers unnamed (key :: seen) rest

/-- The fault behind a complete array of a record's fields. -/
def endOfFields (extra : List Draft) (stop : Option Fault) : Except Fault Unit :=
  match extra, stop with
  | [], none => .ok ()
  | [], some .endInList => .error .endInList
  | [], some .trailingComma => .error .trailingComma
  | _, _ => .error .trailingCharacters

/-- Reads fields from the items of an array; `index` items were read. -/
def Form.takeItems (form : Form) (stop : Option Fault) :
    Nat → List Field → List Draft → Except Fault (List (String × Draft))
  | _, [], items => (endOfFields items stop).map fun _ => []
  | index, field :: fields, d :: items => do
    field.check d
    return (field.name, d) :: (← form.takeItems stop (index + 1) fields items)
  | index, field :: fields, [] => do
    if let some f := stop then throw f
    if field.required then
      throw (.invalidLength index
        (form.title ++ " with " ++ toString form.fields.length ++ " elements"))
    form.takeItems stop (index + 1) fields []

/-- The first required field that no member gives. -/
def Form.checkPresent (form : Form) (members : List (String × Draft)) : Except Fault Unit :=
  match form.fields.find? fun f => f.required && !(members.any fun m => m.1 == f.name) with
  | some f => .error (.missingField f.name)
  | none => .ok ()

/-- The fields that a draft gives, each checked. -/
def Form.read (form : Form) : Draft → Except Fault (List (String × Draft))
  | .object members stop => do
    form.checkMembers (fun | .broken f => .error f | _ => .ok ()) [] members
    if let some f := stop then throw f
    form.checkPresent members
    return members.filter fun m => (form.field? m.1).isSome
  | .array items stop => form.takeItems stop 0 form.fields items
  | d => .error (d.mismatch form.title)

/-- The fields that a draft gives, and the members that it has besides. -/
def Form.readFlattened (form : Form) : Draft → Except Fault (List (String × Draft) × Members)
  | .object members stop => do
    form.checkMembers (fun d => d.toJson.map fun _ => ()) [] members
    if let some f := stop then throw f
    form.checkPresent members
    let others ← Draft.toMembers (members.filter fun m => (form.field? m.1).isNone)
    return (members.filter fun m => (form.field? m.1).isSome, Assoc.ofList others)
  | d => .error (d.mismatch form.title)

/-- Reads the field `name`, or gives `absent` if no member is it. -/
def fieldOr {α : Type} (fields : List (String × Draft)) (name : String)
    (read : Draft → Except Fault α) (absent : Except Fault α) : Except Fault α :=
  match fields.find? fun m => m.1 == name with
  | some m => read m.2
  | none => absent

/-- Reads a whole text with a typed reading. -/
def readWhole {α : Type} (shape : Shape) (read : Draft → Except Fault α) (text : String) :
    Except Fault α := do
  let (d, behind) := Draft.ofText shape text
  orStop behind (← read d)

end LiveModules.Json
