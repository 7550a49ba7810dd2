import LiveModules.Json.Skip
import LiveModules.Json.Writer
import LiveModules.Text.Quoted

/-!
# Drafts

A draft is what a text spells up to its first fault, the fault standing where it was met. A typed
reading of a draft visits it from left to right, so of a fault of the text and a wrong type the one
that comes first in the text is reported.
-/

namespace LiveModules.Json

inductive Draft where
  | null
  | bool (b : Bool)
  | number (n : Number)
  | string (s : String)
  /-- The items, and the fault behind the last one. -/
  | array (items : List Draft) (stop : Option Fault)
  /-- The members in the order of the text, and the fault behind the last one. -/
  | object (members : List (String × Draft)) (stop : Option Fault)
  | broken (f : Fault)

/-- What a draft is, in the words of a type error. -/
def Draft.describe : Draft → String
  | .null => "null"
  | .bool b => "boolean `" ++ (if b then "true" else "false") ++ "`"
  | .number (.int i) => "integer `" ++ toString i ++ "`"
  | .number (.float x) => "floating point `" ++ floatLayout.write x ++ "`"
  | .string s => "string " ++ Text.showQuoted s
  | .array .. => "sequence"
  | .object .. => "map"
  | .broken _ => ""

/-- The error of a draft that is not of the form `expected`. -/
def Draft.mismatch (expected : String) : Draft → Fault
  | .broken f => f
  | d => .invalidType d.describe expected

/-- Which parts of a value are wanted. -/
inductive Shape where
  | any
  /-- A name, or an object whose only key is one; nothing else is read past its first character. -/
  | choice
  /-- Members of other names are passed over; in an array the values follow the same order. -/
  | record (members : List (String × Shape))

/-- The shape of a member, absent if it is passed over. -/
def Shape.member? : Shape → String → Option Shape
  | .any, _ | .choice, _ => some .any
  | .record members, key => (members.find? fun m => m.1 == key).map (·.2)

/-- The shapes of an array's items, as far as they are known. -/
def Shape.items : Shape → List Shape
  | .any | .choice => []
  | .record members => members.map (·.2)

/-- Whether a value that begins with `c` is read on. -/
def Shape.admits : Shape → Char → Bool
  | .choice, c => c == '"' || c == '\x7b'
  | _, _ => true

/-- Whether the draft ends in a fault, so that nothing behind it was read. -/
def Draft.stopped : Draft → Bool
  | .array _ stop => stop.isSome
  | .object _ stop => stop.isSome
  | .broken _ => true
  | _ => false

/-- Brackets may nest to one less than this depth. -/
def depthLimit : Nat := 128

mutual

/-- Reads a value; `depth` brackets may still be opened. -/
def readDraft : Nat → Nat → Shape → List Char → Draft × List Char
  | 0, _, _, _ => (.broken .endInValue, [])
  | fuel + 1, depth, shape, cs =>
    match skipBlank cs with
    | [] => (.broken .endInValue, [])
    | c :: rest =>
      if shape.admits c then readBegun fuel depth shape c rest
      else (.broken .expectedValue, [])

/-- Reads a value that begins with `c`. -/
def readBegun : Nat → Nat → Shape → Char → List Char → Draft × List Char
  | 0, _, _, _, _ => (.broken .endInValue, [])
  | fuel + 1, depth, shape, c, rest =>
    match c with
    | 'n' => readLiteral "ull" .null rest
    | 't' => readLiteral "rue" (.bool true) rest
    | 'f' => readLiteral "alse" (.bool false) rest
    | '"' =>
      match readString rest with
      | .error f => (.broken f, [])
      | .ok (s, rest) => (.string s, rest)
    | '-' => readNumberDraft true rest
    | '[' =>
      if depth ≤ 1 then (.broken .tooDeep, [])
      else readItems fuel (depth - 1) shape.items [] rest
    | '\x7b' =>
      if depth ≤ 1 then (.broken .tooDeep, [])
      else readMembers fuel (depth - 1) shape [] rest
    | c => if isDigit c then readNumberDraft false (c :: rest) else (.broken .expectedValue, [])
where
  readLiteral (word : String) (d : Draft) (rest : List Char) : Draft × List Char :=
    match readWord word.toList rest with
    | .error f => (.broken f, [])
    | .ok rest => (d, rest)
  readNumberDraft (negative : Bool) (rest : List Char) : Draft × List Char :=
    match readNumber negative rest with
    | .error f => (.broken f, [])
    | .ok (n, rest) => (.number n, rest)

/-- Reads on from behind an opening bracket or an item; `seen` are the items so far, latest
first. -/
def readItems : Nat → Nat → List Shape → List Draft → List Char → Draft × List Char
  | 0, _, _, seen, _ => (.array seen.reverse (some .endInList), [])
  | fuel + 1, depth, shapes, seen, cs =>
    let stop (f : Fault) : Draft × List Char := (.array seen.reverse (some f), [])
    match skipBlank cs with
    | [] => stop .endInList
    | ']' :: rest => (.array seen.reverse none, rest)
    | c :: rest =>
      if seen.isEmpty then readItem fuel depth shapes seen (c :: rest)
      else if c ≠ ',' then stop .expectedListEnd
      else match skipBlank rest with
        | [] => stop .endInValue
        | ']' :: _ => stop .trailingComma
        | cs => readItem fuel depth shapes seen cs

def readItem : Nat → Nat → List Shape → List Draft → List Char → Draft × List Char
  | 0, _, _, seen, _ => (.array seen.reverse (some .endInList), [])
  | fuel + 1, depth, shapes, seen, cs =>
    let (d, rest) := readDraft fuel depth (shapes.headD .any) cs
    if d.stopped then (.array (d :: seen).reverse (some .endInList), [])
    else readItems fuel depth shapes.tail (d :: seen) rest

/-- Reads on from behind an opening brace or a member. -/
def readMembers : Nat → Nat → Shape → List (String × Draft) → List Char → Draft × List Char
  | 0, _, _, seen, _ => (.object seen.reverse (some .endInObject), [])
  | fuel + 1, depth, shape, seen, cs =>
    let stop (f : Fault) : Draft × List Char := (.object seen.reverse (some f), [])
    match skipBlank cs with
    | [] => stop .endInObject
    | '\x7d' :: rest => (.object seen.reverse none, rest)
    | c :: rest =>
      if seen.isEmpty then
        if c = '"' then readMember fuel depth shape seen rest
        else stop (match shape with
          | .choice =>
            (readDraft fuel depth .any (c :: rest)).1.mismatch "variant identifier"
          | _ => .keyNotString)
      else if c ≠ ',' then stop .expectedObjectEnd
      else match skipBlank rest with
        | [] => stop .endInValue
        | '\x7d' :: _ => stop .trailingComma
        | '"' :: rest => readMember fuel depth shape seen rest
        | _ => stop .keyNotString

/-- Reads a member from behind the opening quote of its key. A member that is passed over leaves
`null` under its key. -/
def readMember : Nat → Nat → Shape → List (String × Draft) → List Char → Draft × List Char
  | 0, _, _, seen, _ => (.object seen.reverse (some .endInObject), [])
  | fuel + 1, depth, shape, seen, cs =>
    match readString cs with
    | .error f => (.object seen.reverse (some f), [])
    | .ok (key, rest) =>
      let broken (f : Fault) : Draft × List Char :=
        (.object ((key, .broken f) :: seen).reverse (some f), [])
      match skipBlank rest with
      | [] => broken .endInObject
      | ':' :: rest =>
        match shape.member? key with
        | none =>
          match skipValue rest with
          | .error f => broken f
          | .ok rest => readMembers fuel depth shape ((key, .null) :: seen) rest
        | some inner =>
          let (d, rest) := readDraft fuel depth inner rest
          if d.stopped then (.object ((key, d) :: seen).reverse (some .endInObject), [])
          else readMembers fuel depth shape ((key, d) :: seen) rest
      | _ => broken .expectedColon

end

/-- The draft of a whole text, and the fault of what stands behind the value. -/
def Draft.ofText (shape : Shape) (text : String) : Draft × Option Fault :=
  let cs := text.toList
  let (d, rest) := readDraft (4 * cs.length + 4) depthLimit shape cs
  (d, if (skipBlank rest).isEmpty then none else some .trailingCharacters)

mutual

/-- A value as a draft without faults. -/
def Draft.ofJson : Json → Draft
  | .null => .null
  | .bool b => .bool b
  | .number n => .number n
  | .string s => .string s
  | .array items => .array (Draft.ofItems items) none
  | .object members => .object (Draft.ofMembers members) none

def Draft.ofItems : List Json → List Draft
  | [] => []
  | v :: rest => Draft.ofJson v :: Draft.ofItems rest

def Draft.ofMembers : List (String × Json) → List (String × Draft)
  | [] => []
  | (k, v) :: rest => (k, Draft.ofJson v) :: Draft.ofMembers rest

end

mutual

/-- The value that a draft spells, or its first fault. -/
def Draft.toJson : Draft → Except Fault Json
  | .null => .ok .null
  | .bool b => .ok (.bool b)
  | .number n => .ok (.number n)
  | .string s => .ok (.string s)
  | .broken f => .error f
  | .array items stop => do
    let items ← Draft.toItems items
    match stop with
    | some f => .error f
    | none => .ok (.array items)
  | .object members stop => do
    let members ← Draft.toMembers members
    match stop with
    | some f => .error f
    | none => .ok (Json.ofMembers members)

def Draft.toItems : List Draft → Except Fault (List Json)
  | [] => .ok []
  | d :: rest => do
    let v ← Draft.toJson d
    return v :: (← Draft.toItems rest)

def Draft.toMembers : List (String × Draft) → Except Fault Members
  | [] => .ok []
  | (k, d) :: rest => do
    let v ← Draft.toJson d
    return (k, v) :: (← Draft.toMembers rest)

end

/-- The value that a text spells. -/
def parse (text : String) : Except Fault Json := do
  let (d, behind) := Draft.ofText .any text
  let v ← d.toJson
  match behind with
  | some f => .error f
  | none => .ok v

end LiveModules.Json
