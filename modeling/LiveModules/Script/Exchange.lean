import LiveModules.Json.Writer
import LiveModules.Script.Value
import LiveModules.Text.Utf8

/-!
# Values of scripts and JSON

A table with a list, or made from a JSON array, is an array up to its first `nil`; any other table
is an object. What JSON cannot hold is left out of tables, or refused where `strict` is set.
-/

namespace LiveModules.Script

namespace Exchange

/-- The integer of a JSON number, or the nearest float. -/
def ofNumber (n : Number) : Num :=
  match n with
  | .int i =>
    if i < (Nat.pow 2 63 : Nat) then .int (Int64.ofInt i) else .float (Json.Number.toFloat n)
  | .float x => .float x

mutual

/-- Builds a value in the heap. -/
def ofJson (h : Heap) : Json → Value × Heap
  | .null => (.null, h)
  | .bool b => (.bool b, h)
  | .number n => (.num (ofNumber n), h)
  | .string s => (.text s, h)
  | .array items =>
    let (list, h) := ofItems h #[] items
    h.newTable { TableObject.empty with list, isArray := true }
  | .object members =>
    let (t, h) := ofMembers h .empty members
    h.newTable t

def ofItems (h : Heap) (done : Array Value) : List Json → Array Value × Heap
  | [] => (done, h)
  | v :: rest =>
    let (x, h) := ofJson h v
    ofItems h (done.push x) rest

def ofMembers (h : Heap) (t : TableObject) : List (String × Json) → TableObject × Heap
  | [] => (t, h)
  | (k, v) :: rest =>
    let (x, h) := ofJson h v
    ofMembers h (t.setSlot (.str k.toUTF8) x) rest

end

/-- The values of arguments, in order. -/
def ofArgs (h : Heap) (args : List Json) : List Value × Heap :=
  args.foldl (fun (vs, h) a =>
    let (v, h) := ofJson h a
    (vs ++ [v], h)) ([], h)

/-! ## From scripts -/

def prefixed (message : String) : String := "deserialize error: " ++ message

/-- Floats among keys are shown without an exponent. -/
def keyLayout : Decimal.Layout := ⟨none, -400, 400, true, 1, "NaN", "inf"⟩

def badKey (found : String) : String :=
  prefixed ("invalid type: " ++ found ++ ", expected a string key")

/-- The name that an unsupported value has in messages, if it is one. -/
def unsupported? : Value → Option String
  | .function _ | .builtin _ => some "function"
  | .thread _ => some "thread"
  | .failure _ => some "error"
  | _ => none

/-- Whether an entry of a table is left out. -/
def isLeftOut (strict : Bool) (v : Value) : Bool :=
  match v with
  | .null => !strict
  | v => !strict && (unsupported? v).isSome

/-- The text of a key. -/
def keyText (h : Heap) : Key → Except String String
  | .str s => (Text.ofUtf8 s).mapError fun _ => badKey "byte array"
  | .bool b => .error (badKey ("boolean `" ++ (if b then "true" else "false") ++ "`"))
  | .int i => .error (badKey ("integer `" ++ toString i.toInt ++ "`"))
  | .float bits =>
    .error (badKey ("floating point `" ++ keyLayout.write (Float.ofBits bits) ++ "`"))
  | .table id =>
    .error (badKey (if (h.table id).list.isEmpty && !(h.table id).isArray then "map"
      else "sequence"))
  | .null => .error (badKey "Option value")
  | .function _ | .builtin _ => .error (prefixed "unsupported value type `function`")
  | .thread _ => .error (prefixed "unsupported value type `thread`")
  | .failure _ => .error (prefixed "unsupported value type `error`")

/-- The JSON value of a value; `path` are the tables around it, and fuel bounds their number. -/
def toJsonIn (strict : Bool) (h : Heap) : Nat → List Nat → Value → Except String Json
  | 0, _, _ => .error (prefixed "recursive table detected")
  | fuel + 1, path, v =>
    match v with
    | .nil | .null => .ok .null
    | .bool b => .ok (.bool b)
    | .num (.int i) => .ok (.int i.toInt)
    | .num (.float x) => .ok (.float x)
    | .str s =>
      match Text.ofUtf8 s with
      | .ok s => .ok (.string s)
      | .error _ =>
        .error (prefixed "invalid type: byte array, expected any valid JSON value")
    | .table id =>
      if path.contains id then .error (prefixed "recursive table detected")
      else
        let t := h.table id
        let inner (v : Value) : Except String Json := toJsonIn strict h fuel (id :: path) v
        if !t.list.isEmpty || t.isArray then do
          let items := (t.list.toList.takeWhile (!·.isNil)).filter (!isLeftOut strict ·)
          return .array (← items.mapM inner)
        else do
          let members ← (t.entries.filter fun e =>
              !isLeftOut strict e.1.toValue && !isLeftOut strict e.2).mapM fun e => do
            let key ← keyText h e.1
            return (key, ← inner e.2)
          return .ofMembers members
    | v =>
      match unsupported? v with
      | some name =>
        if strict then .error (prefixed ("unsupported value type `" ++ name ++ "`"))
        else .ok .null
      | none => .ok .null

def toJson (strict : Bool) (h : Heap) (v : Value) : Except String Json :=
  toJsonIn strict h (h.tables.size + 2) [] v

end Exchange

end LiveModules.Script
