import LiveModules.Script.Syntax
import Std.Data.HashMap

/-!
# Values of scripts

Tables, functions, threads and local variables live in a heap and are known by their places in it.
-/

namespace LiveModules.Script

/-- What scripts find under the names of the standard library. -/
inductive Native where
  | assert | error | getmetatable | ipairs | load | next | pairs | pcall | print | rawequal
  | rawget | rawlen | rawset | select | setmetatable | tonumber | tostring | type | warn | xpcall
  | ipairsStep
  | stringByte | stringChar | stringFormat | stringLen | stringLower | stringRep
  | stringReverse | stringSub | stringUpper
  | tableConcat | tableInsert | tablePack | tableRemove | tableSort | tableUnpack
  | mathAbs | mathCeil | mathCos | mathExp | mathFloor | mathFmod | mathLog | mathMax | mathMin
  | mathModf | mathSin | mathSqrt | mathTan | mathToInteger | mathType | mathUlt
  | utf8Char | utf8Codepoint | utf8Len
  | coroutineCreate | coroutineStatus | coroutineIsYieldable | coroutineRunning
  | collectGarbage
  deriving DecidableEq, Hashable

/-- What a module may ask of its host. -/
inductive Capability where
  | command
  | itemCommand
  | room
  | item
  | character
  | handler
  | event
  | setTimeout
  | preventDefault
  | broadcast
  | log
  deriving DecidableEq, Hashable

/-- A function of the host. -/
inductive Builtin where
  | native (f : Native)
  | capability (c : Capability)
  deriving DecidableEq, Hashable

inductive Value where
  | nil
  | bool (b : Bool)
  | num (n : Num)
  | str (s : ByteArray)
  | table (id : Nat)
  | function (id : Nat)
  | builtin (f : Builtin)
  | thread (id : Nat)
  /-- The null of a JSON value. -/
  | null
  /-- An error that the host raised, with its text. -/
  | failure (text : String)

instance : Inhabited Value := ⟨.nil⟩

namespace Value

def text (s : String) : Value := .str s.toUTF8

def int (i : Int64) : Value := .num (.int i)

def nat (n : Nat) : Value := .num (.int (Int64.ofNat n))

def float (x : Float) : Value := .num (.float x)

/-- Everything but `nil` and `false` counts as true. -/
def isTrue : Value → Bool
  | nil | bool false => false
  | _ => true

def isNil : Value → Bool
  | nil => true
  | _ => false

def typeName : Value → String
  | nil => "nil"
  | bool _ => "boolean"
  | num _ => "number"
  | str _ => "string"
  | table _ => "table"
  | function _ | builtin _ => "function"
  | thread _ => "thread"
  | null => "userdata"
  | failure _ => "userdata"

/-- The number that a value is or spells. -/
def toNum? : Value → Option Num
  | num n => some n
  | str s => Num.ofText? (charsOf s)
  | _ => none

/-- The bytes of a string, or of a number's text. -/
def toBytes? : Value → Option ByteArray
  | str s => some s
  | num n => some n.write.toUTF8
  | _ => none

/-- Equality without metamethods. -/
def rawEq : Value → Value → Bool
  | nil, nil => true
  | bool a, bool b => a == b
  | num a, num b => a.eq b
  | str a, str b => a == b
  | table a, table b => a == b
  | function a, function b => a == b
  | builtin a, builtin b => a == b
  | thread a, thread b => a == b
  | null, null => true
  | failure a, failure b => a == b
  | _, _ => false

end Value

/-! ## Tables -/

/-- What a table has entries under. A float that is an integer is the same key as it. -/
inductive Key where
  | bool (b : Bool)
  | int (i : Int64)
  | float (bits : UInt64)
  | str (s : ByteArray)
  | table (id : Nat)
  | function (id : Nat)
  | builtin (f : Builtin)
  | thread (id : Nat)
  | null
  | failure (text : String)
  deriving DecidableEq, Hashable

namespace Key

def toValue : Key → Value
  | bool b => .bool b
  | int i => .int i
  | float bits => .float (Float.ofBits bits)
  | str s => .str s
  | table id => .table id
  | function id => .function id
  | builtin f => .builtin f
  | thread id => .thread id
  | null => .null
  | failure t => .failure t

/-- The key that a value is; `nil` and NaN are none. -/
def ofValue? : Value → Option Key
  | .nil => none
  | .bool b => some (bool b)
  | .num (.int i) => some (int i)
  | .num (.float x) =>
    if x.isNaN then none
    else match Num.ofFloatExact? x with
      | some i => some (int i)
      | none => some (float x.toBits)
  | .str s => some (str s)
  | .table id => some (table id)
  | .function id => some (function id)
  | .builtin f => some (builtin f)
  | .thread id => some (thread id)
  | .null => some null
  | .failure t => some (failure t)

end Key

/-- The values under 1, 2, ... are a list whose last one is not `nil`; the other entries keep the
order in which their keys came, and one that was removed has `nil`. -/
structure TableObject where
  list : Array Value
  slots : Array (Key × Value)
  places : Std.HashMap Key Nat
  metatable : Option Nat
  /-- Whether it was made from a JSON array. -/
  isArray : Bool

namespace TableObject

def empty : TableObject := ⟨#[], #[], ∅, none, false⟩

/-- The place in the list that an integer key names. -/
def listPlace? (t : TableObject) (i : Int64) : Option Nat :=
  if 1 ≤ i ∧ i.toInt ≤ t.list.size then some (i.toInt.toNat - 1) else none

def slot (t : TableObject) (k : Key) : Value :=
  match t.places[k]? with
  | some p => (t.slots[p]?.map (·.2)).getD .nil
  | none => .nil

def get (t : TableObject) (k : Key) : Value :=
  match k with
  | .int i =>
    match t.listPlace? i with
    | some p => t.list[p]?.getD .nil
    | none => t.slot k
  | k => t.slot k

def setSlot (t : TableObject) (k : Key) (v : Value) : TableObject :=
  match t.places[k]? with
  | some p => { t with slots := t.slots.setIfInBounds p (k, v) }
  | none =>
    if v.isNil then t
    else { t with slots := t.slots.push (k, v), places := t.places.insert k t.slots.size }

/-- Moves what is under the next keys from the slots to the list. -/
def gather : Nat → TableObject → TableObject
  | 0, t => t
  | fuel + 1, t =>
    let k := Key.int (Int64.ofNat (t.list.size + 1))
    match t.slot k with
    | .nil => t
    | v => gather fuel { t.setSlot k .nil with list := t.list.push v }

/-- Without the `nil`s at the end of the list. -/
def trimmed (t : TableObject) : TableObject := { t with list := t.list.popWhile (·.isNil) }

def set (t : TableObject) (k : Key) (v : Value) : TableObject :=
  match k with
  | .int i =>
    match t.listPlace? i with
    | some p =>
      let t := { t with list := t.list.setIfInBounds p v }
      if v.isNil && p + 1 == t.list.size then t.trimmed else t
    | none =>
      if i.toInt == t.list.size + 1 && !v.isNil then
        let t := if t.places.isEmpty then t else t.setSlot k .nil
        let t := { t with list := t.list.push v }
        if t.places.isEmpty then t else t.gather t.slots.size
      else t.setSlot k v
  | k => t.setSlot k v

/-- A table with these values under 1, 2, ... before what it has. -/
def withList (t : TableObject) (values : List Value) : TableObject :=
  if values.isEmpty then t
  else
    let n := values.length
    let cleared := (List.range n).foldl (fun t k => t.setSlot (.int (Int64.ofNat (k + 1))) .nil)
      { t with list := values.toArray ++ t.list.extract n t.list.size }
    cleared.trimmed.gather cleared.slots.size

def ofList (values : List Value) : TableObject := empty.withList values

/-- How many values the list has. -/
def length (t : TableObject) : Nat := t.list.size

/-- The entry at or behind a place in the list, or among the slots. -/
def entryFrom : Nat → TableObject → Nat → Option (Key × Value)
  | 0, _, _ => none
  | fuel + 1, t, p =>
    if p < t.list.size then
      match t.list[p]?.getD .nil with
      | .nil => entryFrom fuel t (p + 1)
      | v => some (.int (Int64.ofNat (p + 1)), v)
    else match t.slots[p - t.list.size]? with
      | none => none
      | some (_, .nil) => entryFrom fuel t (p + 1)
      | some e => some e

/-- The place of a key in the order of entries. -/
def place? (t : TableObject) (k : Key) : Option Nat :=
  let inSlots := t.places[k]?.map (t.list.size + ·)
  match k with
  | .int i => (t.listPlace? i).or inSlots
  | _ => inSlots

/-- The entry behind `k`, or the first one; `none` if `k` is no key of the table. -/
def next (t : TableObject) (k : Option Key) : Option (Option (Key × Value)) :=
  let start := match k with
    | none => some 0
    | some k => (t.place? k).map (· + 1)
  start.map fun p => t.entryFrom (t.list.size + t.slots.size + 1 - p) p

/-- All entries in order. -/
def entries (t : TableObject) : List (Key × Value) :=
  (t.list.toList.zipIdx.map fun e => (Key.int (Int64.ofNat (e.2 + 1)), e.1)) ++ t.slots.toList
    |>.filter fun e => !e.2.isNil

end TableObject

/-! ## The heap -/

/-- A function of a script with the variables that were in scope where it was made. -/
structure Closure where
  body : Body
  cells : List Nat

structure Heap where
  tables : Array TableObject
  closures : Array Closure
  /-- Local variables. -/
  cells : Array Value
  /-- How many threads were made. -/
  threads : Nat
  /-- How many timeouts were asked for. -/
  timeouts : Nat

namespace Heap

/-- The table of globals. -/
def globals : Nat := 0

/-- The library of strings, in which the fields of every string are looked up. -/
def strings : Nat := 1

/-- The metatable of every string. -/
def stringMeta : Nat := 2

def empty : Heap := ⟨#[.empty, .empty, .empty], #[], #[], 0, 0⟩

def table (h : Heap) (id : Nat) : TableObject := h.tables[id]?.getD .empty

def modifyTable (h : Heap) (id : Nat) (f : TableObject → TableObject) : Heap :=
  { h with tables := h.tables.modify id f }

def newTable (h : Heap) (t : TableObject) : Value × Heap :=
  (.table h.tables.size, { h with tables := h.tables.push t })

def rawGet (h : Heap) (id : Nat) (k : Value) : Value :=
  match Key.ofValue? k with
  | some k => (h.table id).get k
  | none => .nil

def rawSet (h : Heap) (id : Nat) (k : Key) (v : Value) : Heap :=
  h.modifyTable id (·.set k v)

def field (h : Heap) (id : Nat) (name : String) : Value :=
  (h.table id).get (.str name.toUTF8)

def setField (h : Heap) (id : Nat) (name : String) (v : Value) : Heap :=
  h.rawSet id (.str name.toUTF8) v

/-- The table of a value's metamethods. -/
def metatable? (h : Heap) : Value → Option Nat
  | .table id => (h.table id).metatable
  | .str _ => some stringMeta
  | _ => none

/-- A metamethod of a value, or `nil`. -/
def metamethod (h : Heap) (v : Value) (name : String) : Value :=
  match h.metatable? v with
  | some id => h.field id name
  | none => .nil

def newCell (h : Heap) (v : Value) : Nat × Heap :=
  (h.cells.size, { h with cells := h.cells.push v })

def cell (h : Heap) (id : Nat) : Value := h.cells[id]?.getD .nil

def setCell (h : Heap) (id : Nat) (v : Value) : Heap :=
  { h with cells := h.cells.setIfInBounds id v }

/-- New variables with these values, put in front of those in scope one after the other. -/
def bindCells (h : Heap) (scope : List Nat) : List Value → List Nat × Heap
  | [] => (scope, h)
  | v :: rest =>
    let (id, h) := h.newCell v
    bindCells h (id :: scope) rest

def newClosure (h : Heap) (c : Closure) : Value × Heap :=
  (.function h.closures.size, { h with closures := h.closures.push c })

end Heap

end LiveModules.Script
