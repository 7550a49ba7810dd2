import LiveModules.Script.Arguments

/-!
# Functions on tables as lists
-/

namespace LiveModules.Script.Library

open Arguments

def lengthOf (h : Heap) (id : Nat) : Int := (h.table id).length

/-- The texts under the indices from `i` on, with a separator between them. -/
def joinFrom (h : Heap) (id : Nat) (sep : ByteArray) : Nat → Int → ByteArray → Check ByteArray
  | 0, _, acc => .ok acc
  | count + 1, i, acc =>
    match (h.rawGet id (.int (Int64.ofInt i))).toBytes? with
    | some s => joinFrom h id sep count (i + 1) (acc ++ s ++ (if count = 0 then .empty else sep))
    | none =>
      .error (.fault ("invalid value (at index " ++ toString i ++ ") in table for 'concat'"))

def tableConcat (h : Heap) (args : List Value) : Answered := do
  let id ← table h args 1
  let sep ← strOr h args 2 .empty
  let first := (← intOr h args 3 1).toInt
  let last := (← intOr h args 4 (Int64.ofInt (lengthOf h id))).toInt
  single (.str (← joinFrom h id sep (last - first + 1).toNat first .empty))

def setAt (h : Heap) (id : Nat) (i : Int) (v : Value) : Heap :=
  h.rawSet id (.int (Int64.ofInt i)) v

def getAt (h : Heap) (id : Nat) (i : Int) : Value := h.rawGet id (.int (Int64.ofInt i))

/-- Moves the values under `count` indices from `i` on by one place, the last one first. -/
def shiftUp (id : Nat) (i : Int) (count : Nat) (h : Heap) : Heap :=
  (List.range count).foldl (fun h (k : Nat) =>
    let j := i + (count - k : Nat)
    let v := getAt h id (j - 1)
    setAt h id j v) h

/-- Moves the values behind index `i` down by one place, the first one first. -/
def shiftDown (id : Nat) (i : Int) (count : Nat) (h : Heap) : Heap :=
  (List.range count).foldl (fun h (k : Nat) =>
    let v := getAt h id (i + k + 1)
    setAt h id (i + k) v) h

def tableInsert (h : Heap) (args : List Value) : Answered := do
  let id ← table h args 1
  let behind := lengthOf h id + 1
  match args.length with
  | 2 => return ([], fun h => setAt h id behind (get args 2))
  | 3 =>
    let i := (← int h args 2).toInt
    require (1 ≤ i && i ≤ behind) 2 "position out of bounds"
    return ([], fun h => setAt (shiftUp id i (behind - i).toNat h) id i (get args 3))
  | _ => throw (.fault "wrong number of arguments to 'insert'")

def tablePack (h : Heap) (args : List Value) : Answered :=
  let id := h.tables.size
  .ok ([.table id], fun h =>
    ((h.newTable (TableObject.ofList args)).2).setField id "n" (.nat args.length))

def tableRemove (h : Heap) (args : List Value) : Answered := do
  let id ← table h args 1
  let size := lengthOf h id
  let i ← if isPresent args 2 then (·.toInt) <$> int h args 2 else pure size
  require (i == size || (1 ≤ i && i ≤ size + 1)) 2 "position out of bounds"
  return ([getAt h id i], fun h => setAt (shiftDown id i (size - i).toNat h) id (max i size) .nil)

/-- How many values are unpacked at most. -/
def unpackLimit : Int := 1000000

def tableUnpack (h : Heap) (args : List Value) : Answered := do
  let first := (← intOr h args 2 1).toInt
  let read (i : Int) : Value := match get args 1 with
    | .table id => getAt h id i
    | _ => .nil
  let last ←
    if isPresent args 3 then (·.toInt) <$> int h args 3
    else match get args 1 with
      | .table id => pure (lengthOf h id)
      | .str s => pure s.size
      | v =>
        throw (.bare ("attempt to get length of a " ++ String.ofList (h.typeName v) ++ " value"))
  if unpackLimit ≤ last - first then throw (.fault "too many results to unpack")
  return ((List.range (last - first + 1).toNat).map fun (k : Nat) => read (first + k), id)

/-- Sorted, if all values are numbers or all are strings. -/
def sortedPlain? (vs : List Value) : Option (List Value) := do
  match vs.mapM fun | .num n => some n | _ => none with
  | some ns => return (ns.mergeSort fun a b => !b.lt a).map .num
  | none =>
    let ss ← vs.mapM fun | .str s => some s | _ => none
    return (ss.mergeSort fun a b => !Operators.bytesLt b a).map .str

end LiveModules.Script.Library
