import LiveModules.Script.Arguments

/-!
# Basic functions

Types, raw access to tables, metatables, numbers from texts.
-/

namespace LiveModules.Script.Library

open Arguments

def typeOf (args : List Value) : Answered := do
  single (.text (← any args 1).typeName)

/-- A numeral of letters and digits in a base up to 36, a minus before it. -/
def readInBase? (base : Nat) (cs : List Char) : Option Int64 :=
  let (negative, ds) := match Num.trimSpace cs with
    | '-' :: r => (true, r)
    | r => (false, r)
  if ds.isEmpty || !(ds.all fun c => (digitOf? c).any (· < base)) then none
  else
    let n := Int64.ofNat (Num.readDigits base ds)
    some (if negative then -n else n)

def toNumber (h : Heap) (args : List Value) : Answered := do
  if !isPresent args 2 then
    match ← any args 1 with
    | .num n => single (.num n)
    | v => single ((v.toNum?.map Value.num).getD .nil)
  else
    let base ← int h args 2
    match get args 1 with
    | .str s =>
      require (2 ≤ base && base ≤ 36) 2 "base out of range"
      single (((readInBase? base.toInt.toNat (charsOf s)).map Value.int).getD .nil)
    | _ => throw (mismatch h args 1 "string")

def rawEqual (args : List Value) : Answered := do
  single (.bool ((← any args 1).rawEq (← any args 2)))

def rawGet (h : Heap) (args : List Value) : Answered := do
  let id ← table h args 1
  single (h.rawGet id (← any args 2))

def rawSet (h : Heap) (args : List Value) : Answered := do
  let id ← table h args 1
  let k ← any args 2
  let v ← any args 3
  match Key.ofValue? k with
  | some key => return ([get args 1], fun h => h.rawSet id key v)
  | none => throw (.bare (if k.isNil then "table index is nil" else "table index is NaN"))

def rawLen (h : Heap) (args : List Value) : Answered :=
  match get args 1 with
  | .table id => single (.nat (h.table id).length)
  | .str s => single (.nat s.size)
  | _ => throw (mismatch h args 1 "table or string")

/-- The arguments from a place on, which may count from the end, or how many there are. -/
def select (h : Heap) (args : List Value) : Answered := do
  let rest := args.drop 1
  if let .str s := get args 1 then
    if s == "#".toUTF8 then return ← single (.nat rest.length)
  let n := (← int h args 1).toInt
  if 0 < n then return (rest.drop (n.toNat - 1), id)
  else
    require (n < 0 && n.natAbs ≤ rest.length) 1 "index out of range"
    return (rest.drop (rest.length - n.natAbs), id)

def getMetatable (h : Heap) (args : List Value) : Answered := do
  let v ← any args 1
  match h.metatable? v with
  | none => single .nil
  | some id => single (match h.field id "__metatable" with
    | .nil => .table id
    | shown => shown)

def setMetatable (h : Heap) (args : List Value) : Answered := do
  let id ← table h args 1
  let metatable ← match get args 2 with
    | .table m => pure (some m)
    | .nil => if isGiven args 2 then pure none else throw (mismatch h args 2 "nil or table")
    | _ => throw (mismatch h args 2 "nil or table")
  if (h.metamethod (.table id) "__metatable").isNil then
    return ([.table id], fun h => h.modifyTable id fun t => { t with metatable })
  else throw (.fault "cannot change a protected metatable")

/-- The entry behind a key, or the first one. -/
def next (h : Heap) (args : List Value) : Answered := do
  let t ← (h.table ·) <$> table h args 1
  let k := get args 2
  let found := if k.isNil then t.next none else (Key.ofValue? k).bind fun k => t.next (some k)
  match found with
  | none => throw (.bare "invalid key to 'next'")
  | some none => single .nil
  | some (some (k, v)) => return ([k.toValue, v], id)

def collectGarbage (h : Heap) (args : List Value) : Answered := do
  let option := charsOf (← strOr h args 1 "collect".toUTF8)
  match String.ofList option with
  | "collect" | "setpause" | "setstepmul" | "stop" | "restart" => single (.int 0)
  | "count" => single (.float (Float.ofNat h.tables.size))
  | "step" | "isrunning" => single (.bool true)
  | "incremental" | "generational" => single (.text "incremental")
  | other => throw (.argument 1 ("invalid option '" ++ other ++ "'"))

/-! ## Threads -/

def createThread (h : Heap) (args : List Value) : Answered := do
  let _ ← function h args 1
  return ([.thread (h.threads + 1)], fun h => { h with threads := h.threads + 1 })

def threadStatus (h : Heap) (args : List Value) : Answered :=
  match get args 1 with
  | .thread 0 => single (.text "running")
  | .thread _ => single (.text "suspended")
  | _ => throw (mismatch h args 1 "coroutine")

/-- The thread that runs, and whether it is the main one. -/
def runningThread : Answered := .ok ([.thread 0, .bool true], id)

end LiveModules.Script.Library
