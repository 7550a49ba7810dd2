import LiveModules.Script.Operators

/-!
# Arguments of library functions

What a library function says of arguments that it refuses. Texts stand as bytes, one character for
each.
-/

namespace LiveModules.Script

/-- Why a library function does not answer. -/
inductive Complaint where
  /-- An argument, counted from 1, is refused. -/
  | argument (number : Nat) (what : String)
  /-- A message that the line of the call goes before. -/
  | fault (message : String)
  /-- A message that stands alone. -/
  | bare (message : String)

abbrev Check := Except Complaint

namespace Arguments

/-- An argument, counted from 1; one that is not given is `nil`. -/
def get (args : List Value) (n : Nat) : Value := args[n - 1]?.getD .nil

def isGiven (args : List Value) (n : Nat) : Bool := n ≤ args.length

/-- Whether an argument is neither missing nor `nil`. -/
def isPresent (args : List Value) (n : Nat) : Bool := !(get args n).isNil

def mismatch (h : Heap) (args : List Value) (n : Nat) (expected : String) : Complaint :=
  let found :=
    if isGiven args n then String.ofList (h.typeName (get args n)) else "no value"
  .argument n (expected ++ " expected, got " ++ found)

/-- Any value, which must be given. -/
def any (args : List Value) (n : Nat) : Check Value :=
  if isGiven args n then .ok (get args n) else .error (.argument n "value expected")

def num (h : Heap) (args : List Value) (n : Nat) : Check Num :=
  match (get args n).toNum? with
  | some x => .ok x
  | none => .error (mismatch h args n "number")

def float (h : Heap) (args : List Value) (n : Nat) : Check Float := do
  return (← num h args n).toFloat

def int (h : Heap) (args : List Value) (n : Nat) : Check Int64 := do
  match (← num h args n).toInt? with
  | some i => return i
  | none => throw (.argument n "number has no integer representation")

/-- An integer, or a default where none is given. -/
def intOr (h : Heap) (args : List Value) (n : Nat) (default : Int64) : Check Int64 :=
  if isPresent args n then int h args n else .ok default

/-- A string, as bytes. -/
def str (h : Heap) (args : List Value) (n : Nat) : Check ByteArray :=
  match (get args n).toBytes? with
  | some s => .ok s
  | none => .error (mismatch h args n "string")

def strOr (h : Heap) (args : List Value) (n : Nat) (default : ByteArray) : Check ByteArray :=
  if isPresent args n then str h args n else .ok default

/-- The place of a table. -/
def table (h : Heap) (args : List Value) (n : Nat) : Check Nat :=
  match get args n with
  | .table id => .ok id
  | _ => .error (mismatch h args n "table")

def isFunction : Value → Bool
  | .function _ | .builtin _ => true
  | _ => false

def function (h : Heap) (args : List Value) (n : Nat) : Check Value :=
  if isFunction (get args n) then .ok (get args n) else .error (mismatch h args n "function")

def require (ok : Bool) (n : Nat) (what : String) : Check Unit :=
  if ok then .ok () else .error (.argument n what)

end Arguments

/-- What a library function that calls nothing back answers: values, and what it changes. -/
abbrev Answered := Check (List Value × (Heap → Heap))

/-- An answer of one value that changes nothing. -/
def single (v : Value) : Answered := .ok ([v], id)

end LiveModules.Script
