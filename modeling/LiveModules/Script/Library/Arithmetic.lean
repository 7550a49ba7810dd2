import LiveModules.Script.Arguments

/-!
# Functions on numbers
-/

namespace LiveModules.Script.Library

open Arguments

/-- A float as an integer if it is one that fits. -/
def settle (x : Float) : Value := ((Num.ofFloatExact? x).map Value.int).getD (.float x)

def mathAbs (h : Heap) (args : List Value) : Answered := do
  single (match ← num h args 1 with
    | .int i => .int (if i < 0 then -i else i)
    | .float x => .float x.abs)

/-- A function that rounds floats and leaves integers as they are. -/
def rounding (f : Float → Float) (h : Heap) (args : List Value) : Answered := do
  single (match ← num h args 1 with
    | .int i => .int i
    | .float x => settle (f x))

def onFloat (f : Float → Float) (h : Heap) (args : List Value) : Answered := do
  single (.float (f (← float h args 1)))

/-- The logarithm to a base, or the natural one. -/
def mathLog (h : Heap) (args : List Value) : Answered := do
  let x ← float h args 1
  if !isPresent args 2 then single (.float x.log)
  else
    let base ← float h args 2
    single (.float (if base == 2.0 then x.log2 else if base == 10.0 then x.log10
      else x.log / base.log))

/-- The remainder with the sign of the dividend. -/
def floatRemainder (a b : Float) : Float :=
  match Num.commonScale a b with
  | some (x, y, low) =>
    if y = 0 then 0.0 / 0.0
    else
      let f := Float.scaleB (Float.ofNat (Int.tmod x y).natAbs) low
      if Decimal.isNegative a then -f else f
  | none => if a.isNaN || b.isNaN || a.isInf then 0.0 / 0.0 else a

def mathFmod (h : Heap) (args : List Value) : Answered := do
  match ← num h args 1, ← num h args 2 with
  | .int a, .int b =>
    require (b ≠ 0) 2 "zero"
    single (.int (Int64.ofInt (Int.tmod a.toInt b.toInt)))
  | a, b => single (.float (floatRemainder a.toFloat b.toFloat))

def mathModf (h : Heap) (args : List Value) : Answered := do
  let x ← float h args 1
  let whole := if x < 0 then x.ceil else x.floor
  let rest := if whole == x then 0.0 else x - whole
  return ([.float whole, .float rest], id)

/-- The first of the arguments that `better` puts before all others. -/
def best (better : Num → Num → Bool) (h : Heap) (args : List Value) : Answered := do
  let first ← num h args 1
  let n ← (List.range (args.length - 1)).foldlM (fun acc k => do
    let n ← num h args (k + 2)
    return if better n acc then n else acc) first
  single (.num n)

def mathToInteger (args : List Value) : Answered := do
  let v ← any args 1
  single (((v.toNum?.bind Num.toInt?).map Value.int).getD .nil)

def mathType (args : List Value) : Answered := do
  single (match ← any args 1 with
    | .num (.int _) => .text "integer"
    | .num (.float _) => .text "float"
    | _ => .nil)

def mathUlt (h : Heap) (args : List Value) : Answered := do
  single (.bool ((← int h args 1).toUInt64 < (← int h args 2).toUInt64))

end LiveModules.Script.Library
