import LiveModules.Decimal.Layout
import LiveModules.Script.Bytes

/-!
# Numbers of scripts

A number is a 64-bit integer, which wraps, or a float. Division and remainder round toward minus
infinity. An integer and a float compare by their exact values.
-/

namespace LiveModules.Script

inductive Num where
  | int (i : Int64)
  | float (x : Float)

namespace Num

def toFloat : Num → Float
  | .int i => i.toFloat
  | .float x => x

/-- The integer that a float is, if it is one that fits. -/
def ofFloatExact? (x : Float) : Option Int64 :=
  if x.floor == x && -9223372036854775808.0 ≤ x && x < 9223372036854775808.0 then
    some x.toInt64
  else none

def toInt? : Num → Option Int64
  | .int i => some i
  | .float x => ofFloatExact? x

/-! ## Reading -/

def readDigits (base : Nat) (cs : List Char) : Nat :=
  cs.foldl (fun n c => n * base + hexValue c) 0

/-- The float nearest to `m * 2 ^ q`. -/
def binaryFloat (m : Nat) (q : Int) : Float := Float.scaleB (Float.ofNat m) q

/-- An exponent: sign and digits, nothing after them. -/
def readExponent? (cs : List Char) : Option Int :=
  let (down, ds) := match cs with
    | '-' :: r => (true, r)
    | '+' :: r => (false, r)
    | r => (false, r)
  if ds.isEmpty || !ds.all isDigit then none
  else
    let n : Int := min (readDigits 10 ds) 100000
    some (if down then -n else n)

/-- A numeral behind `0x`. -/
def readHex? (cs : List Char) : Option Num :=
  let whole := cs.takeWhile isHexDigit
  let rest := cs.dropWhile isHexDigit
  let (point, frac, rest) := match rest with
    | '.' :: r => (true, r.takeWhile isHexDigit, r.dropWhile isHexDigit)
    | r => (false, [], r)
  if whole.isEmpty && frac.isEmpty then none
  else
    let m := readDigits 16 (whole ++ frac)
    let shift : Int := -4 * (frac.length : Int)
    match rest with
    | [] =>
      if point then some (.float (binaryFloat m shift))
      else some (.int (Int64.ofNat m))
    | c :: r =>
      if c = 'p' || c = 'P' then
        (readExponent? r).map fun e => .float (binaryFloat m (shift + e))
      else none

/-- A decimal numeral; an integer that does not fit is a float. -/
def readDecimal? (cs : List Char) : Option Num :=
  let whole := cs.takeWhile isDigit
  let rest := cs.dropWhile isDigit
  let (point, frac, rest) := match rest with
    | '.' :: r => (true, r.takeWhile isDigit, r.dropWhile isDigit)
    | r => (false, [], r)
  if whole.isEmpty && frac.isEmpty then none
  else
    let m := readDigits 10 (whole ++ frac)
    let make (e : Int) : Num :=
      let e := e - frac.length
      .float (if m = 0 then 0.0
        else if e < -30000 then 0.0
        else if 0 ≤ e then Float.ofScientific m false (min e.toNat 30000)
        else Float.ofScientific m true (-e).toNat)
    match rest with
    | [] => if point || Nat.pow 2 63 ≤ m then some (make 0) else some (.int (Int64.ofNat m))
    | c :: r => if c = 'e' || c = 'E' then (readExponent? r).map make else none

/-- A numeral without a sign. -/
def readUnsigned? (cs : List Char) : Option Num :=
  match cs with
  | '0' :: 'x' :: r => readHex? r
  | '0' :: 'X' :: r => readHex? r
  | r => readDecimal? r

def neg : Num → Num
  | .int i => .int (-i)
  | .float x => .float (-x)

def trimSpace (cs : List Char) : List Char :=
  ((cs.dropWhile isSpace).reverse.dropWhile isSpace).reverse

/-- The number that a text spells, blanks around it aside. -/
def ofText? (cs : List Char) : Option Num :=
  match trimSpace cs with
  | '-' :: r => (readUnsigned? r).map fun
    | .float x => .float (-x)
    | .int i => .int (-i)
  | '+' :: r => readUnsigned? r
  | r => readUnsigned? r

/-! ## Writing -/

/-- Floats have up to 14 significant digits. -/
def floatLayout : Decimal.Layout := ⟨some 14, -4, 13, false, 2, "-nan", "inf"⟩

/-- The text of a float, which never looks like an integer. -/
def writeFloat (x : Float) : String :=
  let s := floatLayout.write x
  if s.toList.all fun c => c = '-' || isDigit c then s ++ ".0" else s

def write : Num → String
  | .int i => toString i.toInt
  | .float x => writeFloat x

/-! ## Arithmetic -/

/-- A dividend and a divisor as integers times one power of two. -/
def commonScale (a b : Float) : Option (Int × Int × Int) :=
  match Decimal.magnitude a, Decimal.magnitude b with
  | .finite m p, .finite n q =>
    let low := min p q
    let signed (x : Float) (k : Nat) (shift : Int) : Int :=
      let k := k * Nat.pow 2 shift.toNat
      if Decimal.isNegative x then -(k : Int) else k
    some (signed a m (p - low), signed b n (q - low), low)
  | _, _ => none

/-- The remainder with the sign of the divisor. -/
def floatMod (a b : Float) : Float :=
  match commonScale a b with
  | some (x, y, low) =>
    if y = 0 then 0.0 / 0.0
    else
      let r := Int.fmod x y
      if r = 0 then (if Decimal.isNegative a then -0.0 else 0.0)
      else
        let f := Float.scaleB (Float.ofNat r.natAbs) low
        if r < 0 then -f else f
  | none =>
    if a.isNaN || b.isNaN || a.isInf then 0.0 / 0.0
    else if a == 0.0 || (a < 0) == (b < 0) then a else b

/-- What is wrong with an operation on integers. -/
inductive DivideError where
  | quotient
  | remainder

def floorDiv : Num → Num → Except DivideError Num
  | .int a, .int b =>
    if b = 0 then .error .quotient else .ok (.int (Int64.ofInt (Int.fdiv a.toInt b.toInt)))
  | a, b => .ok (.float (a.toFloat / b.toFloat).floor)

def floorMod : Num → Num → Except DivideError Num
  | .int a, .int b =>
    if b = 0 then .error .remainder else .ok (.int (Int64.ofInt (Int.fmod a.toInt b.toInt)))
  | a, b => .ok (.float (floatMod a.toFloat b.toFloat))

/-- An operation that integers and floats share. -/
def lift (onInts : Int64 → Int64 → Int64) (onFloats : Float → Float → Float) : Num → Num → Num
  | .int a, .int b => .int (onInts a b)
  | a, b => .float (onFloats a.toFloat b.toFloat)

def add : Num → Num → Num := lift (· + ·) (· + ·)

def sub : Num → Num → Num := lift (· - ·) (· - ·)

def mul : Num → Num → Num := lift (· * ·) (· * ·)

def div (a b : Num) : Num := .float (a.toFloat / b.toFloat)

def pow (a b : Num) : Num := .float (Float.pow a.toFloat b.toFloat)

/-- Shifts left, or right where `n` is negative; bits fall off and zeros come in. -/
def shift (a n : Int64) : Int64 :=
  let bits := a.toUInt64.toNat
  let k := n.toInt
  if 64 ≤ k.natAbs then 0
  else if 0 ≤ k then Int64.ofNat (bits * Nat.pow 2 k.toNat)
  else Int64.ofNat (bits / Nat.pow 2 k.natAbs)

/-! ## Order -/

/-- How an integer stands to a float, which must not be a NaN. -/
def compareIntFloat (i : Int64) (x : Float) : Ordering :=
  match Decimal.magnitude x with
  | .nan => .eq
  | .infinite => if Decimal.isNegative x then .gt else .lt
  | .finite m q =>
    let m : Int := if Decimal.isNegative x then -(m : Int) else m
    if 0 ≤ q then compare i.toInt (m * (Nat.pow 2 q.toNat : Nat))
    else compare (i.toInt * (Nat.pow 2 (-q).toNat : Nat)) m

def lt : Num → Num → Bool
  | .int a, .int b => a < b
  | .float a, .float b => a < b
  | .int a, .float b => !b.isNaN && compareIntFloat a b == .lt
  | .float a, .int b => !a.isNaN && compareIntFloat b a == .gt

def le : Num → Num → Bool
  | .int a, .int b => a ≤ b
  | .float a, .float b => a ≤ b
  | .int a, .float b => !b.isNaN && compareIntFloat a b != .gt
  | .float a, .int b => !a.isNaN && compareIntFloat b a != .lt

def eq : Num → Num → Bool
  | .int a, .int b => a == b
  | .float a, .float b => a == b
  | .int a, .float b => !b.isNaN && compareIntFloat a b == .eq
  | .float a, .int b => !a.isNaN && compareIntFloat b a == .eq

end Num

end LiveModules.Script
