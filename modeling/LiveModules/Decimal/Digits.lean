/-!
# Decimal digits of floating-point numbers

A finite number is `m * 2 ^ q`. Its digits are chosen in exact arithmetic: either a given number of
significant digits, or the fewest that read back to the number, nearest of those.
-/

namespace LiveModules.Decimal

/-- What a number is, sign apart: `finite m q` is `m * 2 ^ q`. -/
inductive Magnitude where
  | nan
  | infinite
  | finite (m : Nat) (q : Int)
  deriving DecidableEq, Repr

/-- The sign bit. -/
def isNegative (x : Float) : Bool := x.toBits >>> 63 == 1

def magnitude (x : Float) : Magnitude :=
  let bits := x.toBits.toNat
  let exponent := bits / Nat.pow 2 52 % Nat.pow 2 11
  let fraction := bits % Nat.pow 2 52
  if exponent = 2047 then
    if fraction = 0 then .infinite else .nan
  else if exponent = 0 then .finite fraction (-1074)
  else .finite (Nat.pow 2 52 + fraction) (Int.ofNat exponent - 1075)

/-- Decimal digits with the exponent of the first: `0.0123` has digits 1, 2, 3 and lead -2. -/
structure Digits where
  digits : List Nat
  lead : Int
  deriving DecidableEq, Repr

/-- The digits of `n`, most significant first. -/
def digitsOf (n : Nat) : List Nat := (Nat.toDigits 10 n).map fun c => c.toNat - '0'.toNat

/-- A nonnegative fraction. -/
structure Ratio where
  num : Nat
  den : Nat

def Ratio.ofBinary (m : Nat) (q : Int) : Ratio :=
  if 0 ≤ q then ⟨m * Nat.pow 2 q.toNat, 1⟩ else ⟨m, Nat.pow 2 (-q).toNat⟩

/-- Times ten to the power `s`. -/
def Ratio.shift (r : Ratio) (s : Int) : Ratio :=
  if 0 ≤ s then ⟨r.num * Nat.pow 10 s.toNat, r.den⟩
  else ⟨r.num, r.den * Nat.pow 10 (-s).toNat⟩

def Ratio.floor (r : Ratio) : Nat := r.num / r.den

/-- The nearest integer, the even one of two. -/
def Ratio.round (r : Ratio) : Nat :=
  let n := r.floor
  let rest := r.num % r.den
  if 2 * rest < r.den then n
  else if r.den < 2 * rest then n + 1
  else if n % 2 = 0 then n else n + 1

def Ratio.le (a b : Ratio) : Bool := a.num * b.den ≤ b.num * a.den

/-- Walks `k` up or down until ten to the power `k` is at most `r` and the next power is not; `fuel`
bounds the walk. -/
def Ratio.settleLead (r : Ratio) : Nat → Int → Int
  | 0, k => k
  | fuel + 1, k =>
    if (r.shift (-k)).floor = 0 then settleLead r fuel (k - 1)
    else if 10 ≤ (r.shift (-k)).floor then settleLead r fuel (k + 1)
    else k

/-- The exponent of the first digit of a positive fraction. -/
def Ratio.lead (r : Ratio) : Int :=
  let bits : Int := (Nat.log2 r.num : Int) - (Nat.log2 r.den : Int)
  settleLead r 8 (bits * 30103 / 100000)

/-- The value of `n` grid points of a decimal grid, as digits. -/
def Digits.ofGrid (n : Nat) (unit : Int) : Digits :=
  let ds := digitsOf n
  ⟨ds, unit + ds.length - 1⟩

/-- Exactly `count` significant digits of a positive `m * 2 ^ q`, rounded to nearest, ties to
even. -/
def fixed (count : Nat) (m : Nat) (q : Int) : Digits :=
  let r := Ratio.ofBinary m q
  let unit := r.lead - count + 1
  let d := Digits.ofGrid (r.shift (-unit)).round unit
  ⟨d.digits.take count, d.lead⟩

/-- The interval of the reals that round to `m * 2 ^ q`, and whether its ends belong to it. -/
structure Neighbourhood where
  low : Ratio
  high : Ratio
  closed : Bool

def neighbourhood (m : Nat) (q : Int) : Neighbourhood :=
  let low :=
    if m = Nat.pow 2 52 && -1074 < q then Ratio.ofBinary (4 * m - 1) (q - 2)
    else Ratio.ofBinary (2 * m - 1) (q - 1)
  ⟨low, Ratio.ofBinary (2 * m + 1) (q - 1), m % 2 == 0⟩

def Neighbourhood.contains (v : Neighbourhood) (r : Ratio) : Bool :=
  if v.closed then v.low.le r && r.le v.high else !r.le v.low && !v.high.le r

/-- The grid point nearest to `r` among its two neighbours that lie in `v`, on the grid of the
powers `10 ^ unit`. -/
def nearestOnGrid (r : Ratio) (v : Neighbourhood) (unit : Int) : Option Nat :=
  let below := (r.shift (-unit)).floor
  let hit (n : Nat) := 0 < n && v.contains (Ratio.shift ⟨n, 1⟩ unit)
  match hit below, hit (below + 1) with
  | true, true => some (r.shift (-unit)).round
  | true, false => some below
  | false, true => some (below + 1)
  | false, false => none

/-- Tries `count`, `count + 1`, ... digits, up to `fuel` more. -/
def shortestFrom (r : Ratio) (v : Neighbourhood) (lead : Int) : Nat → Nat → Digits
  | 0, count => Digits.ofGrid (r.shift (count - 1 - lead)).round (lead - count + 1)
  | fuel + 1, count =>
    let unit := lead - count + 1
    match nearestOnGrid r v unit with
    | some n => Digits.ofGrid n unit
    | none => shortestFrom r v lead fuel (count + 1)

/-- Without the zeros at the end. -/
def Digits.stripZeros (d : Digits) : Digits :=
  ⟨(d.digits.reverse.dropWhile (· == 0)).reverse, d.lead⟩

/-- The fewest digits that read back to a positive `m * 2 ^ q`. -/
def shortest (m : Nat) (q : Int) : Digits :=
  let r := Ratio.ofBinary m q
  (shortestFrom r (neighbourhood m q) r.lead 16 1).stripZeros

end LiveModules.Decimal
