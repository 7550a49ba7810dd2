import LiveModules.Decimal.Digits

/-!
# Decimal layouts

How chosen digits are written: where positional notation ends, how an exponent looks, what zero,
the infinities and the rest are called. Each format is one record.
-/

namespace LiveModules.Decimal

/-- A way to write numbers. -/
structure Layout where
  /-- The significant digits kept; absent for the fewest that read back. -/
  precision : Option Nat
  /-- Positional notation is used from this exponent of the first digit ... -/
  least : Int
  /-- ... up to this one. -/
  most : Int
  /-- Whether a positional number without a fraction gets `.0`. -/
  pointZero : Bool
  /-- The least number of digits of an exponent, which always has a sign. -/
  exponentDigits : Nat
  nan : String
  infinity : String

def digitChar (d : Nat) : Char := Char.ofNat ('0'.toNat + d)

def padLeft (width : Nat) (cs : List Char) : List Char :=
  List.replicate (width - cs.length) '0' ++ cs

/-- Digits with the point among or around them. -/
def positional (pointZero : Bool) (d : Digits) : List Char :=
  let ds := d.digits.map digitChar
  if d.lead < 0 then
    "0.".toList ++ List.replicate (-d.lead - 1).toNat '0' ++ ds
  else
    let whole := d.lead.toNat + 1
    if ds.length ≤ whole then
      ds ++ List.replicate (whole - ds.length) '0' ++ (if pointZero then ".0".toList else [])
    else ds.take whole ++ '.' :: ds.drop whole

/-- One digit, the rest after a point, and the exponent. -/
def scientific (exponentDigits : Nat) (d : Digits) : List Char :=
  let ds := d.digits.map digitChar
  let mantissa :=
    match ds with
    | [] => ['0']
    | [c] => [c]
    | c :: rest => c :: '.' :: rest
  let sign := if d.lead < 0 then '-' else '+'
  mantissa ++ 'e' :: sign :: padLeft exponentDigits (Nat.toDigits 10 d.lead.natAbs)

def Layout.digits (l : Layout) (m : Nat) (q : Int) : Digits :=
  if m = 0 then ⟨[0], 0⟩
  else match l.precision with
    | none => shortest m q
    | some n => (fixed n m q).stripZeros

/-- The text of `x`. -/
def Layout.write (l : Layout) (x : Float) : String :=
  match magnitude x with
  | .nan => l.nan
  | .infinite => (if isNegative x then "-" else "") ++ l.infinity
  | .finite m q =>
    let d := l.digits m q
    let text :=
      if l.least ≤ d.lead && d.lead ≤ l.most then positional l.pointZero d
      else scientific l.exponentDigits d
    String.ofList (if isNegative x then '-' :: text else text)

end LiveModules.Decimal
