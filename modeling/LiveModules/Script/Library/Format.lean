import LiveModules.Script.Arguments

/-!
# Formatting

Directives of a format: flags, a width, a precision and the kind of text that is wanted. Texts stand
as bytes, one character for each.
-/

namespace LiveModules.Script.Format

structure Directive where
  flags : List Char
  width : Nat
  precision : Option Nat
  kind : Char

namespace Directive

def has (d : Directive) (flag : Char) : Bool := d.flags.contains flag

def isModifier (c : Char) : Bool := isDigit c || "-+ #.".toList.contains c

/-- At most two digits, and what is behind them. -/
def twoDigits (cs : List Char) : Nat × List Char :=
  let ds := (cs.take 2).takeWhile isDigit
  (Num.readDigits 10 ds, cs.drop ds.length)

def isFlag (c : Char) : Bool := "-+ #0".toList.contains c

/-- A directive from behind its percent sign. -/
def read? (cs : List Char) : Option (Directive × List Char) :=
  let flags := cs.takeWhile isFlag
  let (width, rest) := twoDigits (cs.dropWhile isFlag)
  let (precision, rest) := match rest with
    | '.' :: r =>
      let (p, r) := twoDigits r
      (some p, r)
    | r => (none, r)
  match rest with
  | kind :: rest => if isModifier kind then none else some (⟨flags, width, precision, kind⟩, rest)
  | [] => none

/-- The text of a malformed directive. -/
def shown (cs : List Char) : List Char :=
  '%' :: (cs.takeWhile isModifier ++ (cs.dropWhile isModifier).take 1)

/-- A text with the sign or base mark that goes before it, filled up to the width. -/
def fill (d : Directive) (zeros : Bool) (mark body : List Char) : List Char :=
  let missing := d.width - (mark.length + body.length)
  if d.has '-' then mark ++ body ++ List.replicate missing ' '
  else if zeros && d.has '0' then mark ++ List.replicate missing '0' ++ body
  else List.replicate missing ' ' ++ mark ++ body

def signMark (d : Directive) (negative : Bool) : List Char :=
  if negative then ['-'] else if d.has '+' then ['+'] else if d.has ' ' then [' '] else []

/-- Digits of an integer, at least as many as the precision says. -/
def intDigits (d : Directive) (base n : Nat) : List Char :=
  if n = 0 && d.precision == some 0 then []
  else Decimal.padLeft (d.precision.getD 1) (Nat.toDigits base n)

def signedInt (d : Directive) (i : Int64) : List Char :=
  d.fill d.precision.isNone (d.signMark (i < 0)) (d.intDigits 10 i.toInt.natAbs)

def unsignedInt (d : Directive) (base : Nat) (mark : List Char) (i : Int64) : List Char :=
  let n := i.toUInt64.toNat
  let mark := if d.has '#' && n ≠ 0 then mark else []
  d.fill d.precision.isNone mark (d.intDigits base n)

/-! ## Floats -/

def withPoint (always : Bool) (whole frac : List Char) : List Char :=
  if frac.isEmpty && !always then whole else whole ++ '.' :: frac

/-- `places` digits after the point. -/
def plainDigits (always : Bool) (places m : Nat) (q : Int) : List Char :=
  let n := ((Decimal.Ratio.ofBinary m q).shift places).round
  let ds := Decimal.padLeft (places + 1) (Nat.toDigits 10 n)
  withPoint always (ds.take (ds.length - places)) (ds.drop (ds.length - places))

def roundedDigits (count m : Nat) (q : Int) : Decimal.Digits :=
  if m = 0 then ⟨List.replicate count 0, 0⟩
  else
    let d := Decimal.fixed count m q
    ⟨d.digits ++ List.replicate (count - d.digits.length) 0, d.lead⟩

def exponentText (e : Int) : List Char :=
  'e' :: (if e < 0 then '-' else '+') :: Decimal.padLeft 2 (Nat.toDigits 10 e.natAbs)

/-- One digit, `places` digits after the point, an exponent. -/
def exponentDigits (always : Bool) (places m : Nat) (q : Int) : List Char :=
  let d := roundedDigits (places + 1) m q
  let ds := d.digits.map Decimal.digitChar
  withPoint always (ds.take 1) (ds.drop 1) ++ exponentText d.lead

def stripZeros (cs : List Char) : List Char := (cs.reverse.dropWhile (· = '0')).reverse

/-- `count` significant digits, with an exponent where the number is large or small. -/
def generalDigits (always : Bool) (count m : Nat) (q : Int) : List Char :=
  let count := max count 1
  let d := roundedDigits count m q
  let strip (cs : List Char) : List Char := if always then cs else stripZeros cs
  let ds := d.digits.map Decimal.digitChar
  if -4 ≤ d.lead && d.lead < count then
    if d.lead < 0 then
      withPoint always ['0'] (strip (List.replicate (-d.lead - 1).toNat '0' ++ ds))
    else
      let whole := d.lead.toNat + 1
      withPoint always (ds.take whole) (strip (ds.drop whole))
  else withPoint always (ds.take 1) (strip (ds.drop 1)) ++ exponentText d.lead

/-- Binary digits in base 16, and a power of two. -/
def binaryDigits (m : Nat) (q : Int) : List Char :=
  let normal := decide (Nat.pow 2 52 ≤ m)
  let frac := stripZeros (Decimal.padLeft 13 (Nat.toDigits 16 (m % Nat.pow 2 52)))
  let e := if m = 0 then 0 else q + 52
  withPoint false [if normal then '1' else '0'] frac ++
    'p' :: (if e < 0 then '-' else '+') :: Nat.toDigits 10 e.natAbs

def floatText (d : Directive) (x : Float) : List Char :=
  let upper (cs : List Char) : List Char := if d.kind.isUpper then cs.map Char.toUpper else cs
  let mark := d.signMark (Decimal.isNegative x)
  match Decimal.magnitude x with
  | .nan => d.fill false (if x.toBits = 0 then [] else ['-']) (upper "nan".toList)
  | .infinite => d.fill false mark (upper "inf".toList)
  | .finite m q =>
    let precision := d.precision.getD 6
    let always := d.has '#'
    match d.kind.toLower with
    | 'f' => d.fill true mark (plainDigits always precision m q)
    | 'e' => d.fill true mark (upper (exponentDigits always precision m q))
    | 'a' => d.fill true (mark ++ upper ['0', 'x']) (upper (binaryDigits m q))
    | _ => d.fill true mark (upper (generalDigits always precision m q))

end Directive

/-! ## Literals -/

/-- A string in quotes, as a script writes it. -/
def quoted : List Char → List Char
  | [] => ['"']
  | c :: rest =>
    let shown :=
      if c = '"' || c = '\\' || c = '\n' then ['\\', c]
      else if c.toNat < 32 || c.toNat = 127 then
        let ds := Nat.toDigits 10 c.toNat
        '\\' :: (if rest.head?.any isDigit then Decimal.padLeft 3 ds else ds)
      else [c]
    shown ++ quoted rest

def literal? : Value → Option (List Char)
  | .nil => some "nil".toList
  | .bool b => some (if b then "true" else "false").toList
  | .str s => some ('"' :: quoted (charsOf s))
  | .num (.int i) =>
    if i = Int64.minValue then some "0x8000000000000000".toList
    else some (toString i.toInt).toList
  | .num (.float x) =>
    if x.isNaN then some "(0/0)".toList
    else if x.isInf then some (if x < 0 then "-1e9999" else "1e9999").toList
    else some ((⟨[], 0, none, 'a'⟩ : Directive).floatText x)
  | _ => none

/-! ## Whole formats -/

open Arguments

/-- A text cut to the precision and filled up to the width. -/
def Directive.text (d : Directive) (cs : List Char) : List Char :=
  d.fill false [] (match d.precision with
    | some p => cs.take p
    | none => cs)

/-- The text of one directive for argument `n`; `show` gives the text of any value. -/
def Directive.apply (shownAs : Value → List Char) (h : Heap) (args : List Value) (n : Nat)
    (d : Directive) : Check (List Char) := do
  if !isGiven args n then throw (.argument n "no value")
  match d.kind with
  | 'd' | 'i' => return d.signedInt (← int h args n)
  | 'u' => return d.unsignedInt 10 [] (← int h args n)
  | 'o' => return d.unsignedInt 8 ['0'] (← int h args n)
  | 'x' => return d.unsignedInt 16 ['0', 'x'] (← int h args n)
  | 'X' => return (d.unsignedInt 16 ['0', 'x'] (← int h args n)).map Char.toUpper
  | 'c' => return d.fill false [] [Char.ofNat ((← int h args n).toUInt64.toNat % 256)]
  | 'a' | 'A' | 'e' | 'E' | 'f' | 'F' | 'g' | 'G' => return d.floatText (← float h args n)
  | 's' => return d.text (shownAs (get args n))
  | 'q' =>
    match literal? (get args n) with
    | some cs => return cs
    | none => throw (.argument n "value has no literal form")
  | _ => throw (.fault ("invalid conversion '%" ++ d.kind.toString ++ "' to 'format'"))

/-- Reads on in a format; `n` arguments are used up. -/
def expand (shownAs : Value → List Char) (h : Heap) (args : List Value) :
    Nat → Nat → List Char → Check (List Char)
  | 0, _, _ => return []
  | _ + 1, _, [] => return []
  | fuel + 1, n, '%' :: '%' :: rest => return '%' :: (← expand shownAs h args fuel n rest)
  | fuel + 1, n, '%' :: rest =>
    match Directive.read? rest with
    | none =>
      if isGiven args (n + 1) then
        throw (.fault ("invalid conversion '" ++ String.ofList (Directive.shown rest) ++
          "' to 'format'"))
      else throw (.argument (n + 1) "no value")
    | some (d, rest) => do
      let piece ← d.apply shownAs h args (n + 1)
      return piece ++ (← expand shownAs h args fuel (n + 1) rest)
  | fuel + 1, n, c :: rest => return c :: (← expand shownAs h args fuel n rest)

/-- The format in the first argument with the others in place of its directives. -/
def run (shownAs : Value → List Char) (h : Heap) (args : List Value) : Check (List Char) := do
  let format := charsOf (← str h args 1)
  expand shownAs h args (format.length + 1) 1 format

end LiveModules.Script.Format
