import LiveModules.Json.Value
import LiveModules.Json.Fault

/-!
# Reading JSON scalars

Numbers, strings and the three words, each from the text behind its first character. What is read
comes with the text that follows it.
-/

namespace LiveModules.Json

def isJsonBlank (c : Char) : Bool := c = ' ' || c = '\n' || c = '\t' || c = '\r'

def skipBlank (cs : List Char) : List Char := cs.dropWhile isJsonBlank

def isDigit (c : Char) : Bool := '0' ≤ c && c ≤ '9'

def digitValue (c : Char) : Nat := c.toNat - '0'.toNat

/-! ## Numbers

A number that is written as an integer and fits 64 bits stays one. Any other is the float of as
many leading digits as fit 64 bits, times or divided by a power of ten. -/

def largestUnsigned : Nat := Nat.pow 2 64 - 1

/-- Takes digits into `n` as long as it fits 64 bits; what is left starts with the digit that does
not. -/
def takeDigits (n : Nat) : List Char → Nat × List Char
  | [] => (n, [])
  | c :: rest =>
    if n * 10 + digitValue c ≤ largestUnsigned then takeDigits (n * 10 + digitValue c) rest
    else (n, c :: rest)

def powerOfTen (n : Nat) : Float := Float.ofScientific 1 false n

/-- Times ten to the power `e`, in steps of at most 308; `none` if the result is not finite. -/
def scale : Nat → Float → Int → Option Float
  | 0, x, _ => some x
  | fuel + 1, x, e =>
    if e.natAbs ≤ 308 then
      if 0 ≤ e then
        let y := x * powerOfTen e.natAbs
        if y.isFinite then some y else none
      else some (x / powerOfTen e.natAbs)
    else if x == 0.0 then some x
    else if 0 ≤ e then none
    else scale fuel (x / powerOfTen 308) (e + 308)

def signed (negative : Bool) (x : Float) : Float := if negative then -x else x

def floatOfParts (negative : Bool) (n : Nat) (e : Int) : Except Fault Number :=
  match scale 8 (Float.ofNat n) e with
  | some x => .ok (.float (signed negative x))
  | none => .error .numberOutOfRange

/-- The largest exponent that is told apart from all greater ones. -/
def largestExponent : Nat := Nat.pow 2 31 - 1

/-- Reads from behind the letter of an exponent; `n` and `e` are the number so far. -/
def readExponent (negative : Bool) (n : Nat) (e : Int) (cs : List Char) :
    Except Fault (Number × List Char) := do
  let (down, cs) :=
    match cs with
    | '+' :: rest => (false, rest)
    | '-' :: rest => (true, rest)
    | _ => (false, cs)
  match cs with
  | [] => throw .endInValue
  | c :: _ =>
    if !isDigit c then throw .invalidNumber
    let size := (cs.takeWhile isDigit).foldl (fun k d => k * 10 + digitValue d) 0
    let rest := cs.dropWhile isDigit
    if largestExponent < size then
      if n ≠ 0 && !down then throw .numberOutOfRange
      return (.float (signed negative 0.0), rest)
    let x ← floatOfParts negative n (if down then e - size else e + size)
    return (x, rest)

/-- Reads an exponent, if one follows. -/
def readScale (negative : Bool) (n : Nat) (e : Int) (cs : List Char) :
    Except Fault (Number × List Char) :=
  match cs with
  | 'e' :: rest => readExponent negative n e rest
  | 'E' :: rest => readExponent negative n e rest
  | _ => (floatOfParts negative n e).map (·, cs)

/-- Reads from behind the point. -/
def readFraction (negative : Bool) (n : Nat) (e : Int) (cs : List Char) :
    Except Fault (Number × List Char) :=
  let ds := cs.takeWhile isDigit
  let rest := cs.dropWhile isDigit
  if ds.isEmpty then
    .error (if rest.isEmpty then .endInValue else .invalidNumber)
  else
    let (n, left) := takeDigits n ds
    readScale negative n (e - (ds.length - left.length : Nat)) rest

/-- Reads a number from its first digit. -/
def readNumber (negative : Bool) (cs : List Char) : Except Fault (Number × List Char) :=
  match cs with
  | [] => .error .endInValue
  | c :: next =>
    if !isDigit c then .error .invalidNumber
    else if c = '0' && (next.head?.any isDigit) then .error .invalidNumber
    else
      let (n, left) := takeDigits 0 (cs.takeWhile isDigit)
      let rest := cs.dropWhile isDigit
      match rest with
      | '.' :: rest => readFraction negative n left.length rest
      | 'e' :: rest => readExponent negative n left.length rest
      | 'E' :: rest => readExponent negative n left.length rest
      | _ =>
        if !left.isEmpty then (floatOfParts negative n left.length).map (·, rest)
        else if !negative then .ok (.int n, rest)
        else if n = 0 || Nat.pow 2 63 < n then .ok (.float (-Float.ofNat n), rest)
        else .ok (.int (-n), rest)

/-! ## Words -/

/-- Reads the rest of a word letter by letter. -/
def readWord : List Char → List Char → Except Fault (List Char)
  | [], cs => .ok cs
  | _ :: _, [] => .error .endInValue
  | w :: word, c :: cs => if c = w then readWord word cs else .error .expectedIdent

/-! ## Strings -/

def hexValue? (c : Char) : Option Nat :=
  if isDigit c then some (digitValue c)
  else if 'a' ≤ c && c ≤ 'f' then some (c.toNat - 87)
  else if 'A' ≤ c && c ≤ 'F' then some (c.toNat - 55)
  else none

/-- The number that four hex digits at the head of the text spell. -/
def readHex (cs : List Char) : Except Fault (Nat × List Char) :=
  if (cs.take 4).foldl (fun n c => n + c.utf8Size) 0 < 4 then .error .endInString
  else match cs with
    | a :: b :: c :: d :: rest =>
      match hexValue? a, hexValue? b, hexValue? c, hexValue? d with
      | some a, some b, some c, some d => .ok (a * 4096 + b * 256 + c * 16 + d, rest)
      | _, _, _, _ => .error .invalidEscape
    | _ => .error .invalidEscape

/-- The second half of a pair of surrogates, from behind the first. -/
def readLowSurrogate (high : Nat) (cs : List Char) : Except Fault (Char × List Char) :=
  match cs with
  | [] => .error .endInString
  | '\\' :: [] => .error .endInString
  | '\\' :: 'u' :: rest =>
    match readHex rest with
    | .error f => .error f
    | .ok (low, rest) =>
      if low < 0xDC00 || 0xDFFF < low then .error .loneSurrogate
      else .ok (Char.ofNat ((high - 0xD800) * 1024 + (low - 0xDC00) + 0x10000), rest)
  | _ => .error .hexEscapeCut

/-- The character of an escape, from behind its backslash. -/
def readEscape (cs : List Char) : Except Fault (Char × List Char) :=
  match cs with
  | [] => .error .endInString
  | '"' :: rest => .ok ('"', rest)
  | '\\' :: rest => .ok ('\\', rest)
  | '/' :: rest => .ok ('/', rest)
  | 'b' :: rest => .ok ('\x08', rest)
  | 'f' :: rest => .ok ('\x0c', rest)
  | 'n' :: rest => .ok ('\n', rest)
  | 'r' :: rest => .ok ('\r', rest)
  | 't' :: rest => .ok ('\t', rest)
  | 'u' :: rest =>
    match readHex rest with
    | .error f => .error f
    | .ok (n, rest) =>
      if 0xDC00 ≤ n && n ≤ 0xDFFF then .error .loneSurrogate
      else if 0xD800 ≤ n && n ≤ 0xDBFF then readLowSurrogate n rest
      else .ok (Char.ofNat n, rest)
  | _ => .error .invalidEscape

/-- Reads a string from behind its opening quote; each character takes one unit of fuel. -/
def readChars : Nat → List Char → List Char → Except Fault (List Char × List Char)
  | 0, _, _ => .error .endInString
  | fuel + 1, seen, cs =>
    match cs with
    | [] => .error .endInString
    | '"' :: rest => .ok (seen.reverse, rest)
    | '\\' :: rest =>
      match readEscape rest with
      | .error f => .error f
      | .ok (c, rest) => readChars fuel (c :: seen) rest
    | c :: rest =>
      if c.toNat < 32 then .error .controlCharacter else readChars fuel (c :: seen) rest

def readString (cs : List Char) : Except Fault (String × List Char) :=
  (readChars (cs.length + 1) [] cs).map fun r => (String.ofList r.1, r.2)

end LiveModules.Json
