import LiveModules.Script.Library.Format
import LiveModules.Text.Utf8

/-!
# Functions on strings
-/

namespace LiveModules.Script.Library

open Arguments

/-- An index as a place counted from 1; negative ones count from the end. -/
def startPlace (size : Nat) (i : Int) : Nat :=
  if 0 < i then i.toNat
  else if i = 0 then 1
  else if i < -size then 1
  else (size + i + 1).toNat

/-- The place up to which an index reaches. -/
def endPlace (size : Nat) (i : Int) : Nat :=
  if size < i then size
  else if 0 ≤ i then i.toNat
  else if i < -size then 0
  else (size + i + 1).toNat

def slice (s : ByteArray) (first last : Nat) : ByteArray :=
  if last < first then .empty else s.extract (first - 1) last

def stringByte (h : Heap) (args : List Value) : Answered := do
  let s ← str h args 1
  let i ← intOr h args 2 1
  let first := startPlace s.size i.toInt
  let j ← intOr h args 3 (Int64.ofNat first)
  return ((slice s first (endPlace s.size j.toInt)).toList.map fun b => .nat b.toNat, id)

/-- The numbers in the arguments from place `n` on. -/
def codes (h : Heap) (args : List Value) (limit : Nat) : Nat → Nat → Check (List Nat)
  | 0, _ => return []
  | count + 1, n => do
    let i ← int h args n
    require (0 ≤ i && i.toInt ≤ limit) n "value out of range"
    return i.toInt.toNat :: (← codes h args limit count (n + 1))

def stringChar (h : Heap) (args : List Value) : Answered := do
  single (.str ⟨((← codes h args 255 args.length 1).map Nat.toUInt8).toArray⟩)

def stringLen (h : Heap) (args : List Value) : Answered := do
  single (.nat (← str h args 1).size)

/-- A function that changes every byte for itself. -/
def mapBytes (f : Char → Char) (h : Heap) (args : List Value) : Answered := do
  single (.str (bytesOf ((charsOf (← str h args 1)).map f)))

def stringReverse (h : Heap) (args : List Value) : Answered := do
  single (.str ⟨(← str h args 1).data.reverse⟩)

def stringSub (h : Heap) (args : List Value) : Answered := do
  let s ← str h args 1
  let i ← int h args 2
  let j ← intOr h args 3 (-1)
  single (.str (slice s (startPlace s.size i.toInt) (endPlace s.size j.toInt)))

/-- The longest string that is made by repetition. -/
def sizeLimit : Nat := Nat.pow 2 32

def stringRep (h : Heap) (args : List Value) : Answered := do
  let s ← str h args 1
  let n := (← int h args 2).toInt.toNat
  let sep ← strOr h args 3 .empty
  if n = 0 then return ← single (.str .empty)
  if sizeLimit < (s.size + sep.size) * n then throw (.fault "resulting string too large")
  single (.str ((List.replicate (n - 1) ()).foldl (fun acc _ => acc ++ sep ++ s) s))

/-! ## UTF-8 -/

def utf8Char (h : Heap) (args : List Value) : Answered := do
  let points ← codes h args 0x7FFFFFFF args.length 1
  single (.str ⟨(points.flatMap encodePoint).toArray⟩)

/-- The place that an index means, 0 if it is before the start. -/
def pointPlace (size : Nat) (i : Int) : Int :=
  if 0 ≤ i then i else if i < -size then 0 else size + i + 1

/-- Walks over the characters that begin up to place `last`: those met, latest first, and whether a
byte stopped the walk, with its place. -/
def walkPoints : Nat → List Nat → Nat → Nat → List UInt8 → List Nat × Option Nat
  | 0, seen, _, _, _ => (seen, none)
  | fuel + 1, seen, place, last, bytes =>
    if last < place then (seen, none)
    else match Text.Utf8.head bytes with
      | .character c rest =>
        walkPoints fuel (c.toNat :: seen) (place + c.utf8Size) last rest
      | .finished => (seen, none)
      | .fault _ => (seen, some place)

def utf8Len (h : Heap) (args : List Value) : Answered := do
  let s ← str h args 1
  let first := pointPlace s.size (← intOr h args 2 1).toInt
  let last := pointPlace s.size (← intOr h args 3 (-1)).toInt
  require (1 ≤ first && first ≤ s.size + 1) 2 "initial position out of bounds"
  require (last ≤ s.size) 3 "final position out of bounds"
  let first := first.toNat
  match walkPoints (s.size + 1) [] first last.toNat (s.toList.drop (first - 1)) with
  | (seen, none) => single (.nat seen.length)
  | (_, some place) => return ([.nil, .nat place], id)

def utf8Codepoint (h : Heap) (args : List Value) : Answered := do
  let s ← str h args 1
  let first := pointPlace s.size (← intOr h args 2 1).toInt
  let last := pointPlace s.size (← intOr h args 3 (Int64.ofInt first)).toInt
  require (1 ≤ first) 2 "out of bounds"
  require (last ≤ s.size) 3 "out of bounds"
  let first := first.toNat
  match walkPoints (s.size + 1) [] first last.toNat (s.toList.drop (first - 1)) with
  | (seen, none) => return (seen.reverse.map .nat, id)
  | (_, some _) => throw (.fault "invalid UTF-8 code")

end LiveModules.Script.Library
