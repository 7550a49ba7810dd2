/-!
# Bytes as characters

Scripts work on bytes. Where text is taken apart, each byte stands as the character of its number.
-/

namespace LiveModules.Script

/-- Bytes are equal when they are the same in order. -/
instance decidableEqBytes : DecidableEq ByteArray := ByteArray.instDecidableEq

def charsOf (b : ByteArray) : List Char := b.toList.map fun x => Char.ofNat x.toNat

def bytesOf (cs : List Char) : ByteArray := ⟨(cs.map fun c => c.toNat.toUInt8).toArray⟩

def isSpace (c : Char) : Bool := c = ' ' || ('\t' ≤ c && c ≤ '\r')

def isDigit (c : Char) : Bool := '0' ≤ c && c ≤ '9'

def isLetter (c : Char) : Bool := ('a' ≤ c && c ≤ 'z') || ('A' ≤ c && c ≤ 'Z')

/-- Whether a name may go on with this character. -/
def isNameChar (c : Char) : Bool := isLetter c || isDigit c || c = '_'

/-- The value of a digit in any base up to 36. -/
def digitOf? (c : Char) : Option Nat :=
  if isDigit c then some (c.toNat - 48)
  else if 'a' ≤ c && c ≤ 'z' then some (c.toNat - 87)
  else if 'A' ≤ c && c ≤ 'Z' then some (c.toNat - 55)
  else none

def isHexDigit (c : Char) : Bool := (digitOf? c).any (· < 16)

def hexValue (c : Char) : Nat := (digitOf? c).getD 0

/-- The bytes of a code point below 2^31, by the pattern of UTF-8, which leaves room for them. -/
def encodePoint (n : Nat) : List UInt8 :=
  if n < 0x80 then [n.toUInt8]
  else
    let rec tail : Nat → Nat → List UInt8 → List UInt8
      | 0, _, acc => acc
      | k + 1, n, acc => tail k (n / 64) ((0x80 + n % 64).toUInt8 :: acc)
    let count :=
      if n < 0x800 then 1 else if n < 0x10000 then 2 else if n < 0x200000 then 3
      else if n < 0x4000000 then 4 else 5
    let lead := 256 - Nat.pow 2 (7 - count)
    (lead + n / Nat.pow 64 count).toUInt8 :: tail count n []

end LiveModules.Script
