/-!
# Blank characters

The characters with the Unicode property White_Space, and the cutting of text at them.
-/

namespace LiveModules.Text

/-- The ranges of White_Space, both ends included. -/
def blankRanges : List (Nat × Nat) :=
  [(0x09, 0x0D), (0x20, 0x20), (0x85, 0x85), (0xA0, 0xA0), (0x1680, 0x1680), (0x2000, 0x200A),
    (0x2028, 0x2029), (0x202F, 0x202F), (0x205F, 0x205F), (0x3000, 0x3000)]

def isBlank (c : Char) : Bool :=
  blankRanges.any fun r => r.1 ≤ c.toNat && c.toNat ≤ r.2

def trimLeft (cs : List Char) : List Char := cs.dropWhile isBlank

def trimRight (cs : List Char) : List Char := (cs.reverse.dropWhile isBlank).reverse

/-- Without the blanks at both ends. -/
def trim (cs : List Char) : List Char := trimRight (trimLeft cs)

/-- Nothing but blanks. -/
def allBlank (s : String) : Bool := s.toList.all isBlank

/-- The text before the first blank, and the text after it. -/
def splitFirstBlank (cs : List Char) : List Char × List Char :=
  (cs.takeWhile fun c => !isBlank c, (cs.dropWhile fun c => !isBlank c).drop 1)

end LiveModules.Text
