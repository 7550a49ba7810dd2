/-!
# UTF-8

Reading text from bytes. A fault says how many bytes before it are well-formed and how many bytes
the malformed sequence has, or that the bytes end inside a sequence.
-/

namespace LiveModules.Text

namespace Utf8

structure Fault where
  validUpTo : Nat
  /-- Absent when the bytes end inside a sequence. -/
  badLength : Option Nat
  deriving DecidableEq, Repr

def Fault.message (f : Fault) : String :=
  match f.badLength with
  | some n => s!"invalid utf-8 sequence of {n} bytes from index {f.validUpTo}"
  | none => s!"incomplete utf-8 byte sequence from index {f.validUpTo}"

/-- A byte that continues a sequence. -/
def isTail (b : UInt8) : Bool := 0x80 ≤ b && b ≤ 0xBF

/-- How many bytes a sequence with this first byte has; 0 if none starts with it. -/
def width (b : UInt8) : Nat :=
  if b ≤ 0x7F then 1
  else if 0xC2 ≤ b && b ≤ 0xDF then 2
  else if 0xE0 ≤ b && b ≤ 0xEF then 3
  else if 0xF0 ≤ b && b ≤ 0xF4 then 4
  else 0

/-- Whether `b` may follow the first byte `a`: this rules out long forms, surrogates and all above
U+10FFFF. -/
def isSecond (a b : UInt8) : Bool :=
  if a = 0xE0 then 0xA0 ≤ b && b ≤ 0xBF
  else if a = 0xED then 0x80 ≤ b && b ≤ 0x9F
  else if a = 0xF0 then 0x90 ≤ b && b ≤ 0xBF
  else if a = 0xF4 then 0x80 ≤ b && b ≤ 0x8F
  else isTail b

def payload (b : UInt8) : Nat := b.toNat % 64

/-- What stands at the head of the bytes. -/
inductive Head where
  | finished
  | character (c : Char) (rest : List UInt8)
  | fault (badLength : Option Nat)

/-- The first character of the bytes, or what is wrong there. -/
def head : List UInt8 → Head
  | [] => .finished
  | a :: rest =>
    match width a, rest with
    | 0, _ => .fault (some 1)
    | 1, _ => .character (Char.ofNat a.toNat) rest
    | _, [] => .fault none
    | 2, b :: rest =>
      if !isSecond a b then .fault (some 1)
      else .character (Char.ofNat (a.toNat % 32 * 64 + payload b)) rest
    | 3, b :: rest =>
      if !isSecond a b then .fault (some 1)
      else match rest with
        | [] => .fault none
        | c :: rest =>
          if !isTail c then .fault (some 2)
          else .character
            (Char.ofNat (a.toNat % 16 * 4096 + payload b * 64 + payload c)) rest
    | _, b :: rest =>
      if !isSecond a b then .fault (some 1)
      else match rest with
        | [] => .fault none
        | c :: rest =>
          if !isTail c then .fault (some 2)
          else match rest with
            | [] => .fault none
            | d :: rest =>
              if !isTail d then .fault (some 3)
              else .character (Char.ofNat
                (a.toNat % 8 * 262144 + payload b * 4096 + payload c * 64 + payload d)) rest

theorem length_of_head {bytes rest : List UInt8} {c : Char}
    (h : head bytes = .character c rest) : rest.length < bytes.length := by
  unfold head at h
  split at h
  · simp at h
  · split at h
    · simp at h
    · simp only [Head.character.injEq] at h
      simp [← h.2]
    · simp at h
    · split at h
      · simp at h
      · simp only [Head.character.injEq] at h
        simp only [← h.2, List.length_cons]; omega
    · split at h
      · simp at h
      · split at h
        · simp at h
        · split at h
          · simp at h
          · simp only [Head.character.injEq] at h
            simp only [← h.2, List.length_cons]; omega
    · split at h
      · simp at h
      · split at h
        · simp at h
        · split at h
          · simp at h
          · split at h
            · simp at h
            · split at h
              · simp at h
              · simp only [Head.character.injEq] at h
                simp only [← h.2, List.length_cons]; omega

/-- Reads on from byte `index`; `seen` holds the characters before it, latest first. -/
def decodeFrom (index : Nat) (seen : List Char) (bytes : List UInt8) : Except Fault (List Char) :=
  match _h : head bytes with
  | .finished => .ok seen.reverse
  | .fault n => .error ⟨index, n⟩
  | .character c rest => decodeFrom (index + c.utf8Size) (c :: seen) rest
termination_by bytes.length
decreasing_by exact length_of_head _h

/-- Reads on, putting U+FFFD for each malformed sequence. -/
def lossyFrom (seen : List Char) (bytes : List UInt8) : List Char :=
  match _h : head bytes with
  | .finished => seen.reverse
  | .character c rest => lossyFrom (c :: seen) rest
  | .fault none => ('\uFFFD' :: seen).reverse
  | .fault (some n) => lossyFrom ('\uFFFD' :: seen) (bytes.drop (max n 1))
termination_by bytes.length
decreasing_by
  · exact length_of_head _h
  · cases bytes with
    | nil => simp [head] at _h
    | cons b rest => simp only [List.length_drop, List.length_cons]; omega

end Utf8

/-- The text that the bytes spell. -/
def ofUtf8 (bytes : ByteArray) : Except Utf8.Fault String :=
  (Utf8.decodeFrom 0 [] bytes.toList).map String.ofList

/-- The text that the bytes spell, with U+FFFD for what is malformed. -/
def ofUtf8Lossy (bytes : ByteArray) : String :=
  String.ofList (Utf8.lossyFrom [] bytes.toList)

end LiveModules.Text
