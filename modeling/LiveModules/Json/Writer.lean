import LiveModules.Json.Value
import LiveModules.Decimal.Layout

/-!
# Compact JSON text

No blanks; strings escape the quote, the backslash and the control characters below U+0020 only.
-/

namespace LiveModules.Json

/-- Floats have the fewest digits that read back, positional from 1e-5 to below 1e16. -/
def floatLayout : Decimal.Layout := ⟨none, -5, 15, true, 1, "null", "null"⟩

def hexDigit (n : Nat) : Char := if n < 10 then Char.ofNat (48 + n) else Char.ofNat (87 + n)

/-- The characters that stand for `c` inside a string. -/
def escape (c : Char) : List Char :=
  if c = '"' then ['\\', '"']
  else if c = '\\' then ['\\', '\\']
  else if c = '\n' then ['\\', 'n']
  else if c = '\r' then ['\\', 'r']
  else if c = '\t' then ['\\', 't']
  else if c.toNat = 8 then ['\\', 'b']
  else if c.toNat = 12 then ['\\', 'f']
  else if c.toNat < 32 then ['\\', 'u', '0', '0', hexDigit (c.toNat / 16), hexDigit (c.toNat % 16)]
  else [c]

def quote (s : String) : List Char := '"' :: (s.toList.flatMap escape ++ ['"'])

def writeNumber : Number → List Char
  | .int i => (toString i).toList
  | .float x => (floatLayout.write x).toList

mutual

def writeChars : Json → List Char
  | .null => "null".toList
  | .bool b => if b then "true".toList else "false".toList
  | .number n => writeNumber n
  | .string s => quote s
  | .array items => '[' :: (writeItems items ++ [']'])
  | .object members => '\x7b' :: (writeMembers members ++ ['\x7d'])

def writeItems : List Json → List Char
  | [] => []
  | [v] => writeChars v
  | v :: rest => writeChars v ++ ',' :: writeItems rest

def writeMembers : List (String × Json) → List Char
  | [] => []
  | [(k, v)] => quote k ++ ':' :: writeChars v
  | (k, v) :: rest => quote k ++ ':' :: (writeChars v ++ ',' :: writeMembers rest)

end

def write (v : Json) : String := String.ofList (writeChars v)

end LiveModules.Json
