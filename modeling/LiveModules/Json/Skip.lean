import LiveModules.Json.Scan

/-!
# Passing over JSON text

A member nobody asked for is passed over without being read: its strings may hold lone surrogates,
its numbers may be out of range and it may nest without limit, but its brackets, commas and colons
must be right.
-/

namespace LiveModules.Json

def skipDigits (cs : List Char) : Except Fault (List Char) :=
  if cs.head?.any isDigit then .ok (cs.dropWhile isDigit) else .error .invalidNumber

def skipScale (cs : List Char) : Except Fault (List Char) :=
  match cs with
  | 'e' :: '+' :: rest => skipDigits rest
  | 'e' :: '-' :: rest => skipDigits rest
  | 'e' :: rest => skipDigits rest
  | 'E' :: '+' :: rest => skipDigits rest
  | 'E' :: '-' :: rest => skipDigits rest
  | 'E' :: rest => skipDigits rest
  | _ => .ok cs

/-- Passes a number from its first digit. -/
def skipNumber (cs : List Char) : Except Fault (List Char) := do
  match cs with
  | '0' :: c :: _ => if isDigit c then throw .invalidNumber
  | _ => pure ()
  match ← skipDigits cs with
  | '.' :: rest => skipScale (← skipDigits rest)
  | rest => skipScale rest

/-- Passes a string from behind its opening quote; each character takes one unit of fuel. -/
def skipChars : Nat → List Char → Except Fault (List Char)
  | 0, _ => .error .endInString
  | fuel + 1, cs =>
    match cs with
    | [] => .error .endInString
    | '"' :: rest => .ok rest
    | '\\' :: 'u' :: rest =>
      match readHex rest with
      | .error f => .error f
      | .ok (_, rest) => skipChars fuel rest
    | '\\' :: rest =>
      match readEscape rest with
      | .error f => .error f
      | .ok (_, rest) => skipChars fuel rest
    | c :: rest => if c.toNat < 32 then .error .controlCharacter else skipChars fuel rest

def skipString (cs : List Char) : Except Fault (List Char) := skipChars (cs.length + 1) cs

/-- A list or an object that is open. -/
inductive Open where
  | list
  | object

def Open.close : Open → Char
  | .list => ']'
  | .object => '\x7d'

/-- Passes a scalar; an opening bracket is left for the caller. -/
def skipScalar (cs : List Char) : Except Fault (List Char) :=
  match cs with
  | 'n' :: rest => readWord "ull".toList rest
  | 't' :: rest => readWord "rue".toList rest
  | 'f' :: rest => readWord "alse".toList rest
  | '"' :: rest => skipString rest
  | '-' :: rest => skipNumber rest
  | c :: _ => if isDigit c then skipNumber cs else .error .expectedValue
  | [] => .error .endInValue

/-- Passes the key and the colon in front of a member's value. -/
def skipKey (cs : List Char) : Except Fault (List Char) :=
  match skipBlank cs with
  | [] => .error .endInObject
  | '"' :: rest =>
    match skipString rest with
    | .error f => .error f
    | .ok rest =>
      match skipBlank rest with
      | [] => .error .endInObject
      | ':' :: rest => .ok rest
      | _ => .error .expectedColon
  | _ => .error .keyNotString

mutual

/-- Passes a value inside the brackets that are `opened`, innermost first, and all that closes
them. -/
def skipIn : Nat → List Open → List Char → Except Fault (List Char)
  | 0, _, _ => .error .endInValue
  | fuel + 1, opened, cs =>
    match skipBlank cs with
    | [] => .error .endInValue
    | '[' :: rest => skipEnd fuel false (.list :: opened) rest
    | '\x7b' :: rest => skipEnd fuel false (.object :: opened) rest
    | cs =>
      match skipScalar cs with
      | .error f => .error f
      | .ok rest => skipEnd fuel true opened rest

/-- Goes on after an opening bracket, or after a value: then a comma may stand. -/
def skipEnd : Nat → Bool → List Open → List Char → Except Fault (List Char)
  | _, _, [], cs => .ok cs
  | 0, _, _, _ => .error .endInValue
  | fuel + 1, afterValue, o :: opened, cs =>
    match skipBlank cs with
    | [] => .error (match o with | .list => .endInList | .object => .endInObject)
    | c :: rest =>
      if afterValue && c = ',' then skipMember fuel o opened rest
      else if c = o.close then skipEnd fuel true opened rest
      else if afterValue then
        .error (match o with | .list => .expectedListEnd | .object => .expectedObjectEnd)
      else skipMember fuel o opened (c :: rest)

/-- Passes the next value of the innermost bracket, with its key. -/
def skipMember : Nat → Open → List Open → List Char → Except Fault (List Char)
  | 0, _, _, _ => .error .endInValue
  | fuel + 1, o, opened, cs =>
    match o with
    | .list => skipIn fuel (.list :: opened) cs
    | .object =>
      match skipKey cs with
      | .error f => .error f
      | .ok rest => skipIn fuel (.object :: opened) rest

end

/-- Passes one value. -/
def skipValue (cs : List Char) : Except Fault (List Char) := skipIn (3 * cs.length + 3) [] cs

end LiveModules.Json
