import LiveModules.Table

/-!
# JSON values

A number keeps whether it is an integer. The members of an object are in ascending key order.
-/

namespace LiveModules

/-- An integer is within the range of the signed and the unsigned 64-bit integers; a float is
finite. -/
inductive Number where
  | int (i : Int)
  | float (x : Float)

inductive Json where
  | null
  | bool (b : Bool)
  | number (n : Number)
  | string (s : String)
  | array (items : List Json)
  | object (members : List (String × Json))

/-- The members of an object. -/
abbrev Members := List (String × Json)

instance : Inhabited Json := ⟨.null⟩

namespace Json

def int (i : Int) : Json := .number (.int i)

def nat (n : Nat) : Json := .number (.int n)

/-- A float, `null` if it is not finite. -/
def float (x : Float) : Json := if x.isFinite then .number (.float x) else .null

/-- The object with these members, the later of two with one key. -/
def ofMembers (members : Members) : Json := .object (Assoc.ofList members)

/-- The member named `key` of an object. -/
def get? (v : Json) (key : String) : Option Json :=
  match v with
  | .object members => Assoc.find? key members
  | _ => none

/-- The number as a float. -/
def Number.toFloat : Number → Float
  | .int i => if i < 0 then -Float.ofNat i.natAbs else Float.ofNat i.natAbs
  | .float x => x

/-- A number as a float. -/
def asFloat? : Json → Option Float
  | .number n => some (Number.toFloat n)
  | _ => none

end Json

end LiveModules
