import LiveModules.Json.Decode

/-!
# Items and rooms

An item has a name and properties, none of which is called `name`. A room is made from what its
module says of it and then holds items.
-/

namespace LiveModules

structure Item where
  name : String
  properties : Members

namespace Item

/-- The name wins over a property called `name`. -/
def ofProperties (name : String) (properties : Members) : Item :=
  ⟨name, Assoc.erase "name" properties⟩

def form : Json.Form := ⟨"struct Item", [.of "name" (Json.readText "a string") true]⟩

def read (d : Json.Draft) : Except Json.Fault Item := do
  let (fields, properties) ← form.readFlattened d
  let name ← Json.fieldOr fields "name" (Json.readText "a string") (.error (.missingField "name"))
  return ⟨name, properties⟩

/-- The members of the written form: the name, then the properties. -/
def members (i : Item) : Members := ("name", .string i.name) :: i.properties

/-- The item as one value. -/
def toJson (i : Item) : Json := .ofMembers i.members

end Item

/-- What a module says of a room. -/
structure RoomSpec where
  description : String
  exits : Table String String
  properties : Members

namespace RoomSpec

def form : Json.Form :=
  ⟨"struct RoomSpec", [.of "description" (Json.readText "a string") false,
    .of "exits" Json.readTextMap false]⟩

def read (d : Json.Draft) : Except Json.Fault RoomSpec := do
  let (fields, properties) ← form.readFlattened d
  let description ← Json.fieldOr fields "description" (Json.readText "a string") (.ok "")
  let exits ← Json.fieldOr fields "exits" Json.readTextMap (.ok ∅)
  return ⟨description, exits, properties⟩

def exitMembers (exits : Table String String) : Members :=
  exits.entries.map fun e => (e.1, .string e.2)

def members (s : RoomSpec) : Members :=
  ("description", .string s.description) :: ("exits", .object (exitMembers s.exits)) ::
    s.properties

end RoomSpec

structure Room where
  id : String
  description : String
  exits : Table String String
  properties : Members
  items : List Item

namespace Room

def ofSpec (id : String) (spec : RoomSpec) : Room :=
  ⟨id, spec.description, spec.exits, spec.properties, []⟩

def getItem? (r : Room) (name : String) : Option Item := r.items.find? (·.name == name)

def addItem (r : Room) (i : Item) : Room := { r with items := r.items ++ [i] }

/-- Takes the first item of that name out of the room. -/
def takeItem (r : Room) (name : String) : Room :=
  { r with items := r.items.eraseP (·.name == name) }

end Room

end LiveModules
