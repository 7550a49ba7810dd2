import LiveModules.Game.Item

/-!
# Spawn rules

A rule puts an item into a room again and again. Rules are kept by room and item; to register one
under a key that is taken replaces it and takes its ownership. A rule is due when more than its
interval has passed since it was last found due.
-/

namespace LiveModules

structure SpawnKey where
  room : String
  item : String
  deriving DecidableEq, Repr

namespace SpawnKey

/-- By room, then by item. -/
instance : Ord SpawnKey := ⟨compareLex (compareOn room) (compareOn item)⟩

instance : Std.TransOrd SpawnKey :=
  inferInstanceAs (Std.TransCmp (compareLex (compareOn room) (compareOn item)))

instance : Std.LawfulEqOrd SpawnKey where
  eq_of_compare {a b} h := by
    have h : compareLex (compareOn room) (compareOn item) a b = .eq := h
    rw [compareLex_eq_eq] at h
    obtain ⟨r, i⟩ := a
    obtain ⟨r', i'⟩ := b
    have h1 : r = r' := Std.LawfulEqOrd.eq_of_compare h.1
    have h2 : i = i' := Std.LawfulEqOrd.eq_of_compare h.2
    rw [h1, h2]

end SpawnKey

/-- A rule over times of type `τ`, owned by one of `ω`. -/
structure SpawnRule (τ ω : Type) where
  key : SpawnKey
  template : Item
  respawnSecs : τ
  lastSpawn : τ
  owner : ω

structure SpawnTable (τ ω : Type) where
  rules : Table SpawnKey (SpawnRule τ ω)

/-- The interval of a rule whose template gives none. -/
def defaultRespawnSecs : Float := 10

namespace SpawnTable

variable {τ ω : Type}

def empty : SpawnTable τ ω := ⟨∅⟩

def size (t : SpawnTable τ ω) : Nat := t.rules.size

/-- Registers a rule, which counts as last found due at time zero. -/
def register [OfNat τ 0] (t : SpawnTable τ ω) (owner : ω) (room : String) (template : Item)
    (respawnSecs : τ) : SpawnTable τ ω :=
  let key : SpawnKey := ⟨room, template.name⟩
  ⟨t.rules.insert key ⟨key, template, respawnSecs, 0, owner⟩⟩

variable [DecidableEq ω]

/-- Drops every rule of `owner`. -/
def release (t : SpawnTable τ ω) (owner : ω) : SpawnTable τ ω :=
  ⟨t.rules.filter fun _ r => r.owner ≠ owner⟩

variable [Sub τ] [LT τ] [DecidableLT τ]

/-- Whether a rule belongs to `owner` and its interval has passed. -/
def isDue (owner : ω) (now : τ) (r : SpawnRule τ ω) : Bool :=
  r.owner = owner ∧ r.respawnSecs < now - r.lastSpawn

/-- The rules of `owner` that are due, by room and item. -/
def due (t : SpawnTable τ ω) (owner : ω) (now : τ) : List (SpawnRule τ ω) :=
  t.rules.values.filter (isDue owner now)

/-- Notes on every rule that is due that it was found so. -/
def stamp (t : SpawnTable τ ω) (owner : ω) (now : τ) : SpawnTable τ ω :=
  ⟨t.rules.mapValues fun _ r => if isDue owner now r then { r with lastSpawn := now } else r⟩

end SpawnTable

end LiveModules
