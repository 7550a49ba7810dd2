/-!
# Tables

Finite maps kept as lists in ascending key order. A table has one representation, so two tables
that answer every look-up alike are equal, and a listing of a table is always in key order.
-/

namespace LiveModules

/-! ## Look-up, insertion and removal on lists in ascending key order -/

namespace Assoc

variable {κ : Type _} {α : Type _} [Ord κ]

def find? (k : κ) : List (κ × α) → Option α
  | [] => none
  | (k', a) :: rest => if compare k k' = .eq then some a else find? k rest

/-- Puts `a` under `k`, replacing what was there, at the place that keeps the order. -/
def insert (k : κ) (a : α) : List (κ × α) → List (κ × α)
  | [] => [(k, a)]
  | (k', a') :: rest =>
    match compare k k' with
    | .lt => (k, a) :: (k', a') :: rest
    | .eq => (k, a) :: rest
    | .gt => (k', a') :: insert k a rest

def erase (k : κ) (entries : List (κ × α)) : List (κ × α) :=
  entries.filter fun e => compare k e.1 ≠ .eq

/-- Keys are strictly ascending. -/
def Ascending (entries : List (κ × α)) : Prop :=
  entries.Pairwise fun a b => compare a.1 b.1 = .lt

/-- Inserts every entry in turn, so of two with one key the later stays. -/
def ofList (entries : List (κ × α)) : List (κ × α) :=
  entries.foldl (fun acc e => insert e.1 e.2 acc) []

theorem mem_insert {k : κ} {a : α} {entries : List (κ × α)} {e : κ × α}
    (h : e ∈ insert k a entries) : e = (k, a) ∨ e ∈ entries := by
  induction entries with
  | nil => simp_all [insert]
  | cons head rest ih =>
    obtain ⟨k', a'⟩ := head
    simp only [insert] at h
    split at h
    · simpa using h
    · rcases List.mem_cons.1 h with h | h
      · exact .inl h
      · exact .inr (List.mem_cons_of_mem _ h)
    · rcases List.mem_cons.1 h with h | h
      · exact .inr (h ▸ List.mem_cons_self ..)
      · rcases ih h with h | h
        · exact .inl h
        · exact .inr (List.mem_cons_of_mem _ h)

variable [Std.TransOrd κ] [Std.LawfulEqOrd κ]

theorem Ascending.insert (k : κ) (a : α) {entries : List (κ × α)} (h : Ascending entries) :
    Ascending (insert k a entries) := by
  induction entries with
  | nil => simp [Assoc.insert, Ascending]
  | cons head rest ih =>
    obtain ⟨k', a'⟩ := head
    have hr : Ascending rest := (List.pairwise_cons.1 h).2
    have hh := (List.pairwise_cons.1 h).1
    simp only [Assoc.insert]
    split
    · rename_i hlt
      refine List.pairwise_cons.2 ⟨fun e he => ?_, h⟩
      rcases List.mem_cons.1 he with rfl | he
      · exact hlt
      · exact Std.TransCmp.lt_trans hlt (hh e he)
    · rename_i heq
      have := Std.LawfulEqOrd.eq_of_compare heq
      subst this
      exact List.pairwise_cons.2 ⟨hh, hr⟩
    · rename_i hgt
      refine List.pairwise_cons.2 ⟨fun e he => ?_, ih hr⟩
      rcases mem_insert he with rfl | he
      · exact Std.OrientedCmp.gt_iff_lt.1 hgt
      · exact hh e he

omit [Std.TransOrd κ] [Std.LawfulEqOrd κ] in
theorem Ascending.filter (p : κ × α → Bool) {entries : List (κ × α)} (h : Ascending entries) :
    Ascending (entries.filter p) :=
  List.Pairwise.filter p h

omit [Std.TransOrd κ] [Std.LawfulEqOrd κ] in
theorem Ascending.map {β : Type _} (f : κ → α → β) {entries : List (κ × α)}
    (h : Ascending entries) : Ascending (entries.map fun e => (e.1, f e.1 e.2)) :=
  List.Pairwise.map _ (fun _ _ h => h) h

theorem Ascending.ofList (entries : List (κ × α)) : Ascending (ofList entries) := by
  unfold Assoc.ofList
  suffices ∀ acc : List (κ × α), Ascending acc →
      Ascending (entries.foldl (fun acc e => Assoc.insert e.1 e.2 acc) acc) from
    this [] .nil
  induction entries with
  | nil => exact fun _ h => h
  | cons e rest ih => exact fun acc h => ih _ (h.insert e.1 e.2)

end Assoc

/-- A finite map, listed in ascending key order. -/
structure Table (κ : Type) (α : Type _) [Ord κ] where
  entries : List (κ × α)
  ascending : Assoc.Ascending entries

namespace Table

variable {κ : Type} {α : Type _} [Ord κ]

def empty : Table κ α := ⟨[], .nil⟩

instance : EmptyCollection (Table κ α) := ⟨empty⟩

instance : Inhabited (Table κ α) := ⟨empty⟩

def find? (t : Table κ α) (k : κ) : Option α := Assoc.find? k t.entries

def contains (t : Table κ α) (k : κ) : Bool := (t.find? k).isSome

def size (t : Table κ α) : Nat := t.entries.length

def isEmpty (t : Table κ α) : Bool := t.entries.isEmpty

def keys (t : Table κ α) : List κ := t.entries.map (·.1)

def values (t : Table κ α) : List α := t.entries.map (·.2)

/-- The entries that satisfy `p`. -/
def filter (t : Table κ α) (p : κ → α → Bool) : Table κ α :=
  ⟨t.entries.filter fun e => p e.1 e.2, t.ascending.filter _⟩

def erase (t : Table κ α) (k : κ) : Table κ α :=
  ⟨Assoc.erase k t.entries, t.ascending.filter _⟩

def mapValues {β : Type _} (t : Table κ α) (f : κ → α → β) : Table κ β :=
  ⟨t.entries.map fun e => (e.1, f e.1 e.2), t.ascending.map f⟩

/-- Applies `f` to the value under `k`, if there is one. -/
def modify (t : Table κ α) (k : κ) (f : α → α) : Table κ α :=
  t.mapValues fun k' a => if compare k k' = .eq then f a else a

variable [Std.TransOrd κ] [Std.LawfulEqOrd κ]

/-- Puts `a` under `k`, replacing what was there. -/
def insert (t : Table κ α) (k : κ) (a : α) : Table κ α :=
  ⟨Assoc.insert k a t.entries, t.ascending.insert k a⟩

def ofList (entries : List (κ × α)) : Table κ α :=
  ⟨Assoc.ofList entries, .ofList entries⟩

end Table

end LiveModules
