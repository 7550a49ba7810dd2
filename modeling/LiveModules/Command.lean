import LiveModules.Text.Blank
import LiveModules.Table

/-!
# Commands

A command is bound to a verb, or to a verb and an item. A line is resolved by its first word and
what remains: the binding to the whole remainder as an item comes before the binding to the verb.
-/

namespace LiveModules

structure CommandKey where
  verb : String
  item : Option String
  deriving DecidableEq, Repr

namespace CommandKey

def display (k : CommandKey) : String :=
  match k.item with
  | some i => k.verb ++ " " ++ i
  | none => k.verb

/-- By verb, then by item, an absent item first. -/
instance : Ord CommandKey := ⟨compareLex (compareOn verb) (compareOn item)⟩

instance : Std.TransOrd CommandKey :=
  inferInstanceAs (Std.TransCmp (compareLex (compareOn verb) (compareOn item)))

instance : Std.LawfulEqOrd CommandKey where
  eq_of_compare {a b} h := by
    have h : compareLex (compareOn verb) (compareOn item) a b = .eq := h
    rw [compareLex_eq_eq] at h
    obtain ⟨v, i⟩ := a
    obtain ⟨v', i'⟩ := b
    have h1 : v = v' := Std.LawfulEqOrd.eq_of_compare h.1
    have h2 : i = i' := Std.LawfulEqOrd.eq_of_compare h.2
    rw [h1, h2]

end CommandKey

/-- A command line, cut into its first word and the rest without outer blanks. -/
structure CommandLine where
  verb : String
  rest : String
  deriving DecidableEq, Repr

namespace CommandLine

def ofText (line : String) : CommandLine :=
  let (verb, rest) := Text.splitFirstBlank (Text.trim line.toList)
  ⟨String.ofList verb, String.ofList (Text.trim rest)⟩

/-- The keys that a line may mean, the first of them that is bound being meant. -/
def candidates (line : CommandLine) : List CommandKey :=
  (if line.rest.isEmpty then [] else [⟨line.verb, some line.rest⟩]) ++ [⟨line.verb, none⟩]

/-- The command that a line means. -/
def resolve {α : Type _} (commands : Table CommandKey α) (line : CommandLine) :
    Option (CommandKey × α) :=
  line.candidates.findSome? fun k => (commands.find? k).map (k, ·)

end CommandLine

end LiveModules
