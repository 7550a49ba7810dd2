import LiveModules.Json.Draft
import LiveModules.Proofs.Scalars
import LiveModules.Proofs.Table

/-!
# Written values are read back

The text of a value is read as that value, whatever may stand behind a value behind it
(`ReadsBack`): scalars one by one, lists and objects from their parts. A value without floats whose
objects are in order and which is not too deep is read back wherever any value is wanted
(`Legible.readsBack`).
-/

namespace LiveModules.Json

/-- The text of `v` is read as `v`, if more than `n` brackets may be opened, and with fuel in
proportion to its length. -/
def ReadsBack (shape : Shape) (n : Nat) (v : Json) : Prop :=
  ∀ fuel depth rest, n < depth → 4 * (writeChars v).length ≤ fuel → Delimited rest →
    readDraft fuel depth shape (writeChars v ++ rest) = (Draft.ofJson v, rest)

variable {shape : Shape} {fuel depth n : Nat} {rest : List Char} {v : Json}

theorem ofItems_eq_map : ∀ items : List Json, Draft.ofItems items = items.map Draft.ofJson
  | [] => rfl
  | _ :: items => congrArg _ (ofItems_eq_map items)

theorem ofMembers_eq_map : ∀ members : Members,
    Draft.ofMembers members = members.map fun m => (m.1, Draft.ofJson m.2)
  | [] => rfl
  | _ :: members => congrArg _ (ofMembers_eq_map members)

theorem stopped_ofJson (v : Json) : (Draft.ofJson v).stopped = false := by
  cases v <;> rfl

theorem skipBlank_cons {c : Char} (h : isJsonBlank c = false) :
    skipBlank (c :: rest) = c :: rest := by
  simp [skipBlank, h]

theorem readDraft_cons {c : Char} (hc : isJsonBlank c = false) (hs : shape.admits c = true) :
    readDraft (fuel + 1) depth shape (c :: rest) = readBegun fuel depth shape c rest := by
  rw [readDraft, skipBlank_cons hc]
  dsimp only
  rw [if_pos hs]

/-! ## Scalars -/

theorem readWord_append : ∀ word : List Char, readWord word (word ++ rest) = .ok rest
  | [] => rfl
  | w :: word => by
    rw [List.cons_append, readWord, if_pos rfl]
    exact readWord_append word

theorem readLiteral_append {word : String} {d : Draft} :
    readBegun.readLiteral word d (word.toList ++ rest) = (d, rest) := by
  rw [readBegun.readLiteral, readWord_append]

theorem writeChars_null : writeChars .null = 'n' :: "ull".toList := by
  rw [writeChars]
  decide

theorem writeChars_true : writeChars (.bool true) = 't' :: "rue".toList := by
  rw [writeChars]
  decide

theorem writeChars_false : writeChars (.bool false) = 'f' :: "alse".toList := by
  rw [writeChars]
  decide

theorem writeChars_string (s : String) :
    writeChars (.string s) = '"' :: (s.toList.flatMap escape ++ ['"']) := by
  rw [writeChars, quote]

/-- What begins with `c` is read back if it is by the reading of what begins with `c`. -/
theorem readsBack_of_begun {c : Char} {cs : List Char} (hv : writeChars v = c :: cs)
    (hc : isJsonBlank c = false) (hs : shape.admits c = true)
    (h : ∀ fuel depth rest, n < depth → 4 * (cs.length + 1) ≤ fuel + 2 → Delimited rest →
      readBegun (fuel + 1) depth shape c (cs ++ rest) = (Draft.ofJson v, rest)) :
    ReadsBack shape n v := by
  intro fuel depth rest hdepth hfuel hrest
  rw [hv, List.length_cons] at hfuel
  obtain ⟨fuel, rfl⟩ : ∃ k, fuel = k + 2 := ⟨fuel - 2, by omega⟩
  rw [hv, List.cons_append, readDraft_cons hc hs]
  exact h fuel depth rest hdepth hfuel hrest

theorem readsBack_null : ReadsBack .any n .null :=
  readsBack_of_begun writeChars_null (by decide) rfl fun fuel depth rest _ _ _ => by
    rw [readBegun]
    exact readLiteral_append

theorem readsBack_bool : ∀ b : Bool, ReadsBack .any n (.bool b)
  | true => readsBack_of_begun writeChars_true (by decide) rfl fun fuel depth rest _ _ _ => by
    rw [readBegun]
    exact readLiteral_append
  | false => readsBack_of_begun writeChars_false (by decide) rfl fun fuel depth rest _ _ _ => by
    rw [readBegun]
    exact readLiteral_append

theorem readsBack_string (s : String) (hs : shape.admits '"' = true) :
    ReadsBack shape n (.string s) :=
  readsBack_of_begun (writeChars_string s) (by decide) hs fun fuel depth rest _ _ _ => by
    rw [List.append_assoc, List.singleton_append, readBegun, readString_quote]
    rfl

theorem readBegun_digit {d : Char} (h : isDigit d = true) :
    readBegun (fuel + 1) depth shape d rest = readBegun.readNumberDraft false (d :: rest) := by
  rw [readBegun]
  · rw [if_pos h]
  all_goals
    rintro rfl
    exact absurd h (by decide)

theorem not_blank_of_digit {d : Char} (h : isDigit d = true) : isJsonBlank d = false := by
  simp only [isJsonBlank, Bool.or_eq_false_iff, decide_eq_false_iff_not]
  refine ⟨⟨⟨?_, ?_⟩, ?_⟩, ?_⟩ <;> rintro rfl <;> exact absurd h (by decide)

theorem readsBack_int {i : Int} (h : Kept i) : ReadsBack .any n (.number (.int i)) := by
  have hw : writeChars (.number (.int i)) = writeNumber (.int i) := by rw [writeChars]
  rcases readNumber_writeNumber h with ⟨ds, hds, hread⟩ | ⟨d, ds, hds, hd, hread⟩
  · refine readsBack_of_begun (hw.trans hds) (by decide) rfl fun fuel depth rest _ _ hrest => ?_
    rw [readBegun, readBegun.readNumberDraft, hread rest hrest]
    rfl
  · refine readsBack_of_begun (hw.trans hds) (not_blank_of_digit hd) rfl
      fun fuel depth rest _ _ hrest => ?_
    have hread : readNumber false (d :: (ds ++ rest)) = .ok (.int i, rest) := hread rest hrest
    rw [readBegun_digit hd, readBegun.readNumberDraft, hread]
    rfl

/-! ## Lists -/

section Steps

variable {shapes : List Shape} {seen : List Draft} {c : Char} {cs : List Char}

theorem readItems_close :
    readItems (fuel + 1) depth shapes seen (']' :: rest) = (.array seen.reverse none, rest) := by
  rw [readItems, skipBlank_cons (by decide)]
  rfl

theorem readItems_first (hblank : isJsonBlank c = false) (hclose : c ≠ ']') :
    readItems (fuel + 1) depth shapes [] (c :: cs) = readItem fuel depth shapes [] (c :: cs) := by
  rw [readItems, skipBlank_cons hblank]
  split
  · rename_i h
    cases h
  · rename_i h
    exact absurd (List.cons.inj h).1 hclose
  · rename_i h
    cases h
    rfl

theorem readItems_comma (hseen : seen ≠ []) (hblank : isJsonBlank c = false) (hclose : c ≠ ']') :
    readItems (fuel + 1) depth shapes seen (',' :: c :: cs) =
      readItem fuel depth shapes seen (c :: cs) := by
  rw [readItems, skipBlank_cons (by decide)]
  split
  · rename_i h
    cases h
  · rename_i h
    exact absurd (List.cons.inj h).1 (by decide)
  rename_i h
  cases h
  rw [if_neg (by simpa using hseen), if_neg (by decide), skipBlank_cons hblank]
  split
  · rename_i h
    cases h
  · rename_i h
    exact absurd (List.cons.inj h).1 hclose
  · rfl

end Steps

/-- The value does not begin with a blank or a closing bracket. -/
def Begins (v : Json) : Prop :=
  ∃ c cs, writeChars v = c :: cs ∧ isJsonBlank c = false ∧ c ≠ ']'

/-- The text behind an item: that of the items that follow it, behind a comma. -/
def writeMoreItems : List Json → List Char
  | [] => []
  | v :: items => ',' :: writeItems (v :: items)

theorem writeItems_cons : ∀ (v : Json) (items : List Json),
    writeItems (v :: items) = writeChars v ++ writeMoreItems items
  | v, [] => by rw [writeItems, writeMoreItems, List.append_nil]
  | v, w :: items => by
    rw [writeItems, writeMoreItems]
    exact nofun

theorem Begins.items (h : Begins v) (items : List Json) (rest : List Char) :
    ∃ c cs, writeItems (v :: items) ++ rest = c :: cs ∧ isJsonBlank c = false ∧ c ≠ ']' := by
  obtain ⟨c, cs, hc, hblank, hclose⟩ := h
  refine ⟨c, cs ++ writeMoreItems items ++ rest, ?_, hblank, hclose⟩
  rw [writeItems_cons, hc, List.append_assoc, List.append_assoc, List.cons_append]

theorem writeMoreItems_delimited : ∀ items : List Json,
    Delimited (writeMoreItems items ++ ']' :: rest)
  | [] => .bracket rest
  | _ :: _ => .comma _

theorem readItem_written {items : List Json} {seen : List Draft} {fuel : Nat}
    (hv : ReadsBack .any n v) (hdepth : n < depth)
    (hfuel : 4 * (writeChars v).length ≤ fuel) :
    readItem (fuel + 1) depth [] seen (writeItems (v :: items) ++ ']' :: rest) =
      readItems fuel depth [] (Draft.ofJson v :: seen) (writeMoreItems items ++ ']' :: rest) := by
  rw [readItem, writeItems_cons, List.append_assoc]
  simp only [List.headD_nil, List.tail_nil, stopped_ofJson,
    hv fuel depth _ hdepth hfuel (writeMoreItems_delimited items)]
  rfl

/-- Behind an item the rest of a list is read. -/
theorem readItems_more : ∀ (items : List Json) (seen : List Draft) (fuel : Nat), seen ≠ [] →
    (∀ v ∈ items, ReadsBack .any n v ∧ Begins v) → n < depth →
    4 * (writeMoreItems items).length < fuel →
    readItems fuel depth [] seen (writeMoreItems items ++ ']' :: rest) =
      (.array (seen.reverse ++ items.map Draft.ofJson) none, rest)
  | [], seen, fuel + 1, _, _, _, _ => by
    rw [List.map_nil, List.append_nil]
    exact readItems_close
  | v :: items, seen, fuel, hseen, hitems, hdepth, hfuel => by
    obtain ⟨hv, hbegins⟩ := hitems v List.mem_cons_self
    rw [writeMoreItems, writeItems_cons, List.length_cons, List.length_append] at hfuel
    obtain ⟨fuel, rfl⟩ : ∃ k, fuel = k + 2 := ⟨fuel - 2, by omega⟩
    calc readItems (fuel + 2) depth [] seen (writeMoreItems (v :: items) ++ ']' :: rest)
        = readItem (fuel + 1) depth [] seen (writeItems (v :: items) ++ ']' :: rest) := by
          obtain ⟨c, cs, htext, hblank, hclose⟩ := hbegins.items items (']' :: rest)
          rw [writeMoreItems, List.cons_append, htext, readItems_comma hseen hblank hclose]
      _ = readItems fuel depth [] (Draft.ofJson v :: seen) (writeMoreItems items ++ ']' :: rest) :=
          readItem_written hv hdepth (by omega)
      _ = (.array ((Draft.ofJson v :: seen).reverse ++ items.map Draft.ofJson) none, rest) :=
          readItems_more items _ fuel (List.cons_ne_nil _ _)
            (fun w hw => hitems w (List.mem_cons_of_mem _ hw)) hdepth (by omega)
      _ = (.array (seen.reverse ++ (v :: items).map Draft.ofJson) none, rest) := by
          rw [List.reverse_cons, List.append_assoc, List.singleton_append, List.map_cons]

theorem readsBack_array {items : List Json} (h : ∀ v ∈ items, ReadsBack .any n v ∧ Begins v) :
    ReadsBack .any (n + 1) (.array items) := by
  have hw : writeChars (.array items) = '[' :: (writeItems items ++ [']']) := by rw [writeChars]
  refine readsBack_of_begun hw (by decide) rfl fun fuel depth rest hdepth hfuel _ => ?_
  rw [List.length_append, List.length_singleton] at hfuel
  rw [List.append_assoc, List.singleton_append, readBegun, if_neg (by omega), Draft.ofJson,
    ofItems_eq_map]
  obtain ⟨fuel, rfl⟩ : ∃ k, fuel = k + 1 := ⟨fuel - 1, by omega⟩
  cases items with
  | nil => exact readItems_close
  | cons v items =>
    obtain ⟨hv, hbegins⟩ := h v List.mem_cons_self
    rw [writeItems_cons, List.length_append] at hfuel
    obtain ⟨fuel, rfl⟩ : ∃ k, fuel = k + 1 := ⟨fuel - 1, by omega⟩
    calc readItems (fuel + 2) (depth - 1) [] [] (writeItems (v :: items) ++ ']' :: rest)
        = readItem (fuel + 1) (depth - 1) [] [] (writeItems (v :: items) ++ ']' :: rest) := by
          obtain ⟨c, cs, htext, hblank, hclose⟩ := hbegins.items items (']' :: rest)
          rw [htext, readItems_first hblank hclose]
      _ = readItems fuel (depth - 1) [] [Draft.ofJson v] (writeMoreItems items ++ ']' :: rest) :=
          readItem_written hv (by omega) (by omega)
      _ = (.array ([Draft.ofJson v].reverse ++ items.map Draft.ofJson) none, rest) :=
          readItems_more items _ fuel (List.cons_ne_nil _ _)
            (fun w hw => h w (List.mem_cons_of_mem _ hw)) (by omega) (by omega)

/-! ## Objects -/

/-- The text behind a member: that of the members that follow it, behind a comma. -/
def writeMoreMembers : Members → List Char
  | [] => []
  | m :: members => ',' :: writeMembers (m :: members)

theorem writeMembers_cons : ∀ (m : String × Json) (members : Members),
    writeMembers (m :: members) = '"' :: (m.1.toList.flatMap escape ++
      '"' :: ':' :: (writeChars m.2 ++ writeMoreMembers members))
  | (k, v), [] => by
    rw [writeMembers, quote, writeMoreMembers]
    simp
  | (k, v), m :: members => by
    rw [writeMembers, quote, writeMoreMembers]
    · simp
    · exact nofun

theorem writeMoreMembers_delimited : ∀ members : Members,
    Delimited (writeMoreMembers members ++ '\x7d' :: rest)
  | [] => .brace rest
  | _ :: _ => .comma _

section Steps

variable {seen : List (String × Draft)} {cs : List Char}

theorem readMembers_close :
    readMembers (fuel + 1) depth shape seen ('\x7d' :: rest) =
      (.object seen.reverse none, rest) := by
  rw [readMembers, skipBlank_cons (by decide)]
  rfl

theorem readMembers_first :
    readMembers (fuel + 1) depth shape [] ('"' :: cs) = readMember fuel depth shape [] cs := by
  rw [readMembers, skipBlank_cons (by decide)]
  rfl

theorem readMembers_comma (hseen : seen ≠ []) :
    readMembers (fuel + 1) depth shape seen (',' :: '"' :: cs) =
      readMember fuel depth shape seen cs := by
  rw [readMembers, skipBlank_cons (by decide)]
  split
  · rename_i h
    cases h
  · rename_i h
    exact absurd (List.cons.inj h).1 (by decide)
  rename_i h
  cases h
  rw [if_neg (by simpa using hseen), if_neg (by decide), skipBlank_cons (by decide)]
  rfl

end Steps

/-- A member is read back under its key, in the shape that is wanted under it. -/
def MemberReadsBack (shape : Shape) (n : Nat) (m : String × Json) : Prop :=
  ∃ inner, shape.member? m.1 = some inner ∧ ReadsBack inner n m.2

theorem readMember_written {m : String × Json} {members : Members} {seen : List (String × Draft)}
    (hm : MemberReadsBack shape n m) (hdepth : n < depth)
    (hfuel : 4 * (writeChars m.2).length ≤ fuel) :
    readMember (fuel + 1) depth shape seen (m.1.toList.flatMap escape ++ '"' :: ':' ::
        (writeChars m.2 ++ writeMoreMembers members) ++ '\x7d' :: rest) =
      readMembers fuel depth shape ((m.1, Draft.ofJson m.2) :: seen)
        (writeMoreMembers members ++ '\x7d' :: rest) := by
  obtain ⟨inner, hinner, hv⟩ := hm
  have hcolon (tail : List Char) : skipBlank (':' :: tail) = ':' :: tail :=
    skipBlank_cons (by decide)
  rw [readMember, List.append_assoc, List.cons_append, readString_quote]
  simp only [List.cons_append, List.append_assoc, hcolon, hinner, stopped_ofJson,
    hv fuel depth _ hdepth hfuel (writeMoreMembers_delimited members)]
  rfl

/-- Behind a member the rest of an object is read. -/
theorem readMembers_more : ∀ (members : Members) (seen : List (String × Draft)) (fuel : Nat),
    seen ≠ [] → (∀ m ∈ members, MemberReadsBack shape n m) → n < depth →
    4 * (writeMoreMembers members).length < fuel →
    readMembers fuel depth shape seen (writeMoreMembers members ++ '\x7d' :: rest) =
      (.object (seen.reverse ++ members.map fun m => (m.1, Draft.ofJson m.2)) none, rest)
  | [], seen, fuel + 1, _, _, _, _ => by
    rw [List.map_nil, List.append_nil]
    exact readMembers_close
  | m :: members, seen, fuel, hseen, hmembers, hdepth, hfuel => by
    rw [writeMoreMembers, writeMembers_cons] at hfuel
    simp only [List.length_cons, List.length_append] at hfuel
    obtain ⟨fuel, rfl⟩ : ∃ k, fuel = k + 2 := ⟨fuel - 2, by omega⟩
    rw [writeMoreMembers, writeMembers_cons, List.cons_append, List.cons_append,
      readMembers_comma hseen,
      readMember_written (hmembers m List.mem_cons_self) hdepth (by omega),
      readMembers_more members _ fuel (List.cons_ne_nil _ _)
        (fun m' hm => hmembers m' (List.mem_cons_of_mem _ hm)) hdepth (by omega),
      List.reverse_cons, List.append_assoc, List.singleton_append, List.map_cons]

theorem readsBack_object {members : Members} (hs : shape.admits '\x7b' = true)
    (h : ∀ m ∈ members, MemberReadsBack shape n m) :
    ReadsBack shape (n + 1) (.object members) := by
  have hw : writeChars (.object members) = '\x7b' :: (writeMembers members ++ ['\x7d']) := by
    rw [writeChars]
  refine readsBack_of_begun hw (by decide) hs fun fuel depth rest hdepth hfuel _ => ?_
  rw [List.length_append, List.length_singleton] at hfuel
  rw [List.append_assoc, List.singleton_append, readBegun, if_neg (by omega), Draft.ofJson,
    ofMembers_eq_map]
  obtain ⟨fuel, rfl⟩ : ∃ k, fuel = k + 1 := ⟨fuel - 1, by omega⟩
  cases members with
  | nil => exact readMembers_close
  | cons m members =>
    rw [writeMembers_cons] at hfuel
    simp only [List.length_cons, List.length_append] at hfuel
    obtain ⟨fuel, rfl⟩ : ∃ k, fuel = k + 1 := ⟨fuel - 1, by omega⟩
    rw [writeMembers_cons, List.cons_append, readMembers_first,
      readMember_written (h m List.mem_cons_self) (by omega) (by omega),
      readMembers_more members _ fuel (List.cons_ne_nil _ _)
        (fun m' hm => h m' (List.mem_cons_of_mem _ hm)) (by omega) (by omega)]
    rfl

/-! ## Any value -/

/-- What a text can hold just as it is: no floats, integers of 64 bits, objects in the order of
their keys, and not more than `n` brackets inside one another. -/
inductive Legible : Nat → Json → Prop where
  | null {n : Nat} : Legible n .null
  | bool {n : Nat} {b : Bool} : Legible n (.bool b)
  | int {n : Nat} {i : Int} (h : Kept i) : Legible n (.number (.int i))
  | string {n : Nat} {s : String} : Legible n (.string s)
  | array {n : Nat} {items : List Json} (h : ∀ v ∈ items, Legible n v) :
    Legible (n + 1) (.array items)
  | object {n : Nat} {members : Members} (ascending : Assoc.Ascending members)
    (h : ∀ m ∈ members, Legible n m.2) : Legible (n + 1) (.object members)

theorem Legible.begins (h : Legible n v) : Begins v := by
  cases h with
  | null => exact ⟨_, _, writeChars_null, by decide, by decide⟩
  | @bool _ b => cases b with
    | true => exact ⟨_, _, writeChars_true, by decide, by decide⟩
    | false => exact ⟨_, _, writeChars_false, by decide, by decide⟩
  | int h =>
    rcases readNumber_writeNumber h with ⟨ds, hds, -⟩ | ⟨d, ds, hds, hd, -⟩
    · exact ⟨_, _, by rw [writeChars, hds], by decide, by decide⟩
    · refine ⟨_, _, by rw [writeChars, hds], not_blank_of_digit hd, ?_⟩
      rintro rfl
      exact absurd hd (by decide)
  | string => exact ⟨_, _, writeChars_string _, by decide, by decide⟩
  | array h => exact ⟨_, _, by rw [writeChars], by decide, by decide⟩
  | object ha h => exact ⟨_, _, by rw [writeChars], by decide, by decide⟩

theorem Legible.readsBack (h : Legible n v) : ReadsBack .any n v := by
  induction h with
  | null => exact readsBack_null
  | bool => exact readsBack_bool _
  | int h => exact readsBack_int h
  | string => exact readsBack_string _ rfl
  | array h ih => exact readsBack_array fun v hv => ⟨ih v hv, (h v hv).begins⟩
  | object _ _ ih => exact readsBack_object rfl fun m hm => ⟨.any, rfl, ih m hm⟩

theorem toItems_of_forall : ∀ {items : List Json}, (∀ v ∈ items, (Draft.ofJson v).toJson = .ok v) →
    Draft.toItems (items.map Draft.ofJson) = .ok items
  | [], _ => rfl
  | v :: items, h => by
    rw [List.map_cons, Draft.toItems, h v List.mem_cons_self,
      toItems_of_forall fun w hw => h w (List.mem_cons_of_mem _ hw)]
    rfl

theorem toMembers_of_forall : ∀ {members : Members},
    (∀ m ∈ members, (Draft.ofJson m.2).toJson = .ok m.2) →
    Draft.toMembers (members.map fun m => (m.1, Draft.ofJson m.2)) = .ok members
  | [], _ => rfl
  | m :: members, h => by
    rw [List.map_cons, Draft.toMembers, h m List.mem_cons_self,
      toMembers_of_forall fun w hw => h w (List.mem_cons_of_mem _ hw)]
    rfl

theorem Legible.toJson (h : Legible n v) : (Draft.ofJson v).toJson = .ok v := by
  induction h with
  | null => rfl
  | bool => rfl
  | int => rfl
  | string => rfl
  | array _ ih =>
    rw [Draft.ofJson, Draft.toJson, ofItems_eq_map, toItems_of_forall ih]
    rfl
  | object ha _ ih =>
    rw [Draft.ofJson, Draft.toJson, ofMembers_eq_map, toMembers_of_forall ih]
    exact congrArg (fun ms => Except.ok (Json.object ms)) (Assoc.ofList_of_ascending ha)

/-- A whole text is read back. -/
theorem ofText_write (h : ReadsBack shape n v) (hn : n < depthLimit) :
    Draft.ofText shape (write v) = (Draft.ofJson v, none) := by
  have hread := h (4 * (writeChars v).length + 4) depthLimit [] hn (Nat.le_add_right _ 4) .finished
  rw [List.append_nil] at hread
  rw [Draft.ofText, write, String.toList_ofList]
  simp only [hread]
  rfl

end LiveModules.Json
