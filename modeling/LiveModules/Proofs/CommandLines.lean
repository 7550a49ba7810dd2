import LiveModules.Proofs.Table
import LiveModules.Proofs.Tellings
import LiveModules.Script.Sandbox
import Mathlib.Data.List.TakeWhile

/-!
# What a command line means

A line is blanks, a verb, and, after blanks of its own, what remains up to the outer blanks
(`CommandLine.Cuts`); there is one such cut of every line, and it is the one that is made
(`CommandLine.ofText_eq_iff`). The command that the line means is called, and no other.
-/

namespace LiveModules

attribute [local irreducible] lastOf

/-! ## Blanks at the ends of a text -/

namespace Text

def Blank (cs : List Char) : Prop := ∀ c ∈ cs, isBlank c = true

instance : DecidablePred Blank := fun cs =>
  decidable_of_iff (cs.all isBlank = true) List.all_eq_true

def Solid (cs : List Char) : Prop := ∀ c ∈ cs, isBlank c = false

instance : DecidablePred Solid := fun cs =>
  decidable_of_iff (cs.all (!isBlank ·) = true)
    (by simp only [Solid, List.all_eq_true, Bool.not_eq_true'])

/-- There is no blank at either end. -/
def Trimmed (cs : List Char) : Prop :=
  (∀ c ∈ cs.head?, isBlank c = false) ∧ ∀ c ∈ cs.getLast?, isBlank c = false

instance : DecidablePred Trimmed := fun cs =>
  decidable_of_iff (cs.head?.all (!isBlank ·) = true ∧ cs.getLast?.all (!isBlank ·) = true)
    (by simp only [Trimmed, Option.all_eq_true, Bool.not_eq_true', Option.mem_def])

variable {before cs after : List Char}

theorem Solid.trimmed (h : Solid cs) : Trimmed cs :=
  ⟨fun c hc => h c (List.mem_of_mem_head? hc), fun c hc => h c (List.mem_of_mem_getLast? hc)⟩

theorem Blank.append {ds : List Char} (h : Blank cs) (h' : Blank ds) : Blank (cs ++ ds) :=
  fun c hc => (List.mem_append.1 hc).elim (h c) (h' c)

theorem Blank.reverse (h : Blank cs) : Blank cs.reverse := fun c hc => h c (List.mem_reverse.1 hc)

theorem dropWhile_blank (h : ∀ c ∈ cs.head?, isBlank c = false) : cs.dropWhile isBlank = cs := by
  cases cs with
  | nil => rfl
  | cons c cs => rw [List.dropWhile_cons_of_neg (by rw [h c rfl]; exact Bool.false_ne_true)]

theorem trimLeft_pad (hb : Blank before) (h : ∀ c ∈ cs.head?, isBlank c = false) :
    trimLeft (before ++ cs) = cs := by
  rw [trimLeft, List.dropWhile_append_of_pos hb, dropWhile_blank h]

theorem trimRight_pad (ha : Blank after) (h : ∀ c ∈ cs.getLast?, isBlank c = false) :
    trimRight (cs ++ after) = cs := by
  rw [← List.head?_reverse] at h
  rw [trimRight, List.reverse_append, List.dropWhile_append_of_pos ha.reverse, dropWhile_blank h,
    List.reverse_reverse]

theorem trim_blank (h : Blank cs) : trim cs = [] := by
  have hl : trimLeft (cs ++ []) = [] := trimLeft_pad h (by simp)
  rw [List.append_nil] at hl
  rw [trim, hl]
  rfl

theorem trim_pad (hb : Blank before) (ha : Blank after) (h : Trimmed cs) :
    trim (before ++ (cs ++ after)) = cs := by
  cases cs with
  | nil => exact trim_blank (hb.append ha)
  | cons c cs => rw [trim, trimLeft_pad hb (by simpa using h.1), trimRight_pad ha h.2]

theorem head?_dropWhile_blank : ∀ cs : List Char, ∀ c ∈ (cs.dropWhile isBlank).head?,
    isBlank c = false := by
  intro cs c hc
  have := List.head?_dropWhile_not isBlank cs
  rw [hc] at this
  simpa using this

/-- What is cut off at the left is blank. -/
theorem exists_trimLeft (cs : List Char) : ∃ before, Blank before ∧ cs = before ++ trimLeft cs :=
  ⟨cs.takeWhile isBlank, fun _ h => List.mem_takeWhile_imp h,
    (List.takeWhile_append_dropWhile).symm⟩

theorem exists_trimRight (cs : List Char) : ∃ after, Blank after ∧ cs = trimRight cs ++ after := by
  obtain ⟨before, hb, h⟩ := exists_trimLeft cs.reverse
  exact ⟨before.reverse, hb.reverse, by
    rw [← List.reverse_inj, h, List.reverse_append, trimRight, List.reverse_reverse,
      List.reverse_reverse, trimLeft]⟩

theorem trim_trimmed (cs : List Char) : Trimmed (trim cs) := by
  refine ⟨fun c hc => ?_, fun c hc => ?_⟩
  · obtain ⟨after, -, h⟩ := exists_trimRight (trimLeft cs)
    refine head?_dropWhile_blank cs c ?_
    change c ∈ (trimLeft cs).head?
    rw [h]
    exact List.mem_head?_append_of_mem_head? hc
  · rw [trim, trimRight, List.getLast?_reverse] at hc
    exact head?_dropWhile_blank _ c hc

theorem exists_trim (cs : List Char) :
    ∃ before after, Blank before ∧ Blank after ∧ cs = before ++ (trim cs ++ after) := by
  obtain ⟨before, hb, hl⟩ := exists_trimLeft cs
  obtain ⟨after, ha, hr⟩ := exists_trimRight (trimLeft cs)
  exact ⟨before, after, hb, ha, by rw [trim, ← hr, ← hl]⟩

/-- A text without blanks is all of what stands before the first one. -/
theorem splitFirstBlank_solid (h : Solid cs) : splitFirstBlank cs = (cs, []) := by
  have hp : ∀ c ∈ cs, (!isBlank c) = true := fun c hc => by rw [h c hc]; rfl
  rw [splitFirstBlank, List.takeWhile_eq_self_iff.2 hp, List.dropWhile_eq_nil_iff.2 hp]
  rfl

theorem splitFirstBlank_append (h : Solid cs) {b : Char} (hb : isBlank b = true)
    (rest : List Char) : splitFirstBlank (cs ++ b :: rest) = (cs, rest) := by
  have hp : ∀ c ∈ cs, (!isBlank c) = true := fun c hc => by rw [h c hc]; rfl
  rw [splitFirstBlank, List.takeWhile_append_of_pos hp, List.dropWhile_append_of_pos hp,
    List.takeWhile_cons_of_neg (by simp [hb]), List.dropWhile_cons_of_neg (by simp [hb]),
    List.append_nil]
  rfl

/-- At the first blank, if there is one, a text falls in two. -/
theorem exists_splitFirstBlank (cs : List Char) : ∃ gap, Blank gap ∧
    Solid (splitFirstBlank cs).1 ∧ cs = (splitFirstBlank cs).1 ++ (gap ++ (splitFirstBlank cs).2) ∧
    ((splitFirstBlank cs).2 ≠ [] → gap ≠ []) := by
  have hs : Solid (cs.takeWhile fun c => !isBlank c) := fun c hc => by
    simpa using List.mem_takeWhile_imp hc
  have hcs : cs.takeWhile (fun c => !isBlank c) ++ cs.dropWhile (fun c => !isBlank c) = cs :=
    List.takeWhile_append_dropWhile
  have hhead := List.head?_dropWhile_not (fun c => !isBlank c) cs
  simp only [splitFirstBlank]
  cases h : cs.dropWhile fun c => !isBlank c with
  | nil => exact ⟨[], by simp [Blank], hs, by simpa [h] using hcs.symm, by simp⟩
  | cons b rest =>
    rw [h] at hcs hhead
    refine ⟨[b], fun c hc => ?_, hs, by simpa using hcs.symm, by simp⟩
    rw [List.mem_singleton.1 hc]
    simpa using hhead

end Text

/-! ## The cut of a line -/

open Text

namespace CommandLine

/-- The line is what the text says, the blanks around the verb and the rest apart. -/
structure Cuts (text : String) (line : CommandLine) : Prop where
  blanks : ∃ before gap after, Blank before ∧ Blank gap ∧ Blank after ∧
    text.toList = before ++ (line.verb.toList ++ (gap ++ (line.rest.toList ++ after))) ∧
    (line.rest ≠ "" → gap ≠ [])
  verb_solid : Solid line.verb.toList
  verb_ne : line.rest ≠ "" → line.verb ≠ ""
  rest_trimmed : Trimmed line.rest.toList

theorem Cuts.ofText (text : String) : Cuts text (ofText text) := by
  obtain ⟨before, after, hb, ha, htext⟩ := exists_trim text.toList
  obtain ⟨gap, hg, hv, hcut, hgap⟩ := exists_splitFirstBlank (trim text.toList)
  obtain ⟨left, right, hl, hr, hrest⟩ := exists_trim (splitFirstBlank (trim text.toList)).2
  have htrim := trim_trimmed text.toList
  have hrt := trim_trimmed (splitFirstBlank (trim text.toList)).2
  simp only [CommandLine.ofText]
  generalize trim text.toList = t at htext hv hcut hgap hrest htrim hrt ⊢
  generalize (splitFirstBlank t).1 = verb at hv hcut ⊢
  generalize (splitFirstBlank t).2 = tail at hcut hgap hrest hrt ⊢
  generalize trim tail = rest at hrest hrt ⊢
  have hne : String.ofList rest ≠ "" → tail ≠ [] := by
    rintro h rfl
    simp_all
  refine ⟨⟨before, gap ++ left, right ++ after, hb, hg.append hl, hr.append ha, ?_, ?_⟩, ?_, ?_, ?_⟩
  · simp [htext, hcut, hrest]
  · exact fun h => List.append_ne_nil_of_left_ne_nil (hgap (hne h)) left
  · simpa using hv
  · -- a text without outer blanks does not begin with the blank that ends an empty verb
    rintro h he
    have hverb : verb = [] := by simpa using he
    obtain ⟨b, gap, rfl⟩ := List.exists_cons_of_ne_nil (hgap (hne h))
    subst hcut hverb
    exact Bool.false_ne_true ((htrim.1 b rfl).symm.trans (hg b (.head _)))
  · simpa using hrt

theorem Cuts.eq {text : String} {line : CommandLine} (h : Cuts text line) :
    CommandLine.ofText text = line := by
  obtain ⟨⟨before, gap, after, hb, hg, ha, htext, hgap⟩, hv, hvne, hr⟩ := h
  obtain ⟨verb, rest⟩ := line
  rw [CommandLine.ofText, htext]
  by_cases hrest : rest = ""
  · subst hrest
    have htrim : trim (before ++ (verb.toList ++ (gap ++ ("".toList ++ after)))) = verb.toList :=
      trim_pad hb (hg.append ha) hv.trimmed
    rw [htrim, splitFirstBlank_solid hv]
    have hnil : trim [] = [] := rfl
    simp [hnil]
  · have hvne : verb.toList ≠ [] := by simpa using hvne hrest
    have hrne : rest.toList ≠ [] := by simpa using hrest
    obtain ⟨b, gap, rfl⟩ := List.exists_cons_of_ne_nil (hgap hrest)
    -- the line is cut at `b`, and the other blanks of the gap go with the second trimming
    have hm : Trimmed (verb.toList ++ b :: (gap ++ rest.toList)) := by
      constructor
      · intro c hc
        rw [List.head?_append_of_ne_nil _ hvne] at hc
        exact hv.trimmed.1 c hc
      · intro c hc
        refine hr.2 c ?_
        rwa [List.getLast?_append_of_ne_nil _ (List.cons_ne_nil _ _), ← List.cons_append,
          List.getLast?_append_of_ne_nil _ hrne] at hc
    have htrim := trim_pad hb ha hm
    simp only [List.append_assoc, List.cons_append] at htrim ⊢
    have hg' : Blank gap := fun c hc => hg c (.tail _ hc)
    have hrt : trim (gap ++ rest.toList) = rest.toList := by
      have hpad : trim (gap ++ (rest.toList ++ [])) = rest.toList :=
        trim_pad hg' (by simp [Blank]) hr
      rwa [List.append_nil] at hpad
    rw [htrim, splitFirstBlank_append hv (hg b (.head _))]
    simp [hrt]

theorem ofText_eq_iff {text : String} {line : CommandLine} :
    CommandLine.ofText text = line ↔ Cuts text line :=
  ⟨fun h => h ▸ .ofText text, Cuts.eq⟩

/-! ## The command that a line means -/

variable {α : Type _} {commands : Table CommandKey α} {line : CommandLine} {key : CommandKey}
  {command : α}

/-- The command of a line is that of the verb with the whole rest as its item, and else that of the
verb alone. -/
inductive Means (commands : Table CommandKey α) (line : CommandLine) : CommandKey → α → Prop
  | item {a : α} : line.rest ≠ "" → commands.find? ⟨line.verb, some line.rest⟩ = some a →
      Means commands line ⟨line.verb, some line.rest⟩ a
  | verb {a : α} : (line.rest ≠ "" → commands.find? ⟨line.verb, some line.rest⟩ = none) →
      commands.find? ⟨line.verb, none⟩ = some a → Means commands line ⟨line.verb, none⟩ a

theorem resolve_verb (commands : Table CommandKey α) (verb : String) :
    (⟨verb, ""⟩ : CommandLine).resolve commands =
      (commands.find? ⟨verb, none⟩).map (⟨verb, none⟩, ·) := by
  rcases h : commands.find? ⟨verb, none⟩ with _ | a <;>
    simp [resolve, candidates, List.findSome?, h]

theorem resolve_item (commands : Table CommandKey α) (verb : String) {rest : String}
    (hr : rest ≠ "") : (⟨verb, rest⟩ : CommandLine).resolve commands =
      ((commands.find? ⟨verb, some rest⟩).map (⟨verb, some rest⟩, ·)).or
        ((commands.find? ⟨verb, none⟩).map (⟨verb, none⟩, ·)) := by
  rcases h : commands.find? ⟨verb, some rest⟩ with _ | a <;>
    rcases h' : commands.find? ⟨verb, none⟩ with _ | a' <;>
    simp [resolve, candidates, List.findSome?, hr, h, h']

theorem resolve_eq_some_iff :
    line.resolve commands = some (key, command) ↔ Means commands line key command := by
  obtain ⟨verb, rest⟩ := line
  constructor
  · intro h
    by_cases hr : rest = ""
    · subst hr
      rw [resolve_verb, Option.map_eq_some_iff] at h
      obtain ⟨a, ha, h⟩ := h
      cases h
      exact .verb (fun h => absurd rfl h) ha
    · rw [resolve_item _ _ hr] at h
      rcases hi : commands.find? ⟨verb, some rest⟩ with _ | a
      · rw [hi, Option.map_none, Option.none_or, Option.map_eq_some_iff] at h
        obtain ⟨a, ha, h⟩ := h
        cases h
        exact .verb (fun _ => hi) ha
      · rw [hi] at h
        cases h
        exact .item hr hi
  · intro h
    cases h with
    | item hr hi => rw [resolve_item _ _ hr, hi]; rfl
    | verb hi hv =>
      by_cases hr : rest = ""
      · subst hr
        rw [resolve_verb, hv]
        rfl
      · rw [resolve_item _ _ hr, hi hr, hv]
        rfl

theorem resolve_eq_none_iff :
    line.resolve commands = none ↔ ∀ key command, ¬ Means commands line key command := by
  simp only [← resolve_eq_some_iff, Option.eq_none_iff_forall_ne_some, Prod.forall, ne_eq]

theorem Means.eq {key' : CommandKey} {command' : α} (h : Means commands line key command)
    (h' : Means commands line key' command') : key = key' ∧ command = command' := by
  have he := (resolve_eq_some_iff.2 h).symm.trans (resolve_eq_some_iff.2 h')
  exact Prod.mk.inj (Option.some.inj he)

end CommandLine

/-- The verb is one word or none, and the item is neither empty nor blank at an end. -/
structure CommandKey.Wordy (key : CommandKey) : Prop where
  verb : Solid key.verb.toList
  item : ∀ item ∈ key.item, item ≠ "" ∧ Trimmed item.toList

namespace CommandLine

variable {α : Type _} {commands : Table CommandKey α} {line : CommandLine} {key : CommandKey}
  {command : α} {text : String}

theorem Means.wordy (h : Means commands line key command) (hc : Cuts text line) : key.Wordy := by
  cases h with
  | item hr _ =>
    refine ⟨hc.verb_solid, fun item hi => ?_⟩
    cases hi
    exact ⟨hr, hc.rest_trimmed⟩
  | verb _ _ => exact ⟨hc.verb_solid, fun item hi => by cases hi⟩

/-- A key written out, with blanks where blanks may be, is cut into its own verb and item. -/
theorem Cuts.of_key (hk : key.Wordy) (hv : key.verb ≠ "") {before gap after : List Char}
    (hb : Blank before) (hg : Blank gap) (hgap : gap ≠ []) (ha : Blank after)
    (htext : text.toList = before ++
      (key.verb.toList ++ ((key.item.elim [] fun item => gap ++ item.toList) ++ after))) :
    Cuts text ⟨key.verb, key.item.getD ""⟩ := by
  obtain ⟨verb, _ | item⟩ := key
  · exact ⟨⟨before, [], after, hb, by simp [Blank], ha, by simpa using htext,
      fun h => absurd rfl h⟩, hk.verb, fun _ => hv, by simp [Trimmed]⟩
  · exact ⟨⟨before, gap, after, hb, hg, ha, by simpa using htext, fun _ => hgap⟩, hk.verb,
      fun _ => hv, (hk.item item rfl).2⟩

theorem Means.of_key (hk : key.Wordy) (h : commands.find? key = some command) :
    Means commands ⟨key.verb, key.item.getD ""⟩ key command := by
  obtain ⟨verb, _ | item⟩ := key
  · exact .verb (fun h => absurd rfl h) h
  · exact .item (hk.item item rfl).1 h

end CommandLine

/-! ## Running a line -/

/-- The command that is called, and its call. -/
def Entry.invocation? : Entry → Option (CommandKey × CommandCall)
  | .commanded key _ call => some (key, call)
  | .began _ | .ended .. | .heard .. | .left .. | .fired .. | .prevented | .registered ..
  | .loading .. | .loaded _ | .failed .. | .unwritten .. | .did .. | .logged .. => none

theorem Entry.IsAside.invocation?_eq {e : Entry} (h : e.IsAside) : e.invocation? = none := by
  cases e <;> first | rfl | exact h.elim

namespace World

open CommandLine

variable {E : Engine} {w w' : World E}

/-- The action of a command brings about no other call of a command, actions of its own apart. -/
theorem invoke_speaks {fuel : Nat} {key : CommandKey} {call : CommandCall}
    {action : CommandAction E} {e : Option HostError}
    (h : w.invoke (perform fuel) key call action = some (w', e)) :
    Says Entry.invocation? [(key, call)] w w' := by
  obtain ⟨label, hs⟩ := invoke_strides h
  have hn : Says Entry.invocation? [(key, call)] w (w.note (.commanded key label call)) :=
    .step (e := .commanded ..) trivial rfl
  exact hn.trans (strides_say (fun _ h => h.invocation?_eq) perform_speaks hs)

/-- What is answered once an action has ended, with the error it failed with. -/
def answered (r : World E × Option HostError) : World E × Except HostError Bool :=
  (r.1, r.2.elim (.ok true) .error)

theorem runCommand_of_means {run : Performer E} {player text : String} {line : CommandLine}
    (hc : Cuts text line) {key : CommandKey} {command : Command (CommandAction E)}
    (h : Means w.game.commands line key command) : w.runCommand run player text =
      (w.invoke run key ⟨player, line.rest⟩ command.action).map answered := by
  rw [runCommand_eq, hc.eq, resolve_eq_some_iff.2 h]
  rfl

theorem runCommand_of_means_nothing {run : Performer E} {player text : String} {line : CommandLine}
    (hc : Cuts text line) (h : ∀ key command, ¬ Means w.game.commands line key command) :
    w.runCommand run player text = some (w, .ok false) := by
  rw [runCommand_eq, hc.eq, resolve_eq_none_iff.2 h]
  rfl

/-- The command that a line means is called, and nothing happens if there is none. A key is meant by
the lines that spell it out, and by no line if it cannot be cut out of one. -/
theorem runCommand_resolves (fuel : Nat) (player text : String) (w : World E) :
    (∃! line, Cuts text line) ∧
    (∀ line, Cuts text line →
      (∀ key command, Means w.game.commands line key command →
        w.runCommand (perform fuel) player text =
            (w.invoke (perform fuel) key ⟨player, line.rest⟩ command.action).map answered ∧
          (∀ w' answer, w.runCommand (perform fuel) player text = some (w', answer) →
            Says Entry.invocation? [(key, ⟨player, line.rest⟩)] w w') ∧
          (∀ key' command', Means w.game.commands line key' command' →
            key' = key ∧ command' = command) ∧
          key.Wordy) ∧
      ((∀ key command, ¬ Means w.game.commands line key command) →
        w.runCommand (perform fuel) player text = some (w, .ok false))) ∧
    ∀ key command, w.game.commands.find? key = some command → key.Wordy → key.verb ≠ "" →
      ∀ before gap after, Blank before → Blank gap → gap ≠ [] → Blank after →
        text.toList = before ++
          (key.verb.toList ++ ((key.item.elim [] fun item => gap ++ item.toList) ++ after)) →
        w.runCommand (perform fuel) player text =
            (w.invoke (perform fuel) key ⟨player, key.item.getD ""⟩ command.action).map answered ∧
          ∀ w' answer, w.runCommand (perform fuel) player text = some (w', answer) →
            Says Entry.invocation? [(key, ⟨player, key.item.getD ""⟩)] w w' := by
  have hruns : ∀ {line key command}, Cuts text line → Means w.game.commands line key command →
      ∀ w' answer, w.runCommand (perform fuel) player text = some (w', answer) →
        Says Entry.invocation? [(key, ⟨player, line.rest⟩)] w w' := by
    intro line key command hc hm w' answer h
    rw [runCommand_of_means hc hm] at h
    obtain ⟨⟨v, e⟩, hv, h⟩ := Option.map_eq_some_iff.1 h
    obtain ⟨rfl, -⟩ := Prod.mk.inj h
    exact invoke_speaks hv
  refine ⟨⟨_, .ofText text, fun line h => h.eq.symm⟩, fun line hc => ⟨?_, ?_⟩, ?_⟩
  · intro key command hm
    exact ⟨runCommand_of_means hc hm, hruns hc hm, fun _ _ h => h.eq hm, hm.wordy hc⟩
  · exact runCommand_of_means_nothing hc
  · intro key command hf hk hv before gap after hb hg hgap ha htext
    have hc := Cuts.of_key hk hv hb hg hgap ha htext
    have hm := Means.of_key hk hf
    exact ⟨runCommand_of_means hc hm, hruns hc hm⟩

/-- Takes the sword that stands in the fire. -/
def burntFingers : Command (CommandAction (Script.Sandbox.engine none)) :=
  ⟨"Take the sword", .plan 1 fun _ _ => .finish (.fail (.script "too hot"))⟩

/-- A game with a command for a verb and one for an item of it. -/
def smithy : World (Script.Sandbox.engine none) :=
  { World.empty "world" with
    game := (Game.empty.createCommand ⟨"take", none⟩
        ⟨"Take something", .plan 0 fun _ _ => .finish .keep⟩).createCommand
      ⟨"take", some "the sword"⟩ burntFingers }

theorem hot_sword_taken :
    (Cuts " take\u3000 the sword\n" ⟨"take", "the sword"⟩ ∧
      Means smithy.game.commands ⟨"take", "the sword"⟩ ⟨"take", some "the sword"⟩ burntFingers ∧
      smithy.runCommand (perform 1) "ann" " take\u3000 the sword\n" =
        some ((smithy.countCall 1).note (.commanded ⟨"take", some "the sword"⟩
          (some "take the sword") ⟨"ann", "the sword"⟩), .error (.script "too hot")) ∧
      Says Entry.invocation? [(⟨"take", some "the sword"⟩, ⟨"ann", "the sword"⟩)] smithy
        ((smithy.countCall 1).note (.commanded ⟨"take", some "the sword"⟩
          (some "take the sword") ⟨"ann", "the sword"⟩))) ∧
      smithy.runCommand (perform 1) "ann" "dance" = some (smithy, .ok false) := by
  have hfind : smithy.game.commands.find? ⟨"take", some "the sword"⟩ = some burntFingers :=
    Table.find?_insert_self ..
  have hkey : CommandKey.Wordy ⟨"take", some "the sword"⟩ := by
    refine ⟨by decide, fun item hi => ?_⟩
    cases hi
    exact ⟨by decide, by decide⟩
  have hblank : Blank [' '] ∧ Blank ['\u3000', ' '] ∧ Blank ['\n'] := by decide
  have hsword : Cuts " take\u3000 the sword\n" ⟨"take", "the sword"⟩ :=
    Cuts.of_key hkey (by decide) hblank.1 hblank.2.1 (by decide) hblank.2.2 (by decide)
  have hmeans := Means.of_key hkey hfind
  have hdance : Cuts "dance" ⟨"dance", ""⟩ := ofText_eq_iff.1 (by decide)
  have hnone : ∀ key command, ¬ Means smithy.game.commands ⟨"dance", ""⟩ key command := by
    rintro _ _ (⟨h, -⟩ | ⟨-, h⟩)
    · exact h rfl
    · rw [smithy, Game.createCommand, Table.find?_insert_of_ne _ (by decide), Game.createCommand,
        Table.find?_insert_of_ne _ (by decide)] at h
      cases h
  obtain ⟨-, hline, hspoken⟩ := runCommand_resolves 1 "ann" " take\u3000 the sword\n" smithy
  obtain ⟨-, hspeaks⟩ := hspoken _ _ hfind hkey (by decide) _ _ _ hblank.1 hblank.2.1 (by decide)
    hblank.2.2 (by decide)
  exact ⟨⟨hsword, hmeans, ((hline _ hsword).1 _ _ hmeans).1, hspeaks _ _ rfl⟩,
    ((runCommand_resolves 1 "ann" "dance" smithy).2.1 _ hdance).2 hnone⟩

end World

end LiveModules
