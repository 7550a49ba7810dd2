import LiveModules.Proofs.Strides

/-!
# A call that fails, and the same call spared

Two runs are laid side by side. They begin with script states of one surface that make the same
calls ask for the same, up to a call that fails in the one run and ends well in the other
(`Engine.Spared`). Until then the worlds differ in that state only; from then on they differ in the
scar of the fault (`Fault.Scar`), and each small change of both worlds keeps them so (`Apart`).
-/

namespace LiveModules

attribute [local irreducible] lastOf

/-- The first run is the second, but for a failure in the end. -/
structure Run.Spoils {σ κ : Type} (r r' : Run σ κ) (detail : String) : Prop where
  requests : r.requests = r'.requests
  failure : r.failure = some detail
  spared : r'.failure = none
  state : r.state = r'.state

/-- Both runs ask for the same and end alike, in states that `R` relates. -/
structure Run.Alike {σ κ : Type} (R : σ → σ → Prop) (r r' : Run σ κ) : Prop where
  requests : r.requests = r'.requests
  failure : r.failure = r'.failure
  state : R r.state r'.state

namespace Engine

variable (E : Engine)

/-- `R` pairs script states in which every call runs alike, or fails in the first state only. -/
def Parting (R : E.State → E.State → Prop) : Prop :=
  ∀ s t, R s t → ∀ f args, (E.call s f args).Alike R (E.call t f args) ∨
    ∃ detail, (E.call s f args).Spoils (E.call t f args) detail

/-- In `t` all calls run as in `s`, up to one that fails in `s` and ends well in `t`. -/
def Spared (s t : E.State) : Prop := ∃ R, E.Parting R ∧ R s t

theorem spared_parting : E.Parting E.Spared := by
  rintro s t ⟨R, hR, hst⟩ f args
  rcases hR s t hst f args with h | h
  · exact .inl ⟨h.requests, h.failure, R, hR, h.state⟩
  · exact .inr h

end Engine

/-- Which surface is watched, and what was told when that began. -/
structure Watch where
  surface : Nat
  told : List Entry

/-- On whose behalf a function of a script is called. -/
inductive Caller where
  | handler (module : String) (id : Nat) (event : GameEvent)
  | command (key : CommandKey) (call : CommandCall)
  | timer (seq : Nat)

namespace Caller

variable {E : Engine}

/-- What is noted when the function is called. -/
def entry : Caller → Entry
  | handler module id event => .heard (.surface module) id none event
  | command key call => .commanded key none call
  | timer seq => .fired seq none

def args : Caller → List Json
  | handler _ _ event => event.args
  | command _ call => [.string call.player, .string call.args]
  | timer _ => []

/-- What is said when the function fails. -/
def message (detail : String) : Caller → String
  | handler _ _ event =>
    "Oh dear there was an error handling the " ++ event.key.display ++ " event!"
  | command key _ => "Oh dear there was an error running the " ++ key.verb ++ " command!"
  | timer _ => "Error running timeout: " ++ detail

/-- What is noted of the list that the function was on. -/
def departure : Caller → List Entry
  | handler module id _ => [.left (.surface module) id]
  | _ => []

/-- The surfaces without the subscription of a handler. -/
def thin : Caller → Table String (Surface E) → Table String (Surface E)
  | handler module id event, t =>
    t.modify module fun s => { s with emitter := s.emitter.remove event.key id }
  | _, t => t

/-- Callers that the run goes on beneath, numbers below `n` being given out: a command answers
instead. -/
def Within (n : Nat) : Caller → Prop
  | handler _ id _ => id < n
  | command .. => False
  | timer _ => True

/-- Nothing of what is told afterwards hangs on how the function ended: a handler is not called
again, and no action ends at once that ran a command and answers for it. -/
def Alone (told : List Entry) : Caller → Prop
  | handler module id _ => ∀ label event, .heard (.surface module) id label event ∉ told
  | command .. => ∀ a r rest, told ≠ .ended a r :: rest
  | timer _ => True

theorem Within.mono {n n' : Nat} (hn : n ≤ n') : ∀ {c : Caller}, c.Within n → c.Within n'
  | handler .., h => Nat.lt_of_lt_of_le h hn
  | command .., h => h
  | timer _, h => h

theorem Alone.of_append {told more : List Entry} :
    ∀ {c : Caller}, c.Alone (told ++ more) → c.Alone told
  | handler .., h => fun label event he => h label event (List.mem_append_left _ he)
  | command .., h => fun a r rest he => h a r (rest ++ more) (by rw [he]; rfl)
  | timer _, h => h

end Caller

/-- A call of a script function that fails. -/
structure Fault (E : Engine) where
  caller : Caller
  function : ScriptFunction E
  detail : String
  /-- Where the function is called, in the run in which it ends well. -/
  world : World E

/-- The parts of a world that a fault leaves its mark on, and the script states. -/
structure Marks (E : Engine) where
  states : Table Nat E.State
  surfaces : Table String (Surface E)
  journal : Array Entry
  disk : Array (String × ArtifactWrite)
  history : History
  bus : NoticeBus

variable {E : Engine}

namespace World

def marks (w : World E) : Marks E :=
  ⟨w.states, w.surfaces, w.journal, w.disk, w.game.history, w.game.bus⟩

def mark (w : World E) (m : Marks E) : World E :=
  { w with
    states := m.states
    surfaces := m.surfaces
    journal := m.journal
    disk := m.disk
    game := { w.game with history := m.history, bus := m.bus } }

/-- The world with another script state of a surface. -/
def withState (w : World E) (surface : Nat) (state : E.State) : World E :=
  { w with states := w.states.insert surface state }

end World

namespace Fault

variable (x : Fault E)

def module : String := x.function.origin.module

/-- The world when the function has ended well. -/
def after : World E := (x.world.callScript x.function x.caller.args).1

def notice : Notice := ⟨.broadcast, x.caller.message x.detail⟩

/-- What is told of the failure. -/
def told : List Entry := .failed x.module x.detail :: x.caller.departure

/-- After what `k` says was told before, a function of its surface was called for the caller; it
fails in a script state whose twin, the one that the world has, spares it. -/
structure Genuine (k : Watch) (x : Fault E) : Prop where
  own : x.function.origin.surface = k.surface
  called : ∃ w : World E, x.world = w.note x.caller.entry ∧ k.told <+: w.journal.toList
  fails : ∃ s t, E.Spared s t ∧ x.world.states.find? k.surface = some t ∧
    (E.call s x.function.callback x.caller.args).Spoils
      (E.call t x.function.callback x.caller.args) x.detail
  /-- A handler is on the list of its module when it is called. -/
  listed : ∀ module id event, x.caller = .handler module id event →
    module = x.module ∧ (x.world.roster (.surface module)).contains event.key id = true

/-- What a fault leaves beside what is there without it, `js`, `os` and `ns` being what was told,
written and said after the call: one notice and one change of the error file at the point of the
call, the entries that tell of it, and one subscription less. -/
structure Scar (js : List Entry) (os : List (String × ArtifactWrite)) (ns : List Notice)
    (m m' : Marks E) : Prop where
  journal : m'.journal.toList = x.after.journal.toList ++ js
  journal_scar : m.journal.toList = x.after.journal.toList ++ (x.told ++ js)
  disk : m'.disk.toList = x.after.disk.toList ++ os
  disk_scar : m.disk.toList =
    x.after.disk.toList ++ (x.module, .writeError x.detail) :: os
  history : m'.history = ns.foldl .push x.after.game.history
  history_scar : m.history = ns.foldl .push (x.after.game.history.push x.notice)
  bus : m'.bus = ns.foldl .publish x.after.game.bus
  bus_scar : m.bus = ns.foldl .publish (x.after.game.bus.publish x.notice)
  states : m.states = m'.states
  surfaces : m.surfaces = x.caller.thin m'.surfaces

variable {x} in
/-- The run in which the call fails has told of it. -/
theorem Scar.told_of {js : List Entry} {os : List (String × ArtifactWrite)} {ns : List Notice}
    {m m' : Marks E} (h : x.Scar js os ns m m') :
    x.after.journal.toList ++ x.told <+: m.journal.toList := by
  rw [h.journal_scar, ← List.append_assoc]
  exact List.prefix_append _ _

end Fault

/-- How the marks of the two worlds may differ: by a script state, or by a scar. -/
inductive Gap (k : Watch) (n : Nat) (m m' : Marks E) : Prop
  | before {s t : E.State} : E.Spared s t → m'.states.find? k.surface = some t →
      m = { m' with states := m'.states.insert k.surface s } → Gap k n m m'
  | after {x : Fault E} (js os ns) : x.Genuine k → x.caller.Within n →
      x.Scar js os ns m m' → Gap k n m m'

/-- The first world is the second but for a gap. -/
inductive Apart (k : Watch) : World E → World E → Prop
  | intro {w m} : Gap k w.nextId m w.marks → Apart k (w.mark m) w

variable {k : Watch} {n : Nat}

namespace Gap

variable {m m' : Marks E}

theorem mono {n' : Nat} (hn : n ≤ n') (h : Gap k n m m') : Gap k n' m m' := by
  cases h with
  | before hR hs hm => exact .before hR hs hm
  | after js os ns hx hb hs => exact .after js os ns hx (hb.mono hn) hs

theorem note (e : Entry) (h : Gap k n m m') :
    Gap k n { m with journal := m.journal.push e }
      { m' with journal := m'.journal.push e } := by
  cases h with
  | before hR hs hm =>
    subst hm
    exact .before hR hs rfl
  | after js os ns hx hb hs =>
    refine .after (js ++ [e]) os ns hx hb { hs with journal := ?_, journal_scar := ?_ }
    · simp [hs.journal]
    · simp [hs.journal_scar]

theorem write (c : String × ArtifactWrite) (h : Gap k n m m') :
    Gap k n { m with disk := m.disk.push c } { m' with disk := m'.disk.push c } := by
  cases h with
  | before hR hs hm =>
    subst hm
    exact .before hR hs rfl
  | after js os ns hx hb hs =>
    refine .after js (os ++ [c]) ns hx hb { hs with disk := ?_, disk_scar := ?_ }
    · simp [hs.disk]
    · simp [hs.disk_scar]

theorem notify (a : Notice) (h : Gap k n m m') :
    Gap k n { m with history := m.history.push a, bus := m.bus.publish a }
      { m' with history := m'.history.push a, bus := m'.bus.publish a } := by
  cases h with
  | before hR hs hm =>
    subst hm
    exact .before hR hs rfl
  | after js os ns hx hb hs =>
    refine .after js os (ns ++ [a]) hx hb
      { hs with history := ?_, history_scar := ?_, bus := ?_, bus_scar := ?_ }
    · rw [hs.history, List.foldl_concat]
    · rw [hs.history_scar, List.foldl_concat]
    · rw [hs.bus, List.foldl_concat]
    · rw [hs.bus_scar, List.foldl_concat]

end Gap

namespace Apart

variable {w w' : World E}

/-- A change that marks are no part of is made in both worlds alike. -/
theorem frame (f : World E → World E) (h : Apart k w w')
    (hm : ∀ (v : World E) m, f (v.mark m) = (f v).mark m)
    (hk : ∀ v : World E, (f v).marks = v.marks) (hn : ∀ v : World E, v.nextId ≤ (f v).nextId) :
    Apart k (f w) (f w') := by
  cases h with
  | intro hg =>
    rw [hm]
    refine .intro (hk w' ▸ hg.mono (hn w'))

/-- What does not look at marks sees the same in both worlds. -/
theorem eq_of (h : Apart k w w') {α : Type} (f : World E → α)
    (hf : ∀ (v : World E) m, f (v.mark m) = f v) : f w = f w' := by
  cases h with
  | intro => exact hf w' _

theorem note (e : Entry) (h : Apart k w w') : Apart k (w.note e) (w'.note e) := by
  cases h with
  | intro hg => exact .intro (w := w'.note e) (hg.note e)

theorem write (module : String) (a : ArtifactWrite) (h : Apart k w w') :
    Apart k (w.write module a) (w'.write module a) := by
  cases h with
  | intro hg => exact .intro (w := w'.write module a) (hg.write (module, a))

theorem notify (a : Notice) (h : Apart k w w') :
    Apart k (w.notify a) (w'.notify a) := by
  cases h with
  | intro hg => exact .intro (w := w'.notify a) (hg.notify a)

end Apart

/-! ## Rosters and surfaces -/

namespace Caller

/-- Whether this is the member with a number on a list. -/
def isAt (place : Place) (key : EventKey) (id : Nat) : Caller → Bool
  | handler module id' event => place = .surface module && key = event.key && id = id'
  | _ => false

theorem keys_thin (c : Caller) (t : Table String (Surface E)) : (c.thin t).keys = t.keys := by
  cases c with
  | handler module id event => exact t.keys_modify module _
  | command => rfl
  | timer => rfl

/-- Every surface stays current. -/
theorem find?_thin_id (c : Caller) (t : Table String (Surface E)) (module : String) :
    ((c.thin t).find? module).map (·.id) = (t.find? module).map (·.id) := by
  cases c with
  | handler module' id event =>
    by_cases hm : module = module'
    · subst hm
      rw [thin, Table.find?_modify_self, Option.map_map]
      rfl
    · rw [thin, Table.find?_modify_of_ne _ hm]
  | command => rfl
  | timer => rfl

theorem listed_thin {c : Caller} {w w' : World E} (he : w.emitter = w'.emitter)
    (hs : w.surfaces = c.thin w'.surfaces) (place : Place) (key : EventKey) :
    (w.roster place).listed key =
      ((w'.roster place).listed key).filter fun m => !c.isAt place key m.id := by
  cases c with
  | handler module id event =>
    have hr : w.roster place =
        (w'.updateRoster (·.remove event.key id) (.surface module)).roster place := by
      cases place <;> simp only [World.roster, World.updateRoster, he, hs, thin]
    rw [hr, World.listed_updateRoster_remove]
    split
    · rename_i hp
      refine List.filter_congr fun m _ => ?_
      simp [isAt, hp, bne, BEq.beq]
    · rename_i hp
      have hno (m : Member (Subscriber E)) :
          (!(handler module id event).isAt place key m.id) = true := by
        simp only [isAt, Bool.not_eq_true', Bool.and_eq_false_iff, decide_eq_false_iff_not]
        exact .inl (not_and_or.1 hp)
      simp [hno]
  | command =>
    have hr : w.roster place = w'.roster place := by
      cases place <;> simp only [World.roster, he, hs, thin]
    simp [hr, isAt]
  | timer =>
    have hr : w.roster place = w'.roster place := by
      cases place <;> simp only [World.roster, he, hs, thin]
    simp [hr, isAt]

/-- A change of a surface that commutes with the leave of a handler. -/
theorem thin_modify (c : Caller) (t : Table String (Surface E)) (module : String)
    {f : Surface E → Surface E}
    (hf : ∀ id event, c = .handler module id event → ∀ s : Surface E,
      f { s with emitter := s.emitter.remove event.key id } =
        { f s with emitter := (f s).emitter.remove event.key id }) :
    c.thin (t.modify module f) = (c.thin t).modify module f := by
  cases c with
  | handler module' id event =>
    refine t.modify_comm fun hm s => ?_
    subst hm
    exact hf id event rfl s
  | command => rfl
  | timer => rfl

end Caller

namespace World

theorem subscribeScript_eq (w : World E) (f : ScriptFunction E) (key : EventKey) :
    w.subscribeScript f key =
      if (w.surfaces.find? f.origin.module).map (·.id) = some f.origin.surface then
        { w with nextId := w.nextId + 1 }.updateRoster (·.add key w.nextId (.script f))
          (.surface f.origin.module)
      else { w with
        nextId := w.nextId + 1
        retired := w.retired.insert f.origin.surface
          ((w.retiree f.origin.surface).add key w.nextId (.script f)) } := by
  have hc : w.isCurrent f.origin = true ↔
      (w.surfaces.find? f.origin.module).map (·.id) = some f.origin.surface := by
    rw [isCurrent_iff, Option.map_eq_some_iff]
  by_cases h : w.isCurrent f.origin = true
  · rw [subscribeScript, if_pos h, if_pos (hc.1 h)]
  · rw [subscribeScript, if_neg h, if_neg (mt hc.2 h)]

end World

namespace Gap

variable {m m' : Marks E}

theorem keys_eq (h : Gap k n m m') : m.surfaces.keys = m'.surfaces.keys := by
  cases h with
  | before _ _ hm => rw [hm]
  | after _ _ _ _ _ hs => rw [hs.surfaces, Caller.keys_thin]

theorem find?_id (h : Gap k n m m') (module : String) :
    (m.surfaces.find? module).map (·.id) = (m'.surfaces.find? module).map (·.id) := by
  cases h with
  | before _ _ hm => rw [hm]
  | after _ _ _ _ _ hs => rw [hs.surfaces, Caller.find?_thin_id]

/-- A change of one surface, in both worlds. -/
theorem modify (h : Gap k n m m') (module : String) {f : Surface E → Surface E}
    (hf : ∀ id (event : GameEvent), id < n → ∀ s : Surface E,
      f { s with emitter := s.emitter.remove event.key id } =
        { f s with emitter := (f s).emitter.remove event.key id }) :
    Gap k n { m with surfaces := m.surfaces.modify module f }
      { m' with surfaces := m'.surfaces.modify module f } := by
  cases h with
  | before hR hs hm =>
    subst hm
    exact .before hR hs rfl
  | after js os ns hx hb hs =>
    refine .after js os ns hx hb { hs with surfaces := ?_ }
    rw [hs.surfaces, Caller.thin_modify]
    intro id event hc s
    rw [hc] at hb
    exact hf id event hb s

end Gap

namespace Apart

variable {w w' : World E}

theorem subscribeScript (h : Apart k w w') (f : ScriptFunction E) (key : EventKey) :
    Apart k (w.subscribeScript f key) (w'.subscribeScript f key) := by
  cases h with
  | @intro _ m hg =>
    have hid : ((w'.mark m).surfaces.find? f.origin.module).map (·.id) =
        (w'.surfaces.find? f.origin.module).map (·.id) := hg.find?_id f.origin.module
    rw [World.subscribeScript_eq, World.subscribeScript_eq]
    by_cases hc : (w'.surfaces.find? f.origin.module).map (·.id) = some f.origin.surface
    · rw [if_pos (hid.trans hc), if_pos hc]
      refine .intro (w := { w' with nextId := w'.nextId + 1 }.updateRoster
        (·.add key w'.nextId (.script f)) (.surface f.origin.module))
        (m := { m with surfaces := m.surfaces.modify f.origin.module fun s =>
          { s with emitter := s.emitter.add key w'.nextId (.script f) } }) ?_
      refine (hg.modify f.origin.module fun id event hid s => ?_).mono (Nat.le_succ _)
      rw [Roster.remove_add _ _ _ (Nat.ne_of_gt hid)]
    · rw [if_neg (hid ▸ hc), if_neg hc]
      exact .intro (w := { w' with
        nextId := w'.nextId + 1
        retired := w'.retired.insert f.origin.surface
          ((w'.retiree f.origin.surface).add key w'.nextId (.script f)) })
        (hg.mono (Nat.le_succ _))

/-- Somebody leaves in both worlds. -/
theorem leave (h : Apart k w w') (place : Place) (key : EventKey) (id : Nat) :
    Apart k ((w.note (.left place id)).updateRoster (·.remove key id) place)
      ((w'.note (.left place id)).updateRoster (·.remove key id) place) := by
  have hn := h.note (.left place id)
  cases place with
  | hub => exact hn
  | emitter =>
    exact hn.frame (·.updateRoster (·.remove key id) .emitter) (fun _ _ => rfl) (fun _ => rfl)
      fun v => Nat.le_refl v.nextId
  | surface module =>
    generalize w.note _ = u at hn
    generalize w'.note _ = u' at hn
    cases hn with
    | @intro _ m hg =>
      refine .intro (w := u'.updateRoster (·.remove key id) (.surface module))
        (m := { m with surfaces := m.surfaces.modify module fun s =>
          { s with emitter := s.emitter.remove key id } }) (hg.modify module fun _ _ _ s => ?_)
      rw [Roster.remove, Roster.remove, Roster.keep_comm]
      rfl

/-! ## Scripts -/

theorem grant (h : Apart k w w') (origin : Origin) (r : Request E.Callback) :
    Apart k (w.grant origin r) (w'.grant origin r) := by
  have frame (f : World E → World E) (hm : ∀ (v : World E) m, f (v.mark m) = (f v).mark m)
      (hk : ∀ v : World E, (f v).marks = v.marks) (hn : ∀ v : World E, v.nextId ≤ (f v).nextId) :
      Apart k (f w) (f w') := h.frame f hm hk hn
  cases r with
  | handler key callback => exact h.subscribeScript ⟨origin, callback⟩ key
  | broadcast message => exact h.notify ⟨.broadcast, message⟩
  | log line => exact (h.note _).write origin.module (.appendLog line)
  | item room template secs =>
    have hs := frame (fun v => { v with
      spawns := v.spawns.register (.surface origin.surface) room template secs })
      (fun _ _ => rfl) (fun _ => rfl) fun v => Nat.le_refl v.nextId
    exact hs.note _
  | preventDefault =>
    have hs := frame (fun v => { v with game := v.game.preventDefault })
      (fun _ _ => rfl) (fun _ => rfl) fun v => Nat.le_refl v.nextId
    exact hs.note _
  | command key description callback =>
    exact frame (·.grant origin (.command key description callback)) (fun _ _ => rfl)
      (fun _ => rfl) fun v => Nat.le_refl v.nextId
  | room id spec =>
    exact frame (·.grant origin (.room id spec)) (fun _ _ => rfl) (fun _ => rfl)
      fun v => Nat.le_refl v.nextId
  | character name properties =>
    exact frame (·.grant origin (.character name properties)) (fun _ _ => rfl) (fun _ => rfl)
      fun v => Nat.le_refl v.nextId
  | timeout delayMs callback =>
    exact frame (·.grant origin (.timeout delayMs callback)) (fun _ _ => rfl) (fun _ => rfl)
      fun v => Nat.le_refl v.nextId

theorem grantAll (h : Apart k w w') (origin : Origin) (rs : List (Request E.Callback)) :
    Apart k (w.grantAll origin rs) (w'.grantAll origin rs) :=
  List.foldl_rel h fun r _ _ _ h => h.grant origin r

theorem noteFailure (h : Apart k w w') (module : String) (failure : Option String) :
    Apart k (w.noteFailure module failure) (w'.noteFailure module failure) := by
  cases failure with
  | none => exact h
  | some detail => exact h.note _

end Apart

/-- A call fails in `w` only: it is spared in `w'`, and leaves the same apart from its failure. -/
def Parted (k : Watch) (w w' : World E) (f : ScriptFunction E) (args : List Json)
    (detail : String) : Prop :=
  f.origin.surface = k.surface ∧
  (∃ s t, E.Spared s t ∧ w'.states.find? k.surface = some t ∧
    (E.call s f.callback args).Spoils (E.call t f.callback args) detail) ∧
  (w'.callScript f args).2 = none ∧
  w.callScript f args =
    ((w'.callScript f args).1.note (.failed f.origin.module detail), some detail)

namespace Apart

variable {w w' : World E}

/-- A call that is the same run in both worlds. -/
theorem sameCall (h : Apart k w w') {f : ScriptFunction E} (args : List Json)
    (hs : w.states.find? f.origin.surface = w'.states.find? f.origin.surface)
    (hk : ∀ state, Apart k
      { w with states := w.states.insert f.origin.surface state }
      { w' with states := w'.states.insert f.origin.surface state }) :
    Apart k (w.callScript f args).1 (w'.callScript f args).1 ∧
      (w.callScript f args).2 = (w'.callScript f args).2 := by
  rcases hf : w'.states.find? f.origin.surface with _ | state
  · rw [World.callScript_of_no_state hf, World.callScript_of_no_state (hs.trans hf)]
    exact ⟨h, rfl⟩
  · rw [World.callScript_of_state hf, World.callScript_of_state (hs.trans hf)]
    exact ⟨((hk _).grantAll _ _).noteFailure _ _, rfl⟩

/-- The function of the surface is called in twin states. -/
theorem twinCall {s t : E.State} (hst : E.Spared s t) (hs : w.states.find? k.surface = some t)
    {f : ScriptFunction E} (args : List Json) (ho : f.origin.surface = k.surface) :
    Apart k ((w.withState k.surface s).callScript f args).1 (w.callScript f args).1 ∧
        ((w.withState k.surface s).callScript f args).2 = (w.callScript f args).2 ∨
      ∃ detail, Parted k (w.withState k.surface s) w f args detail := by
  obtain ⟨surface, told⟩ := k
  obtain rfl : f.origin.surface = surface := ho
  have hs' : (w.withState f.origin.surface s).states.find? f.origin.surface = some s :=
    Table.find?_insert_self _ _ _
  have hkeep (r : Run E.State E.Callback) : (w.withState f.origin.surface s).finishRun f.origin r =
      w.finishRun f.origin r := by
    unfold World.finishRun World.withState
    rw [Table.insert_insert]
  rw [World.callScript_of_state hs, World.callScript_of_state hs', hkeep]
  rcases E.spared_parting s t hst f.callback args with h | ⟨detail, h⟩
  · refine .inl ⟨?_, h.failure⟩
    rw [h.failure]
    refine noteFailure ?_ _ _
    unfold World.finishRun
    rw [h.requests]
    refine grantAll ?_ _ _
    refine .intro (w := { w with
        states := w.states.insert f.origin.surface (E.call t f.callback args).state })
      (m := { w.marks with
        states := w.states.insert f.origin.surface (E.call s f.callback args).state })
      (.before h.state (Table.find?_insert_self _ _ _) ?_)
    exact congrArg (fun t => { w.marks with states := t }) (Table.insert_insert ..).symm
  · refine .inr ⟨detail, rfl, ⟨s, t, hst, hs, h⟩, ?_, ?_⟩
    · rw [World.callScript_of_state hs]
      exact h.spared
    · rw [World.callScript_of_state hs, World.callScript_of_state hs', hkeep, h.failure, h.spared]
      unfold World.finishRun
      rw [h.requests, h.state]
      rfl

/-- A function is called in both worlds: both calls end alike, or this is where they part. -/
theorem callScript (h : Apart k w w') (f : ScriptFunction E) (args : List Json) :
    Apart k (w.callScript f args).1 (w'.callScript f args).1 ∧
        (w.callScript f args).2 = (w'.callScript f args).2 ∨
      ∃ detail, Parted k w w' f args detail := by
  have h₀ := h
  cases h with
  | @intro _ m hg =>
    cases hg with
    | @before s t hst hs hm =>
      subst hm
      by_cases ho : f.origin.surface = k.surface
      · exact twinCall hst hs args ho
      refine .inl (h₀.sameCall args (Table.find?_insert_of_ne _ ho _) fun state => ?_)
      -- the state of another surface is kept, whichever comes first
      have hcomm := w'.states.insert_comm (Ne.symm ho) s state
      have hkeep : (w'.states.insert f.origin.surface state).find? k.surface = some t :=
        (Table.find?_insert_of_ne _ (Ne.symm ho) _).trans hs
      exact .intro (w := { w' with states := w'.states.insert f.origin.surface state })
        (.before hst hkeep (congrArg (fun t => { w'.marks with states := t }) hcomm))
    | after js os ns hx hb hs =>
      have hfind := congrArg (·.find? f.origin.surface) hs.states
      refine .inl (h₀.sameCall args hfind fun state => ?_)
      have hkeep := congrArg (fun t => t.insert f.origin.surface state) hs.states
      exact .intro (w := { w' with states := w'.states.insert f.origin.surface state })
        (m := { m with states := m.states.insert f.origin.surface state })
        (.after js os ns hx hb { hs with states := hkeep })

end Apart

namespace Fault

variable (x : Fault E)

/-- The world when the failure has been told, written and said. -/
def reported : World E :=
  ((x.after.note (.failed x.module x.detail)).writeError x.module x.detail).notify x.notice

/-- The world when the failure has been dealt with. -/
def suffered : World E :=
  match x.caller with
  | .handler module id event =>
    (x.reported.note (.left (.surface module) id)).updateRoster (·.remove event.key id)
      (.surface module)
  | _ => x.reported

variable {x}

theorem scar_suffered : x.Scar [] [] [] x.suffered.marks x.after.marks where
  journal := (List.append_nil _).symm
  journal_scar := by
    unfold suffered told
    cases x.caller <;> simp [reported, World.marks, World.notify, World.writeError, World.write_eq,
      World.note, World.updateRoster, Caller.departure]
  disk := (List.append_nil _).symm
  disk_scar := by
    unfold suffered
    cases x.caller <;> exact Array.toList_push
  history := rfl
  history_scar := by
    unfold suffered
    cases x.caller <;> rfl
  bus := rfl
  bus_scar := by
    unfold suffered
    cases x.caller <;> rfl
  states := by
    unfold suffered
    cases x.caller <;> rfl
  surfaces := by
    unfold suffered
    cases x.caller <;> rfl

theorem Genuine.apart (hx : x.Genuine k) (hb : x.caller.Within x.after.nextId) :
    Apart k x.suffered x.after := by
  have hs : x.suffered = x.after.mark x.suffered.marks := by
    unfold suffered
    cases x.caller <;> rfl
  rw [hs]
  exact .intro (.after [] [] [] hx hb scar_suffered)

end Fault

end LiveModules
