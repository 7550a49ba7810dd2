import LiveModules.Proofs.Licence
import Mathlib.Logic.Relation
import Mathlib.Order.Basic

/-!
# The moves of a world

Whatever a licensed action brings about, to any depth of nesting, is a sequence of moves
(`perform_moves`): the small changes that callbacks, requests of scripts and the bookkeeping around
them consist of. What every move keeps, every action keeps.
-/

namespace LiveModules

open Relation (ReflTransGen)

-- Otherwise a look at a field of a world that got a notice goes into the history.
attribute [local irreducible] lastOf

/-- Entries that only say what goes on. -/
def Entry.IsRemark : Entry → Prop
  | .began _ | .ended .. | .commanded .. | .fired .. | .did .. => True
  | _ => False

open World in
/-- One small change of a world, of those that actions consist of. -/
inductive Move {E : Engine} (L : Licence) : World E → World E → Prop
  | remark (w) (e : Entry) : e.IsRemark → Move L w (w.note e)
  | hear (w) (place : Place) (id : Nat) (label : Option String) (event : GameEvent) :
      place = .hub ∨ (w.roster place).contains event.key id →
      Move L w (w.note (.heard place id label event))
  /-- Somebody who heard an event is taken off the list of its key. -/
  | leave (w) (place : Place) (id : Nat) (label : Option String) (event : GameEvent) :
      place ≠ .hub → .heard place id label event ∈ w.journal.toList →
      (∀ m ∈ (w.roster place).listed event.key, m.id = id →
        ∀ surface, m.content ≠ .spawnCheck surface) →
      Move L w ((w.note (.left place id)).updateRoster (·.remove event.key id) place)
  | countCall (w) (id : Nat) : Move L w (w.countCall id)
  /-- Rooms, players, notices or the flag. -/
  | game (w) (g : Game (CommandAction E)) : g.commands = w.game.commands →
      Move L w { w with game := g }
  | prevent (w) : Move L w (w.note .prevented)
  | createCommand (w) (key : CommandKey) (description : String)
      (react : Nat → CommandCall → Plan) : (∀ n call, (react n call).Within L.action) →
      Move L w { w with
        nextId := w.nextId + 1
        game := w.game.createCommand key ⟨description, .plan w.nextId react⟩ }
  | listen (w) (key : Option EventKey) (label : String) (react : Nat → GameEvent → Plan) :
      (∀ n event, (react n event).Within L.action) → Move L w (w.listen key label react)
  | unlisten (w) (label : String) : Move L w (w.unlisten label).1
  | subscribe (w) (key : EventKey) (label : String) (react : Nat → GameEvent → Plan) :
      (∀ n event, (react n event).Within L.action) → Move L w (w.subscribe key label react)
  | unsubscribe (w) (key : EventKey) (label : String) : Move L w (w.unsubscribe key label).1
  | clear (w) : Move L w { w with emitter := .empty }
  | registerSpawn (w) (owner room : String) (template : Item) (secs : Float) :
      L.action (.registerSpawn owner room template secs) →
      Move L w { w with spawns := w.spawns.register (.label owner) room template secs }
  | releaseSpawns (w) (owner : String) :
      Move L w { w with spawns := w.spawns.release (.label owner) }
  | stamp (w) (owner : Owner) (now : Float) :
      Move L w { w with spawns := w.spawns.stamp owner now }
  | schedule (w) (module label : String) (due : Float) (task : Plan) : task.Within L.action →
      Move L w { w with timers := w.timers.schedule module due (.plan label task) }
  | take (w) (now : Float) : Move L w { w with timers := w.timers.afterTaking now }
  | setClock (w) (secs : Float) : Move L w { w with clock := { w.clock with set := secs } }
  | keepState (w) (surface : Nat) (state : E.State) :
      Move L w { w with states := w.states.insert surface state }
  | grant (w) (origin : Origin) (r : Request E.Callback) : origin.Licensed L w.journal.toList →
      Move L w (w.grant origin r)
  /-- A failure, and what is written of it. -/
  | fail (w) (module detail : String) : L.module module →
      Move L w ((w.note (.failed module detail)).writeError module detail)

abbrev Moves {E : Engine} (L : Licence) : World E → World E → Prop := ReflTransGen (Move L)

variable {E : Engine} {L : Licence} {w w' : World E}

/-! ## What a request of a script changes -/

namespace World

theorem subscribeScript_hub (f : ScriptFunction E) (key : EventKey) :
    (w.subscribeScript f key).hub = w.hub := by
  rcases w.subscribeScript_cases f key with ⟨_, h⟩ | ⟨s, -, -, h⟩
  · rw [h]
  · rw [h]
    rfl

theorem subscribeScript_game (f : ScriptFunction E) (key : EventKey) :
    (w.subscribeScript f key).game = w.game := by
  rcases w.subscribeScript_cases f key with ⟨_, h⟩ | ⟨s, -, -, h⟩
  · rw [h]
  · rw [h]
    rfl

theorem subscribeScript_timers (f : ScriptFunction E) (key : EventKey) :
    (w.subscribeScript f key).timers = w.timers := by
  rcases w.subscribeScript_cases f key with ⟨_, h⟩ | ⟨s, -, -, h⟩
  · rw [h]
  · rw [h]
    rfl

theorem subscribeScript_nextId_le (f : ScriptFunction E) (key : EventKey) :
    w.nextId ≤ (w.subscribeScript f key).nextId := by
  rcases w.subscribeScript_cases f key with ⟨_, h⟩ | ⟨s, -, -, h⟩
  · rw [h]
    exact Nat.le_succ w.nextId
  · rw [h]
    exact Nat.le_succ w.nextId

theorem mem_listed_subscribeScript {f : ScriptFunction E} {key key' : EventKey} {q : Place}
    {m : Member (Subscriber E)} (hm : m ∈ ((w.subscribeScript f key).roster q).listed key') :
    m ∈ (w.roster q).listed key' ∨ m = ⟨w.nextId, .script f⟩ := by
  rcases w.subscribeScript_cases f key with ⟨_, h⟩ | ⟨s, hs, -, h⟩ <;> rw [h] at hm
  · exact .inl hm
  · rw [listed_updateRoster_add (w := { w with nextId := w.nextId + 1 }) hs] at hm
    split at hm
    · rcases List.mem_append.1 hm with hm | hm
      · exact .inl hm
      · exact .inr (by simpa using hm)
    · exact .inl hm

theorem subscribeScript_journal (f : ScriptFunction E) (key : EventKey) :
    (w.subscribeScript f key).journal = w.journal := by
  rcases w.subscribeScript_cases f key with ⟨_, h⟩ | ⟨s, -, -, h⟩
  · rw [h]
  · rw [h]
    rfl

theorem grant_nextId_le (origin : Origin) (r : Request E.Callback) :
    w.nextId ≤ (w.grant origin r).nextId := by
  cases r with
  | handler key callback => exact subscribeScript_nextId_le ..
  | _ => exact Nat.le_refl w.nextId

end World

/-! ## What every move keeps -/

theorem Move.nextId_le (h : Move L w w') : w.nextId ≤ w'.nextId := by
  cases h with
  | leave place id label event => cases place <;> exact Nat.le_refl w.nextId
  | unlisten label =>
    obtain ⟨hub, he, -⟩ := w.unlisten_cases label
    exact Nat.le_of_eq (by rw [he])
  | unsubscribe key label =>
    obtain ⟨emitter, he, -⟩ := w.unsubscribe_cases key label
    exact Nat.le_of_eq (by rw [he])
  | grant origin r _ => exact World.grant_nextId_le origin r
  | createCommand | listen | subscribe => exact Nat.le_succ w.nextId
  | _ => exact Nat.le_refl w.nextId

theorem Move.listsGrow (h : Move L w w') : World.ListsGrow w w' := by
  cases h with
  | leave place id label event =>
    refine .of_subset fun q key m hm => ?_
    rw [World.listed_updateRoster_remove] at hm
    split at hm
    · exact (List.mem_filter.1 hm).1
    · exact hm
  | subscribe key label react => exact .subscribe key label react
  | unsubscribe key label =>
    obtain ⟨emitter, he, hsub⟩ := w.unsubscribe_cases key label
    refine .of_subset fun q key' m hm => ?_
    rw [he] at hm
    rcases q with _ | _ | module
    · exact hm
    · exact hsub key' m hm
    · exact hm
  | clear =>
    refine .of_subset fun q key m hm => ?_
    rcases q with _ | _ | module
    · exact hm
    · cases hm
    · exact hm
  | unlisten label =>
    obtain ⟨hub, he, -⟩ := w.unlisten_cases label
    exact .of_subset fun _ _ _ hm => by rwa [he] at hm
  | grant origin r =>
    cases r with
    | handler key callback => exact .subscribeScript ⟨origin, callback⟩ key
    | _ => exact .of_subset fun _ _ _ => id
  | _ => exact .of_subset fun _ _ _ => id

/-- A move tells of at most one thing. -/
theorem Move.journal_cases (h : Move L w w') :
    w'.journal = w.journal ∨ ∃ e, w'.journal = w.journal.push e := by
  cases h with
  | leave place id label event => cases place <;> exact .inr ⟨.left _ id, rfl⟩
  | unlisten label =>
    obtain ⟨hub, he, -⟩ := w.unlisten_cases label
    exact .inl (by rw [he])
  | unsubscribe key label =>
    obtain ⟨emitter, he, -⟩ := w.unsubscribe_cases key label
    exact .inl (by rw [he])
  | grant origin r _ =>
    cases r with
    | handler key callback => exact .inl (World.subscribeScript_journal ..)
    | item | preventDefault | log => exact .inr ⟨_, rfl⟩
    | _ => exact .inl rfl
  | remark | hear | prevent | fail => exact .inr ⟨_, rfl⟩
  | _ => exact .inl rfl

theorem Move.journal_grows (h : Move L w w') : w.journal.toList <+: w'.journal.toList := by
  rcases h.journal_cases with h | ⟨e, h⟩
  · exact h ▸ List.prefix_refl _
  · exact h ▸ ⟨[e], Array.toList_push.symm⟩

theorem grant_licensed {origin : Origin} {r : Request E.Callback} (h : w.Licensed L)
    (ho : origin.Licensed L w.journal.toList) : (w.grant origin r).Licensed L := by
  have hm := Move.grant w origin r ho
  have hj := hm.journal_grows.subset
  have hn := h.numbered.grow hm.nextId_le hm.listsGrow
  cases r with
  | command key description callback =>
    refine h.mono hj hn h.listeners (fun _ _ _ => .inl) (fun key' c hc => ?_) (fun _ => .inl)
    simp only [World.grant, Game.createCommand, Table.find?_insert] at hc
    split at hc
    · cases hc
      exact .inr ho
    · exact .inl hc
  | handler key callback =>
    refine h.mono hj hn ?_ (fun place key' m hm => ?_) (fun key' c hc => .inl ?_)
      (fun t ht => .inl ?_)
    · simp only [World.grant, World.subscribeScript_hub]
      exact h.listeners
    · rcases World.mem_listed_subscribeScript hm with hm | rfl
      · exact .inl hm
      · exact .inr (ho.mono hj)
    · simpa only [World.grant, World.subscribeScript_game] using hc
    · simpa only [World.grant, World.subscribeScript_timers] using ht
  | timeout delayMs callback =>
    refine h.mono hj hn h.listeners (fun _ _ _ => .inl) (fun _ _ => .inl) (fun t ht => ?_)
    rcases List.mem_append.1 ht with ht | ht
    · exact .inl ht
    · rw [List.mem_singleton.1 ht]
      exact .inr ho
  | _ => exact h.mono hj hn h.listeners (fun _ _ _ => .inl) (fun _ _ => .inl) (fun _ => .inl)

theorem Move.licensed (hm : Move L w w') (h : w.Licensed L) : w'.Licensed L := by
  have hj := hm.journal_grows.subset
  have hn := h.numbered.grow hm.nextId_le hm.listsGrow
  cases hm with
  | leave place id label event =>
    refine h.mono hj hn ?_ (fun q key' m hm => .inl ?_) ?_ ?_
    · cases place <;> exact h.listeners
    · rw [World.listed_updateRoster_remove] at hm
      split at hm
      · exact (List.mem_filter.1 hm).1
      · exact hm
    · cases place <;> exact fun _ _ => .inl
    · cases place <;> exact fun _ => .inl
  | game g hg =>
    refine ⟨h.listeners, h.subscribers, fun key c hc => ?_, h.tasks, hn⟩
    exact h.commands key c (hg ▸ hc)
  | createCommand key description react hr =>
    refine h.mono hj hn h.listeners (fun _ _ _ => .inl) (fun key' c hc => ?_) (fun _ => .inl)
    simp only [Game.createCommand, Table.find?_insert] at hc
    split at hc
    · cases hc
      exact .inr hr
    · exact .inl hc
  | listen key label react hr =>
    refine h.mono hj hn (fun key' m hm => ?_) (fun _ _ _ => .inl) (fun _ _ => .inl) (fun _ => .inl)
    rcases key with _ | key
    · rcases Hub.mem_hearers_onAny hm with hm | rfl
      · exact h.listeners key' m hm
      · exact hr
    · rcases Hub.mem_hearers_on hm with hm | rfl
      · exact h.listeners key' m hm
      · exact hr
  | unlisten label =>
    obtain ⟨hub, he, hsub⟩ := w.unlisten_cases label
    rw [he] at hn ⊢
    exact ⟨fun key m hm => h.listeners key m (hsub key m hm), h.subscribers, h.commands,
      h.tasks, hn⟩
  | subscribe key label react hr =>
    refine h.mono hj hn h.listeners (fun q key' m hm => ?_) (fun _ _ => .inl) (fun _ => .inl)
    rcases q with _ | _ | module
    · exact .inl hm
    · rcases Roster.mem_listed_add hm with hm | ⟨-, rfl⟩
      · exact .inl hm
      · exact .inr hr
    · exact .inl hm
  | unsubscribe key label =>
    obtain ⟨emitter, he, hsub⟩ := w.unsubscribe_cases key label
    rw [he] at hn ⊢
    refine ⟨h.listeners, fun q key' m hm => ?_, h.commands, h.tasks, hn⟩
    rcases q with _ | _ | module
    · exact h.subscribers .hub key' m hm
    · exact h.subscribers .emitter key' m (hsub key' m hm)
    · exact h.subscribers (.surface module) key' m hm
  | clear =>
    refine ⟨h.listeners, fun q key' m hm => ?_, h.commands, h.tasks, hn⟩
    rcases q with _ | _ | module
    · exact h.subscribers .hub key' m hm
    · simp [World.roster] at hm
    · exact h.subscribers (.surface module) key' m hm
  | schedule module label due task ht =>
    refine h.mono hj hn h.listeners (fun _ _ _ => .inl) (fun _ _ => .inl) (fun t hm => ?_)
    rcases List.mem_append.1 hm with hm | hm
    · exact .inl hm
    · rw [List.mem_singleton.1 hm]
      exact .inr ht
  | take now =>
    exact ⟨h.listeners, h.subscribers, h.commands,
      fun t ht => h.tasks t (List.mem_filter.1 ht).1, hn⟩
  | grant origin r ho => exact grant_licensed h ho
  | _ => exact h.mono hj hn h.listeners (fun _ _ _ => .inl) (fun _ _ => .inl) (fun _ => .inl)

namespace Moves

theorem nextId_le (h : Moves L w w') : w.nextId ≤ w'.nextId := by
  induction h with
  | refl => exact Nat.le_refl _
  | tail _ h ih => exact Nat.le_trans ih h.nextId_le

/-- Who is on a list was there before, or is new. -/
theorem listed_or_new (h : Moves L w w') {place : Place} {key : EventKey}
    {m : Member (Subscriber E)} (hm : m ∈ (w'.roster place).listed key) :
    m ∈ (w.roster place).listed key ∨ w.nextId ≤ m.id := by
  induction h with
  | refl => exact .inl hm
  | tail h₁ h₂ ih =>
    obtain ⟨place₀, key₀, m₀, hm₀, hl⟩ := h₂.listsGrow
    rcases hl place key m hm with hm | ⟨-, -, rfl, -⟩
    · exact ih hm
    · exact .inr (Nat.le_trans (nextId_le h₁) hm₀)

theorem journal_grows (h : Moves L w w') : w.journal.toList <+: w'.journal.toList := by
  induction h with
  | refl => exact List.prefix_refl _
  | tail _ h ih => exact ih.trans h.journal_grows

theorem licensed (h : Moves L w w') (hw : w.Licensed L) : w'.Licensed L := by
  induction h with
  | refl => exact hw
  | tail _ h ih => exact h.licensed ih

end Moves

end LiveModules
