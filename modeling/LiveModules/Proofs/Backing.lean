import LiveModules.Proofs.Spans

/-!
# Functions of scripts and the states they run in

A function of a script runs in the state of its surface. A surface that has a state keeps one, also
when it is superseded, and a run leaves its state before anything that it asks for is granted. So
between the operations of a site every function that the world holds has a state to run in
(`Site.Run.backed`).
-/

namespace LiveModules

attribute [local irreducible] lastOf

variable {E : Engine} {L : Licence} {C : FileTree → FileTree → Prop}

namespace World

variable {u v w w' : World E}

/-- There is a state to run functions of the surface in. -/
def HasState (w : World E) (surface : Nat) : Prop := ∃ state, w.states.find? surface = some state

end World

open World

/-- The function has a state to run in. -/
def ScriptFunction.Backed (w : World E) (f : ScriptFunction E) : Prop := w.HasState f.origin.surface

def Subscriber.Backed (w : World E) (s : Subscriber E) : Prop := ∀ f, s = .script f → f.Backed w

def CommandAction.Backed (w : World E) (a : CommandAction E) : Prop :=
  ∀ f, a = .script f → f.Backed w

def Task.Backed (w : World E) (t : Task E) : Prop := ∀ f, t = .script f → f.Backed w

namespace World

variable {u v w w' : World E}

/-- Every function that the world holds has a state to run in. -/
structure Backed (w : World E) : Prop where
  subscribers : ∀ place key, ∀ m ∈ (w.roster place).listed key, m.content.Backed w
  commands : ∀ key c, w.game.commands.find? key = some c → c.action.Backed w
  tasks : ∀ t ∈ w.timers.pending, t.task.Backed w

/-- States stay, and functions that came meanwhile have one. -/
structure Backs (w w' : World E) : Prop where
  states : ∀ surface, w.HasState surface → w'.HasState surface
  subscribers : ∀ place key, ∀ m ∈ (w'.roster place).listed key,
    m ∈ (w.roster place).listed key ∨ m.content.Backed w'
  commands : ∀ key c, w'.game.commands.find? key = some c →
    w.game.commands.find? key = some c ∨ c.action.Backed w'
  tasks : ∀ t ∈ w'.timers.pending, t ∈ w.timers.pending ∨ t.task.Backed w'

namespace Backs

theorem backed (h : Backs w w') (hw : w.Backed) : w'.Backed where
  subscribers place key m hm := (h.subscribers place key m hm).elim
    (fun hm f hf => h.states _ (hw.subscribers place key m hm f hf)) id
  commands key c hc := (h.commands key c hc).elim
    (fun hc f hf => h.states _ (hw.commands key c hc f hf)) id
  tasks t ht := (h.tasks t ht).elim (fun ht f hf => h.states _ (hw.tasks t ht f hf)) id

theorem refl (w : World E) : Backs w w :=
  ⟨fun _ => id, fun _ _ _ => .inl, fun _ _ => .inl, fun _ => .inl⟩

theorem trans (h : Backs u v) (h' : Backs v w) : Backs u w where
  states surface hs := h'.states surface (h.states surface hs)
  subscribers place key m hm := (h'.subscribers place key m hm).elim
    (fun hm => (h.subscribers place key m hm).imp_right
      fun hb f hf => h'.states _ (hb f hf)) .inr
  commands key c hc := (h'.commands key c hc).elim
    (fun hc => (h.commands key c hc).imp_right fun hb f hf => h'.states _ (hb f hf)) .inr
  tasks t ht := (h'.tasks t ht).elim
    (fun ht => (h.tasks t ht).imp_right fun hb f hf => h'.states _ (hb f hf)) .inr

theorem of_eq (hs : w'.states = w.states) (hl : w'.roster = w.roster)
    (hc : w'.game.commands = w.game.commands) (ht : w'.timers = w.timers) : Backs w w' where
  states surface h := by rwa [HasState, hs]
  subscribers place key m hm := .inl (by rwa [hl] at hm)
  commands key c h := .inl (by rwa [hc] at h)
  tasks t h := .inl (by rwa [ht] at h)

end Backs

/-! ## Requests -/

theorem subscribeScript_states (f : ScriptFunction E) (key : EventKey) :
    (w.subscribeScript f key).states = w.states := by
  rcases w.subscribeScript_cases f key with ⟨_, h⟩ | ⟨s, -, -, h⟩ <;> rw [h]
  rfl

/-- What a script asks for has its surface's state to run in. -/
theorem grant_backs {origin : Origin} (ho : w.HasState origin.surface)
    (r : Request E.Callback) : Backs w (w.grant origin r) := by
  cases r with
  | command key description callback =>
    refine ⟨fun _ => id, fun _ _ _ => .inl, fun key' c hc => ?_, fun _ => .inl⟩
    simp only [grant, Game.createCommand, Table.find?_insert] at hc
    split at hc
    · cases hc
      exact .inr fun f hf => (by cases hf; exact ho)
    · exact .inl hc
  | handler key callback =>
    have hs : (w.grant origin (.handler key callback)).states = w.states :=
      subscribeScript_states _ _
    have hg : (w.grant origin (.handler key callback)).game = w.game := subscribeScript_game _ _
    have ht : (w.grant origin (.handler key callback)).timers = w.timers :=
      subscribeScript_timers _ _
    refine ⟨fun surface h => by rwa [HasState, hs], fun place key' m hm => ?_,
      fun key' c hc => .inl (by rwa [hg] at hc), fun t h => .inl (by rwa [ht] at h)⟩
    rcases mem_listed_subscribeScript hm with hm | rfl
    · exact .inl hm
    · refine .inr fun f hf => ?_
      cases hf
      rw [ScriptFunction.Backed, HasState, hs]
      exact ho
  | timeout delayMs callback =>
    refine ⟨fun _ => id, fun _ _ _ => .inl, fun _ _ => .inl, fun t ht => ?_⟩
    rcases List.mem_append.1 ht with ht | ht
    · exact .inl ht
    · rw [List.mem_singleton.1 ht]
      exact .inr fun f hf => (by cases hf; exact ho)
  | _ => exact .of_eq rfl rfl rfl rfl

theorem grantAll_backs {origin : Origin} : ∀ (requests : List (Request E.Callback))
    {w : World E}, w.HasState origin.surface → Backs w (w.grantAll origin requests)
  | [], w, _ => .refl w
  | r :: requests, _, ho =>
    (grant_backs ho r).trans (grantAll_backs requests ((grant_backs ho r).states _ ho))

theorem finishRun_backs (origin : Origin) (r : Run E.State E.Callback) :
    Backs w (w.finishRun origin r) := by
  have hs : Backs w { w with states := w.states.insert origin.surface r.state } := by
    refine ⟨fun surface h => ?_, fun _ _ _ => .inl, fun _ _ => .inl, fun _ => .inl⟩
    rw [HasState, Table.find?_insert]
    split
    · exact ⟨_, rfl⟩
    · exact h
  have ho : HasState { w with states := w.states.insert origin.surface r.state } origin.surface :=
    ⟨r.state, Table.find?_insert_self ..⟩
  exact hs.trans (grantAll_backs r.requests ho)

/-! ## Calls and loads -/

theorem backs_spans {run : Performer E}
    (hr : ∀ {a w w' r}, run a w = some (w', r) → Backs w w') : Spans run Backs where
  refl := .refl
  trans := .trans
  stride {w w'} h := by
    cases h with
    | nested a r h => exact hr h
    | script origin r => exact finishRun_backs origin r
    | _ => exact .of_eq rfl rfl rfl rfl
  hear _ _ _ _ _ := .of_eq rfl rfl rfl rfl
  leave {_ _ _ place _ _} _ hu _ hv := (hu.trans hv).trans <| by
    refine ⟨?_, fun q key' m hm => .inl ?_, ?_, ?_⟩
    · cases place <;> exact fun _ => id
    · rw [listed_updateRoster_remove] at hm
      split at hm
      · exact (List.mem_filter.1 hm).1
      · exact hm
    · cases place <;> exact fun _ _ => .inl
    · cases place <;> exact fun _ => .inl
  command _ _ _ _ := .of_eq rfl rfl rfl rfl
  beginLoad w module modified := by
    refine ⟨fun _ => id, fun q key m hm => ?_, fun _ _ => .inl, fun _ => .inl⟩
    rw [listed_beginLoad] at hm
    split at hm
    · split at hm
      · rw [List.mem_singleton.1 hm]
        exact .inr fun f hf => (by cases hf)
      · cases hm
    · exact .inl hm
  loaded _ _ := .of_eq rfl rfl rfl rfl
  closeRecord _ _ _ := .of_eq rfl rfl rfl rfl
  settle _ := .of_eq rfl rfl rfl rfl
  unwritten _ _ _ := .of_eq rfl rfl rfl rfl

/-! ## Actions -/

theorem performPlain_backs (a : Action) : Backs w (w.performPlain a).1 := by
  have h := w.plain a
  generalize (w.performPlain a).1 = v at h
  cases h with
  | command _ key description react =>
    refine ⟨fun _ => id, fun _ _ _ => .inl, fun key' c hc => ?_, fun _ => .inl⟩
    simp only [Game.createCommand, Table.find?_insert] at hc
    split at hc
    · cases hc
      exact .inr fun f hf => (by cases hf)
    · exact .inl hc
  | schedule =>
    refine ⟨fun _ => id, fun _ _ _ => .inl, fun _ _ => .inl, fun t ht => ?_⟩
    rcases List.mem_append.1 ht with ht | ht
    · exact .inl ht
    · rw [List.mem_singleton.1 ht]
      exact .inr fun f hf => (by cases hf)
  | subscribe _ key label react =>
    refine ⟨fun _ => id, fun q key' m hm => ?_, fun _ _ => .inl, fun _ => .inl⟩
    rcases q with _ | _ | module
    · exact .inl hm
    · rcases Roster.mem_listed_add hm with hm | ⟨-, rfl⟩
      · exact .inl hm
      · exact .inr fun f hf => (by cases hf)
    · exact .inl hm
  | emitter _ emitter hsub =>
    refine ⟨fun _ => id, fun q key m hm => .inl ?_, fun _ _ => .inl, fun _ => .inl⟩
    cases q with
    | emitter => exact hsub key m hm
    | _ => exact hm
  | aside _ _ _ _ hc _ => exact .of_eq rfl rfl hc rfl
  | _ => exact .of_eq rfl rfl rfl rfl

theorem backs_pervades : Pervades (Backs : World E → World E → Prop) where
  covers hr := (backs_spans hr).toCovers
  remark _ _ _ := .of_eq rfl rfl rfl rfl
  flag _ _ := .of_eq rfl rfl rfl rfl
  take _ _ :=
    ⟨fun _ => id, fun _ _ _ => .inl, fun _ _ => .inl, fun _ ht => .inl (List.mem_filter.1 ht).1⟩
  plain _ a := performPlain_backs a

end World

theorem Site.Run.backed {s₀ s : Site E} (h : Run L C s₀ s) : s.world.Backed := by
  refine h.induction (P := fun s => s.world.Backed) (fun root files extension hs => ?_)
    fun s s' _ hw hs => ?_
  · subst hs
    refine ⟨fun place key m hm => ?_, fun key c hc => (by cases hc), fun t ht => (by cases ht)⟩
    cases place <;> cases hm
  · have hR : ∀ fuel, Spans (perform fuel) (Backs : World E → World E → Prop) := fun fuel =>
      backs_spans fun h => backs_pervades.perform fuel h
    exact (Spans.step hR (fun _ _ => .of_eq rfl rfl rfl rfl) hs).backed hw

end LiveModules
