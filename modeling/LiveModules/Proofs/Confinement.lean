import LiveModules.Proofs.Deliveries
import LiveModules.Proofs.Firing
import LiveModules.Proofs.Leaves
import LiveModules.Proofs.Lockstep
import LiveModules.Proofs.Requests

/-!
# Failures are confined

A step in which a call of a script fails and the same step in which the call is spared end in worlds
that differ in the scar of the fault only (`failure_confined`): nobody else is called, left out or
called with anything else.
-/

namespace LiveModules

open Artifacts

attribute [local irreducible] lastOf

variable {E : Engine} {L : Licence} {C : FileTree → FileTree → Prop} {s₀ s : Site E}
  {u v w w' : World E}

/-! ## What passes keep -/

theorem Pass.homes (h : Pass L w w') : World.Homes w w' := by
  intro place key m hm
  cases h with
  | turn h =>
    cases h with
    | move h =>
      cases h with
      | leave q id label event =>
        rw [World.listed_updateRoster_remove] at hm
        split at hm
        · exact .inl (List.mem_filter.1 hm).1
        · exact .inl hm
      | unlisten label =>
        obtain ⟨hub, he, -⟩ := w.unlisten_cases label
        exact .inl (by rwa [he] at hm)
      | subscribe key' label react => exact World.Homes.subscribe key' label react place key m hm
      | unsubscribe key' label =>
        obtain ⟨emitter, he, hsub⟩ := w.unsubscribe_cases key' label
        rw [he] at hm
        cases place with
        | emitter => exact .inl (hsub key m hm)
        | hub => exact .inl hm
        | surface => exact .inl hm
      | clear =>
        cases place with
        | emitter => cases hm
        | hub => exact .inl hm
        | surface => exact .inl hm
      | grant origin r =>
        cases r with
        | handler key' callback =>
          exact World.Homes.subscribeScript ⟨origin, callback⟩ key' place key m hm
        | _ => exact .inl hm
      | _ => exact .inl hm
    | beginLoad module modified =>
      rw [World.listed_beginLoad] at hm
      split at hm
      · split at hm
        · obtain rfl := List.mem_singleton.1 hm
          exact .inr nofun
        · cases hm
      · exact .inl hm
    | _ => exact .inl hm
  | _ => exact .inl hm

/-- Whatever is asked for is about modules that are allowed. -/
theorem Pass.named (h : Pass L w w') (hn : ∀ change ∈ w.disk.toList, L.module change.1) :
    ∀ change ∈ w'.disk.toList, L.module change.1 := by
  cases h with
  | turn h => exact Turns.named (.single h) hn
  | settle => exact fun _ hc => by cases hc
  | _ => exact hn

theorem Site.Run.hosted (h : Run L C s₀ s) (hw : Passes L s₀.world w) (surface : Nat) :
    w.Hosted ⟨surface, w.journal.toList⟩ where
  since := List.prefix_refl _
  numbered := (h.licensed hw).numbered
  homed := by
    refine h.passed_induction (P := fun w => ∀ place key, ∀ m ∈ (w.roster place).listed key,
      m.content.Homed place) (fun root place key m hm => ?_) ?_ hw
    · cases place <;> cases hm
    · exact fun v v' _ hv hp place key m hm => (hp.homes place key m hm).elim (hv place key m) id

theorem Site.Run.named (h : Run L C s₀ s) (hw : Passes L s₀.world w) :
    ∀ change ∈ w.disk.toList, L.module change.1 :=
  h.passed_induction (P := fun w => ∀ change ∈ w.disk.toList, L.module change.1)
    (fun _ _ hc => by cases hc) (fun _ _ _ hv hp => hp.named hv) hw

/-! ## Steps -/

/-- A step that calls somebody: an action, or the delivery of an event to one module. -/
inductive Errand where
  | act (a : Action)
  | deliver (module : String) (event : GameEvent)

namespace Errand

/-- Takes the step; callbacks nest to less than `fuel`. -/
def run (fuel : Nat) : Errand → World E → Option (World E × Answer)
  | act a, w => w.step (perform fuel) a
  | deliver module event, w =>
    (w.dispatch (perform fuel) (.surface module) event).map fun r => (r.1, .count r.2)

variable {fuel : Nat} {e : Errand} {r : Answer}

theorem run_runCommand (player line : String) :
    (Errand.act (.runCommand player line)).run fuel w =
      (w.runCommand (perform fuel) player line).map fun b => (b.1, World.answerOf b.2) := by
  rw [run, World.step_runCommand]

theorem run_moves (hL : ∀ a, L.action a) (hw : w.Licensed L)
    (h : e.run fuel w = some (w', r)) : Moves L w w' := by
  cases e with
  | act a => exact World.step_moves (perform_moves fuel) (hL a) hw h
  | deliver module event =>
    obtain ⟨⟨w₁, n⟩, h₁, h⟩ := Option.map_eq_some_iff.1 h
    cases h
    exact World.dispatch_moves (perform_moves fuel) hw h₁

theorem run_tied {k : Watch} (hw : w'.Hosted k) (h : Apart k w w')
    (hv : e.run fuel w' = some (v, r)) :
    TiedAt k (e.run fuel w) v r ∨
    ∃ player line x key, e = .act (.runCommand player line) ∧
      World.FailsCommand k w' player line x key ∧ v = x.after ∧ r = .flag true ∧
      e.run fuel w = some (x.suffered, .failed (.handler x.module key.verb x.detail)) := by
  cases e with
  | act a =>
    rcases World.step_tied (perform_tied k fuel) hw h hv with
      h | ⟨player, line, x, key, rfl, hx⟩
    · exact .inl h
    · exact .inr ⟨player, line, x, key, rfl, hx⟩
  | deliver module event =>
    have hd := World.dispatch_tied (perform_tied k fuel) hw h (.surface module) event
    have ht : TiedWith k ((Errand.deliver module event).run fuel w)
        ((Errand.deliver module event).run fuel w') :=
      hd.map (fun _ => rfl) fun _ _ hq => ⟨hq.1, congrArg Answer.count hq.2⟩
    exact .inl (ht.comes hv)

/-- Timers that are due are taken out of the queue for good, and all of them run, in order. -/
theorem run_runDue {now : Float} (hw : w.timers.Numbered)
    (h : (Errand.act (.runDue now)).run fuel w = some (u, r)) :
    (∀ t ∈ w.timers.due now, t.seq ∉ u.timers.seqs) ∧
    ∃ entries, w.Tells u entries ∧
      firings (outside Action.isRunDue 0 entries) = (w.timers.due now).map Timer.firing := by
  obtain ⟨⟨u', n⟩, hu, he⟩ := Option.map_eq_some_iff.1 h
  obtain ⟨rfl, -⟩ := Prod.mk.inj he
  obtain ⟨entries, ht, hl⟩ := World.runDue_timersTold (fun h => perform_timersTold fuel h) hu
  refine ⟨fun t ht hs => ?_, entries, ⟨ht.journal, ht.closed⟩, hl.own⟩
  obtain ⟨hpending, hdue⟩ := TimerQueue.mem_due.1 ht
  obtain ⟨t', ht', hseq⟩ := List.mem_map.1 hs
  rcases hl.fresh t' ht' with hold | hnew
  · obtain ⟨hpending', hdue'⟩ := TimerQueue.mem_afterTaking.1 hold
    obtain rfl : t' = t := hw.eq_of_seq hpending' hpending hseq
    exact hdue' hdue
  · have hlt := hw.lt t hpending
    have hle : w.timers.nextSeq ≤ t'.seq := hnew
    omega

end Errand

/-! ## What a fault leaves -/

namespace Fault

variable (x : Fault E)

/-- What the function asks for when it is called. -/
def requests : List (Request E.Callback) :=
  match x.world.states.find? x.function.origin.surface with
  | some state => (E.call state x.function.callback x.caller.args).requests
  | none => []

variable {x}

theorem requests_of_state {state : E.State}
    (hs : x.world.states.find? x.function.origin.surface = some state) :
    x.requests = (E.call state x.function.callback x.caller.args).requests := by
  unfold requests
  rw [hs]

/-- The commands are those from before the call, but for what the function asks for. -/
theorem after_commands (key : CommandKey) : x.after.game.commands.find? key =
    (x.requests.findSomeRev? (Request.command? x.function.origin key)).or
      (x.world.game.commands.find? key) := by
  unfold after
  rcases hs : x.world.states.find? x.function.origin.surface with _ | state
  · rw [World.callScript_of_no_state hs]
    unfold requests
    rw [hs]
    rfl
  · rw [World.callScript_of_state hs, requests_of_state hs]
    generalize E.call state x.function.callback x.caller.args = run
    have hgrant := World.grantAll_commands (o := x.function.origin) run.requests
      { x.world with states := x.world.states.insert x.function.origin.surface run.state } key
    cases run.failure with
    | none => exact hgrant
    | some detail => exact hgrant

theorem after_state {k : Watch} (hx : x.Genuine k) :
    ∃ state, x.after.states.find? x.function.origin.surface = some state := by
  obtain ⟨s, t, -, ht, -⟩ := hx.fails
  rw [← hx.own] at ht
  unfold after
  rw [World.callScript_of_state ht]
  generalize E.call t x.function.callback x.caller.args = run
  obtain ⟨_, _, _, _, _, _, _, _, hg⟩ := World.grantAll_frame
    { x.world with states := x.world.states.insert x.function.origin.surface run.state }
    x.function.origin run.requests
  have hs : (x.world.finishRun x.function.origin run).states.find? x.function.origin.surface =
      some run.state := by
    unfold World.finishRun
    rw [hg]
    exact Table.find?_insert_self _ _ _
  cases run.failure with
  | none => exact ⟨run.state, hs⟩
  | some detail => exact ⟨run.state, hs⟩

/-- Of the files, only the error file of the module differs; if nothing changes it later, it holds
what went wrong. -/
def OnErrorFile (x : Fault E) (os : List (String × ArtifactWrite)) (u v : World E) : Prop :=
  ∀ t : Site E, Tidy t.files v.root →
    (∀ p, place? t.files v.root errorsDir x.module ≠ some p →
      { t with world := u }.settle.files.nodes.find? p =
        { t with world := v }.settle.files.nodes.find? p) ∧
    ∀ p, place? t.files v.root errorsDir x.module = some p → t.files.nodes.find? p ≠ some .dir →
      (∀ c ∈ os, c.1 = x.module → c.2.dir ≠ errorsDir) →
      errorContent? { t with world := u }.settle.files v.root x.module = some x.detail.toUTF8

theorem Scar.onErrorFile {js : List Entry} {os : List (String × ArtifactWrite)} {ns : List Notice}
    (h : x.Scar js os ns u.marks v.marks) (hroot : u.root = v.root)
    (hm : ∀ c ∈ u.disk.toList, FileName.IsEntry c.1) : x.OnErrorFile os u v := by
  intro t htidy
  have hu : u.disk.toList = x.after.disk.toList ++ (x.module, .writeError x.detail) :: os :=
    h.disk_scar
  have hv : v.disk.toList = x.after.disk.toList ++ os := h.disk
  rw [Site.settle_files, Site.settle_files]
  simp only [hroot, hu, hv]
  rw [hu] at hm
  exact ⟨fun p hp => find?_editAll_without htidy hm hp,
    fun p hp hdir hafter => errorContent?_editAll htidy hm hp hdir hafter⟩

/-- The commands of `u` are those of `w`, but for what the function asked for; if that is nothing
that the line may mean, the line means the command `key` as before, and calls the function again. -/
structure Recalled (x : Fault E) (e : Errand) (w u : World E) (key : CommandKey)
    (call : CommandCall) (player line : String) : Prop where
  errand : e = .act (.runCommand player line)
  called : call = ⟨player, (CommandLine.ofText line).rest⟩
  bound : ∃ c, c.action = .script x.function ∧
    (CommandLine.ofText line).resolve w.game.commands = some (key, c)
  registered : ∀ k, u.game.commands.find? k =
    (x.requests.findSomeRev? (Request.command? x.function.origin k)).or
      (w.game.commands.find? k)
  again : (∀ k ∈ (CommandLine.ofText line).candidates,
      .command k ∉ x.requests.filterMap Request.slot?) →
    (∃ state, u.states.find? x.function.origin.surface = some state) ∧
    ∀ fuel, ∃ u' r, e.run fuel u = some (u', r) ∧
      u.journal.toList ++ [.commanded key none call] <+: u'.journal.toList

/-- How the run in which `x` fails ends, with `u` and `r`, beside the run in which it is spared,
which ends with `v` and `r'`. Both begin in `w`, but for a script state. -/
structure Confined (x : Fault E) (js : List Entry) (e : Errand) (w u v : World E)
    (r r' : Answer) : Prop where
  rest : u = v.mark u.marks
  scar : ∃ os ns, x.Scar js os ns u.marks v.marks ∧ x.OnErrorFile os u v
  answer : r = match x.caller with
    | .command key _ => .failed (.handler x.module key.verb x.detail)
    | _ => r'
  command : ∀ key call, x.caller = .command key call →
    ∃ player line, x.Recalled e w u key call player line
  /-- Timers that were due are not pending again, and all of them ran. -/
  batch : ∀ now, e = .act (.runDue now) → (∀ t ∈ w.timers.due now, t.seq ∉ u.timers.seqs) ∧
    ∃ entries, w.Tells u entries ∧
      firings (outside Action.isRunDue 0 entries) = (w.timers.due now).map Timer.firing

end Fault

/-! ## Two runs -/

/-- Worlds that differ in twin states of a surface are apart. -/
theorem Apart.of_spared {surface : Nat} {state twin : E.State} {told : List Entry}
    (hstate : w.states.find? surface = some state) (htwin : E.Spared state twin) :
    Apart ⟨surface, told⟩ w (w.withState surface twin) := by
  have hback : (w.states.insert surface twin).insert surface state = w.states := by
    rw [Table.insert_insert, Table.insert_of_find? hstate]
  have hw : w = (w.withState surface twin).mark { (w.withState surface twin).marks with
      states := (w.states.insert surface twin).insert surface state } := by
    rw [hback]
    rfl
  have hgap : Gap ⟨surface, told⟩ (w.withState surface twin).nextId
      { (w.withState surface twin).marks with
        states := (w.states.insert surface twin).insert surface state }
      (w.withState surface twin).marks :=
    .before htwin (Table.find?_insert_self _ _ _) rfl
  have h := Apart.intro hgap
  rwa [← hw] at h

/-- A line means what it meant as long as the commands that it may mean stay. -/
theorem CommandLine.resolve_congr {α : Type*} {line : CommandLine}
    {commands commands' : Table CommandKey α}
    (h : ∀ k ∈ line.candidates, commands.find? k = commands'.find? k) :
    line.resolve commands = line.resolve commands' := by
  unfold CommandLine.resolve
  generalize line.candidates = keys at h
  induction keys with
  | nil => rfl
  | cons k rest ih =>
    rw [List.findSome?_cons, List.findSome?_cons, h k List.mem_cons_self,
      ih fun k hk => h k (List.mem_cons_of_mem _ hk)]

namespace World

variable {k : Watch} {player line : String} {x : Fault E} {key : CommandKey}

/-- A line that means a function of a script calls it. -/
theorem runCommand_script (run : Performer E) (player : String) {c : Command (CommandAction E)}
    {f : ScriptFunction E} (ha : c.action = .script f)
    (hres : (CommandLine.ofText line).resolve w.game.commands = some (key, c)) :
    ∃ u r, w.runCommand run player line = some (u, r) ∧
      w.journal.toList ++ [.commanded key none ⟨player, (CommandLine.ofText line).rest⟩] <+:
        u.journal.toList := by
  rw [← Array.toList_push]
  unfold runCommand
  simp only [hres, ha]
  show ∃ u r, _ ∧ (w.note _).journal.toList <+: _
  generalize w.note _ = v
  rcases hcall : v.callScript f [.string player, .string (CommandLine.ofText line).rest] with
    ⟨u, failure⟩
  have hstrides : Strides (fun _ _ => none) v u := callScript_strides hcall
  have hon : Onward v u := (onward_pervades.covers fun h => by cases h).strides hstrides
  cases failure with
  | none => exact ⟨_, _, rfl, hon.journal⟩
  | some detail => exact ⟨_, _, rfl, hon.journal⟩

/-- A command that fails is called again when its line is run again. -/
theorem FailsCommand.recalled (h : FailsCommand k w' player line x key)
    (hc : w'.game.commands = w.game.commands) :
    x.Recalled (.act (.runCommand player line)) w x.suffered key
      ⟨player, (CommandLine.ofText line).rest⟩ player line := by
  have hcommands (k : CommandKey) : x.suffered.game.commands.find? k =
      (x.requests.findSomeRev? (Request.command? x.function.origin k)).or
        (w.game.commands.find? k) := by
    have hafter := x.after_commands k
    rw [h.world] at hafter
    rw [← hc]
    unfold Fault.suffered
    rw [h.caller]
    exact hafter
  obtain ⟨c, ha, hres⟩ := h.bound
  rw [hc] at hres
  refine ⟨rfl, rfl, ⟨c, ha, hres⟩, hcommands, fun hno => ⟨?_, fun fuel => ?_⟩⟩
  · obtain ⟨state, hs⟩ := Fault.after_state h.genuine
    refine ⟨state, ?_⟩
    unfold Fault.suffered
    rw [h.caller]
    exact hs
  · have hsame : (CommandLine.ofText line).resolve x.suffered.game.commands =
        (CommandLine.ofText line).resolve w.game.commands := by
      refine CommandLine.resolve_congr fun k hk => ?_
      rw [hcommands, Request.findSomeRev?_command _ k (hno k hk), Option.none_or]
    obtain ⟨u, r, hu, hj⟩ :=
      x.suffered.runCommand_script (perform fuel) player ha (hsame.trans hres)
    rw [Errand.run_runCommand, hu]
    exact ⟨u, _, rfl, hj⟩

end World

section Step

variable (h : Site.Run .entries C s₀ s) (hw : Passes .entries s₀.world w)
  (hw' : Passes .entries s₀.world w') (hroot : w'.root = w.root)
  {fuel : Nat} {e : Errand} {r r' : Answer} {x : Fault E}

include h hw hw' hroot

/-- Of the files, two runs of a step differ in the error file only if their worlds differ in a scar
only. -/
theorem Fault.Scar.onErrorFile_run {js : List Entry} {os : List (String × ArtifactWrite)}
    {ns : List Notice} (hs : x.Scar js os ns u.marks v.marks) (hu : e.run fuel w = some (u, r))
    (hv : e.run fuel w' = some (v, r')) : x.OnErrorFile os u v := by
  have hmu := Errand.run_moves (L := .entries) (fun _ => trivial) (h.licensed hw) hu
  have hmv := Errand.run_moves (L := .entries) (fun _ => trivial) (h.licensed hw') hv
  refine hs.onErrorFile (hmu.turns.root.trans (hmv.turns.root.trans hroot).symm) ?_
  exact h.named (hw.trans hmu.turns.passes)

/-- A handler or a timeout failed, and the step went on. -/
theorem Fault.Scar.confined {js : List Entry} {os : List (String × ArtifactWrite)}
    {ns : List Notice} (hs : x.Scar js os ns u.marks v.marks) (hwithin : x.caller.Within v.nextId)
    (hrest : u = v.mark u.marks) (hu : e.run fuel w = some (u, r))
    (hv : e.run fuel w' = some (v, r)) : x.Confined js e w u v r r where
  rest := hrest
  scar := ⟨os, ns, hs, hs.onErrorFile_run h hw hw' hroot hu hv⟩
  answer := by
    rcases hc : x.caller with _ | _ | _
    · rfl
    · rw [hc] at hwithin
      exact hwithin.elim
    · rfl
  command key call hc := by
    rw [hc] at hwithin
    exact hwithin.elim
  batch now he := Errand.run_runDue (h.timers_numbered hw) (he ▸ hu)

/-- The command that the step runs failed. -/
theorem World.FailsCommand.confined {k : Watch} {player line : String} {key : CommandKey}
    (hx : FailsCommand k w' player line x key) (hcommands : w'.game.commands = w.game.commands)
    (hu : (Errand.act (.runCommand player line)).run fuel w =
      some (x.suffered, .failed (.handler x.module key.verb x.detail)))
    (hv : (Errand.act (.runCommand player line)).run fuel w' = some (x.after, r')) :
    x.Confined [] (.act (.runCommand player line)) w x.suffered x.after
      (.failed (.handler x.module key.verb x.detail)) r' where
  rest := by
    unfold Fault.suffered
    rw [hx.caller]
    rfl
  scar :=
    have hs : x.Scar [] [] [] x.suffered.marks x.after.marks := Fault.scar_suffered
    ⟨[], [], hs, hs.onErrorFile_run h hw hw' hroot hu hv⟩
  answer := by rw [hx.caller]
  command key' call hc := by
    rw [hx.caller] at hc
    cases hc
    exact ⟨player, line, hx.recalled hcommands⟩
  batch now he := Errand.run_runDue (h.timers_numbered hw) (he ▸ hu)

end Step

/-- Failures are confined. Let a step be taken in any world that a run passes through, and let the
state of some surface have a twin, in which one of the calls that fail is spared. If the step comes
to something with the twin, then either no such call is made and it comes to the same without; or
one is made, which is where the two runs part: up to its end they tell the same, and then the one
without the twin tells of the failure. If nothing hangs on how the call ended that is told
afterwards, this one comes to something, too, and there is nothing to see of the failure but its
scar. -/
theorem failure_confined (h : Site.Run .entries C s₀ s) (hw : Passes .entries s₀.world w)
    {surface : Nat} {state twin : E.State} (hstate : w.states.find? surface = some state)
    (htwin : E.Spared state twin) {fuel : Nat} {e : Errand} {r' : Answer}
    (hv : e.run fuel (w.withState surface twin) = some (v, r')) :
    (∃ u, e.run fuel w = some (u, r') ∧ ∃ state' twin', E.Spared state' twin' ∧
      v.states.find? surface = some twin' ∧ u = v.withState surface state') ∨
    ∃ (x : Fault E) (js : List Entry), x.Genuine ⟨surface, w.journal.toList⟩ ∧
      v.journal.toList = x.after.journal.toList ++ js ∧
      (∀ u r, e.run fuel w = some (u, r) →
        x.after.journal.toList ++ x.told <+: u.journal.toList) ∧
      (x.caller.Alone js →
        ∃ u r, e.run fuel w = some (u, r) ∧ x.Confined js e w u v r r') := by
  have hpass : Passes .entries s₀.world (w.withState surface twin) :=
    hw.tail (.turn (.move (.keepState w surface twin)))
  have hhost : (w.withState surface twin).Hosted ⟨surface, w.journal.toList⟩ :=
    h.hosted hpass surface
  rcases Errand.run_tied hhost (Apart.of_spared hstate htwin) hv with
    (⟨x, js, hx, hj, hlost, htold⟩ | ⟨u, hu, ha⟩) | ⟨player, line, x, key, rfl, hx, rfl, rfl, hu⟩
  · refine .inr ⟨x, js, hx, hj, fun u r hu => htold u ?_, fun halone => absurd halone hlost⟩
    rw [hu]
    rfl
  · cases ha with
    | intro hg =>
      cases hg with
      | before hs ht hm =>
        subst hm
        exact .inl ⟨_, hu, _, _, hs, ht, rfl⟩
      | @after x js os ns hx hwithin hs =>
        refine .inr ⟨x, js, hx, hs.journal, fun u r hu' => ?_, fun _ => ⟨_, r', hu, ?_⟩⟩
        · obtain ⟨rfl, -⟩ := Prod.mk.inj (Option.some.inj (hu'.symm.trans hu))
          exact hs.told_of
        · exact hs.confined h hw hpass rfl hwithin rfl hu hv
  · refine .inr ⟨x, [], hx.genuine, (List.append_nil _).symm, fun u r hu' => ?_,
      fun _ => ⟨_, _, hu, hx.confined h hw hpass rfl rfl hu hv⟩⟩
    obtain ⟨rfl, -⟩ := Prod.mk.inj (Option.some.inj (hu'.symm.trans hu))
    have hs : x.Scar [] [] [] x.suffered.marks x.after.marks := Fault.scar_suffered
    exact hs.told_of

/-! ## Languages that forgive -/

namespace Engine

/-- The language in which a state can forgive a failure: of the calls that fail, one ends well, `n`
being how many come before it. -/
def forgiving (E : Engine) : Engine where
  State := E.State × Option Nat
  Callback := E.Callback
  load module source :=
    let r := E.load module source
    ⟨r.requests, r.failure, (r.state, none)⟩
  call state callback args :=
    let r := E.call state.1 callback args
    match r.failure, state.2 with
    | some _, some 0 => ⟨r.requests, none, (r.state, none)⟩
    | some detail, some (n + 1) => ⟨r.requests, some detail, (r.state, some n)⟩
    | failure, pardon => ⟨r.requests, failure, (r.state, pardon)⟩

/-- Whatever the language, a call that fails has its twin that is spared. -/
theorem forgiving_spared (E : Engine) (s : E.State) (n : Nat) :
    E.forgiving.Spared (s, none) (s, some n) := by
  refine ⟨fun s t => s.2 = none ∧ s.1 = t.1, ?_, rfl, rfl⟩
  rintro ⟨s, _⟩ ⟨t, pardon⟩ ⟨rfl, rfl⟩ f args
  simp only [forgiving]
  rcases (E.call s f args).failure with _ | detail
  · exact .inl ⟨rfl, rfl, rfl, rfl⟩
  · rcases pardon with _ | _ | n
    · exact .inl ⟨rfl, rfl, rfl, rfl⟩
    · exact .inr ⟨detail, rfl, rfl, rfl, rfl⟩
    · exact .inl ⟨rfl, rfl, rfl, rfl⟩

end Engine

/-- A call is told of before it ends. -/
theorem Fault.Genuine.entry_mem {k : Watch} {x : Fault E} (hx : x.Genuine k) :
    x.caller.entry ∈ x.after.journal.toList := by
  obtain ⟨w, hw, -⟩ := hx.called
  have hstrides : World.Strides (fun _ _ => none) x.world x.after := World.callScript_strides rfl
  have hon : World.Onward x.world x.after :=
    (World.onward_pervades.covers fun h => by cases h).strides hstrides
  refine hon.journal.subset ?_
  rw [hw]
  simp [World.note]

/-- More is told where a call fails. -/
theorem Fault.Confined.size_lt {x : Fault E} {js : List Entry} {e : Errand} {r r' : Answer}
    (h : x.Confined js e w u v r r') : v.journal.size < u.journal.size := by
  obtain ⟨os, ns, hs, -⟩ := h.scar
  have hu : u.journal.toList.length = _ := congrArg List.length hs.journal_scar
  have hv : v.journal.toList.length = _ := congrArg List.length hs.journal
  simp only [Fault.told, List.length_append, List.length_cons, Array.length_toList] at hu hv
  omega

/-- Who is called by number, actions nested or not. -/
def heardBy (entries : List Entry) : List Nat := (entries.filterMap Entry.delivery?).map (·.2.1)

theorem mem_heardBy {entries : List Entry} {place : Place} {id : Nat} {label : Option String}
    {event : GameEvent} (h : .heard place id label event ∈ entries) : id ∈ heardBy entries :=
  List.mem_map.2 ⟨(place, id, event), List.mem_filterMap.2 ⟨_, h, rfl⟩, rfl⟩

/-- Two functions hear a bell, and the first of them fails. -/
def clumsy : Engine :=
  .ofRuns (fun _ => ([.handler (.unscoped "bell") 0, .handler (.unscoped "bell") 1], none))
    fun n => ([.broadcast "ding"], if n = 0 then some "broken" else none)

def bell : Errand := .deliver "a.lua" ⟨.unscoped "bell", []⟩

/-- The handler that fails leaves, and the other one hears the bell all the same. -/
theorem broken_bell_confined :
    ∃ (s : Site clumsy.forgiving) (x : Fault clumsy.forgiving) (js : List Entry)
      (u v : World clumsy.forgiving) (r r' : Answer),
      Site.Run .entries (fun _ _ => True) (.start "world" .empty none) s ∧
      s.world.states.find? 1 = some ((), none) ∧
      clumsy.forgiving.Spared ((), none) ((), some 0) ∧
      bell.run 3 (s.world.withState 1 ((), some 0)) = some (v, r') ∧
      bell.run 3 s.world = some (u, r) ∧ heardBy u.journal.toList = [3, 4] ∧
      x.caller.Alone js ∧ x.Confined js bell s.world u v r r' := by
  let s₀ : Site clumsy.forgiving := .start "world" .empty none
  let s := s₀.reload "a.lua" ⟨100, 0⟩ ""
  have ha : FileName.IsEntry "a.lua" := ⟨by decide, by decide, by decide, by decide⟩
  have hrun : Site.Run .entries (fun _ _ => True) s₀ s :=
    (Site.Run.refl "world" .empty none).tail (.reload s₀ "a.lua" ⟨100, 0⟩ "" ha)
  have hstate : (s.world.states.find? 1).map Prod.snd = some none := by decide +kernel
  obtain ⟨⟨⟨⟩, _⟩, hfind, rfl⟩ := Option.map_eq_some_iff.1 hstate
  have hfails : (bell.run 3 s.world).map (fun r =>
      (r.1.journal.size, heardBy r.1.journal.toList)) = some (7, [3, 4]) := by decide +kernel
  have hspared : (bell.run 3 (s.world.withState 1 ((), some 0))).map (fun r =>
      (r.1.journal.size, heardBy r.1.journal.toList, r.1.journal.toList.all fun
        | .commanded .. => false
        | _ => true)) = some (5, [3, 4], true) := by decide +kernel
  obtain ⟨⟨v, r'⟩, hv, hvj⟩ := Option.map_eq_some_iff.1 hspared
  simp only [Prod.mk.injEq] at hvj
  obtain ⟨hvsize, hvheard, hvonly⟩ := hvj
  have hsize {u : World clumsy.forgiving} {r : Answer} (hu : bell.run 3 s.world = some (u, r)) :
      u.journal.size = 7 ∧ heardBy u.journal.toList = [3, 4] := by
    rw [hu] at hfails
    exact Prod.mk.inj (Option.some.inj hfails)
  have htwin := clumsy.forgiving_spared () 0
  rcases failure_confined hrun hrun.passes hfind htwin hv with
    ⟨u, hu, state', twin', -, -, rfl⟩ | ⟨x, js, hx, hj, -, hconfined⟩
  · have hsame : v.journal.size = 7 := (hsize hu).1
    omega
  · have hcalled : x.caller.entry ∈ v.journal.toList := hj ▸ List.mem_append_left js hx.entry_mem
    have hheard : heardBy x.after.journal.toList ++ heardBy js = [3, 4] := by
      rw [← hvheard, hj, heardBy, heardBy, heardBy, List.filterMap_append, List.map_append]
    have hdisjoint := (List.nodup_append.1 (hheard ▸ (by decide : [3, 4].Nodup))).2.2
    have halone : x.caller.Alone js := by
      have hentry := hx.entry_mem
      rcases hc : x.caller with ⟨module, id, event⟩ | ⟨key, call⟩ | seq <;>
        rw [hc] at hentry hcalled
      · intro label event' hjs
        exact hdisjoint id (mem_heardBy hentry) id (mem_heardBy hjs) rfl
      · cases List.all_eq_true.1 hvonly _ hcalled
      · trivial
    obtain ⟨u, r, hu, hconfined⟩ := hconfined halone
    exact ⟨s, x, js, u, v, r, r', hrun, hfind, htwin, hv, hu, (hsize hu).2, halone, hconfined⟩

/-- A script that fails whenever it is called: on a spawn and on a command. -/
def spiteful : Engine :=
  .ofRuns (fun _ => ([.room "plaza" ⟨"", ∅, []⟩, .item "plaza" ⟨"sword", []⟩ 1,
      .item "plaza" ⟨"torch", []⟩ 1, .handler (.unscoped "spawn") 0,
      .command ⟨"dance", none⟩ "" 0], none))
    fun _ => ([], some "no")

def cue : GameEvent := ⟨.unscoped "cue", []⟩

/-- Has somebody dance, and looks at the timers if that went well. -/
def impresario : Plan :=
  .act (.runCommand "alice" "dance") fun
    | .failed _ => .finish .keep
    | _ => .act .pendingTimers fun _ => .finish .keep

/-- The handler that failed is not called for the second item, and who ran the command that failed
goes on in another way: in both steps less is told where the call fails. -/
theorem failure_spreads :
    ∃ s : Site spiteful.forgiving,
      Site.Run .entries (fun _ _ => True) (.start "world" .empty none) s ∧
      s.world.states.find? 1 = some ((), none) ∧
      spiteful.forgiving.Spared ((), none) ((), some 0) ∧
      ∀ e ∈ [Errand.act (.emit Site.tickEvent), .act (.emit cue)], ∃ u v r r',
        e.run 5 s.world = some (u, r) ∧
        e.run 5 (s.world.withState 1 ((), some 0)) = some (v, r') ∧
        (∀ state', u ≠ v.withState 1 state') ∧
        ∀ (x : Fault spiteful.forgiving) (js : List Entry),
          ¬ x.Confined js e s.world u v r r' := by
  let s₀ : Site spiteful.forgiving := .start "world" .empty none
  let s₁ := s₀.reload "a.lua" ⟨100, 0⟩ ""
  have ha : FileName.IsEntry "a.lua" := ⟨by decide, by decide, by decide, by decide⟩
  have hact : (s₁.actAll 3 [.setClock 10, .on cue.key "cue" fun _ _ => impresario]).map (fun s =>
      ((s.world.states.find? 1).map Prod.snd,
        [Errand.act (.emit Site.tickEvent), .act (.emit cue)].map fun e =>
          ((e.run 5 s.world).map (·.1.journal.size),
            (e.run 5 (s.world.withState 1 ((), some 0))).map (·.1.journal.size)))) =
      some (some none, [(some 20, some 21), (some 16, some 18)]) := by
    decide +kernel
  obtain ⟨s, hs, he⟩ := Option.map_eq_some_iff.1 hact
  simp only [Prod.mk.injEq, List.map_cons, List.map_nil, List.cons.injEq, and_true] at he
  obtain ⟨hstate, ⟨htick, htick'⟩, hcue, hcue'⟩ := he
  have hrun : Site.Run .entries (fun _ _ => True) s₀ s :=
    ((Site.Run.refl "world" .empty none).tail (.reload s₀ "a.lua" ⟨100, 0⟩ "" ha)).actAll
      (fun _ _ => trivial) hs
  obtain ⟨⟨⟨⟩, _⟩, hfind, rfl⟩ := Option.map_eq_some_iff.1 hstate
  have spread {e : Errand} {n n' : Nat} (hn : n < n')
      (h : (e.run 5 s.world).map (·.1.journal.size) = some n)
      (h' : (e.run 5 (s.world.withState 1 ((), some 0))).map (·.1.journal.size) = some n') :
      ∃ u v r r', e.run 5 s.world = some (u, r) ∧
        e.run 5 (s.world.withState 1 ((), some 0)) = some (v, r') ∧
        (∀ state', u ≠ v.withState 1 state') ∧
        ∀ (x : Fault spiteful.forgiving) (js : List Entry),
          ¬ x.Confined js e s.world u v r r' := by
    obtain ⟨⟨u, r⟩, hu, rfl⟩ := Option.map_eq_some_iff.1 h
    obtain ⟨⟨v, r'⟩, hv, rfl⟩ := Option.map_eq_some_iff.1 h'
    refine ⟨u, v, r, r', hu, hv, fun state' hstate' => ?_, fun x js hc => ?_⟩
    · have hsize : u.journal.size = v.journal.size := by
        rw [hstate']
        rfl
      exact absurd hn (by simp [hsize])
    · exact absurd hc.size_lt (Nat.not_lt_of_lt hn)
  refine ⟨s, hrun, hfind, spiteful.forgiving_spared () 0, fun e hm => ?_⟩
  rcases List.mem_cons.1 hm with rfl | hm
  · exact spread (by decide) htick htick'
  · obtain rfl := List.mem_singleton.1 hm
    exact spread (by decide) hcue hcue'

end LiveModules
