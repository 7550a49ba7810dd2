import LiveModules.Proofs.Ownership
import LiveModules.Proofs.Records

/-!
# What a script registers

A request puts one entry into one of the tables that modules share, or one member on a list, or one
timer into the queue. So what stands in a table after all requests of a run is the last entry that
was asked for under its key, or what stood there before.
-/

namespace LiveModules

attribute [local irreducible] lastOf

/-- An entry of a table that modules share. -/
inductive Slot where
  | command (key : CommandKey)
  | room (id : String)
  | rule (key : SpawnKey)
  | player (name : String)
  deriving DecidableEq

namespace Request

/-- The entry that a request puts into a table. -/
def slot? {κ : Type} : Request κ → Option Slot
  | .command key .. => some (.command key)
  | .room id _ => some (.room id)
  | .item id template _ => some (.rule ⟨id, template.name⟩)
  | .character name _ => some (.player name)
  | _ => none

def room? {κ : Type} (id : String) : Request κ → Option Room
  | .room id' spec => if id = id' then some (.ofSpec id' spec) else none
  | _ => none

def player? {κ : Type} (name : String) : Request κ → Option Player
  | .character name' properties => if name = name' then some (.character name' properties) else none
  | _ => none

def notice? {κ : Type} : Request κ → Option Notice
  | .broadcast message => some ⟨.broadcast, message⟩
  | _ => none

/-- The change of the files of its module that a request asks for. -/
def write? {κ : Type} : Request κ → Option ArtifactWrite
  | .log line => some (.appendLog line)
  | _ => none

def prevents {κ : Type} : Request κ → Bool
  | .preventDefault => true
  | _ => false

variable {E : Engine} (o : Origin)

def command? (key : CommandKey) : Request E.Callback → Option (Command (CommandAction E))
  | .command key' description callback =>
    if key = key' then some ⟨description, .script ⟨o, callback⟩⟩ else none
  | _ => none

def rule? {κ : Type} (key : SpawnKey) : Request κ → Option (SpawnRule Float Owner)
  | .item id template secs =>
    if key = ⟨id, template.name⟩ then some ⟨key, template, secs, 0, .surface o.surface⟩ else none
  | _ => none

def subscriber? (key : EventKey) : Request E.Callback → Option (Subscriber E)
  | .handler key' callback => if key = key' then some (.script ⟨o, callback⟩) else none
  | _ => none

/-- The work that is put off, as time stands in `w`. -/
def work? {D : Type} (w : World E D) : Request E.Callback → Option (String × Float × Task E)
  | .timeout delayMs callback => some (o.module, w.dueAfter delayMs, .script ⟨o, callback⟩)
  | _ => none

variable {rs : List (Request E.Callback)}

/-- What is asked for under a key is asked for by a request for that entry. -/
theorem findSomeRev?_eq_none {κ α : Type} {f : Request κ → Option α} {slot : Slot}
    {rs : List (Request κ)} (hf : ∀ r, f r ≠ none → r.slot? = some slot)
    (h : slot ∉ rs.filterMap slot?) : rs.findSomeRev? f = none := by
  rw [List.findSomeRev?_eq_findSome?_reverse, List.findSome?_eq_none_iff]
  intro r hr
  by_contra hne
  exact h (List.mem_filterMap.2 ⟨r, List.mem_reverse.1 hr, hf r hne⟩)

theorem findSomeRev?_command (key : CommandKey) (h : .command key ∉ rs.filterMap slot?) :
    rs.findSomeRev? (command? o key) = none := by
  refine findSomeRev?_eq_none (fun r hr => ?_) h
  cases r with
  | command key' description callback =>
    simp only [command?, ne_eq, ite_eq_right_iff, not_forall] at hr
    rw [slot?, hr.1]
  | _ => exact absurd rfl hr

theorem findSomeRev?_room {κ : Type} {rs : List (Request κ)} (id : String)
    (h : .room id ∉ rs.filterMap slot?) : rs.findSomeRev? (room? id) = none := by
  refine findSomeRev?_eq_none (fun r hr => ?_) h
  cases r with
  | room id' spec =>
    simp only [room?, ne_eq, ite_eq_right_iff, not_forall] at hr
    rw [slot?, hr.1]
  | _ => exact absurd rfl hr

theorem findSomeRev?_rule {κ : Type} {rs : List (Request κ)} (key : SpawnKey)
    (h : .rule key ∉ rs.filterMap slot?) : rs.findSomeRev? (rule? o key) = none := by
  refine findSomeRev?_eq_none (fun r hr => ?_) h
  cases r with
  | item id template secs =>
    simp only [rule?, ne_eq, ite_eq_right_iff, not_forall] at hr
    rw [slot?, hr.1]
  | _ => exact absurd rfl hr

theorem findSomeRev?_player {κ : Type} {rs : List (Request κ)} (name : String)
    (h : .player name ∉ rs.filterMap slot?) : rs.findSomeRev? (player? name) = none := by
  refine findSomeRev?_eq_none (fun r hr => ?_) h
  cases r with
  | character name' properties =>
    simp only [player?, ne_eq, ite_eq_right_iff, not_forall] at hr
    rw [slot?, hr.1]
  | _ => exact absurd rfl hr

end Request

/-- What a timer is about, its place in the order of scheduling apart. -/
def Timer.work {α : Type} (t : Timer α) : String × Float × α := (t.module, t.due, t.task)

namespace World

section Folds

variable {σ ρ α τ : Type*} {step : σ → ρ → σ}

/-- What a view of the state shows after a fold is what the last step put there that put anything,
or what it showed before. -/
theorem foldl_findSomeRev? (look : σ → Option α) {put : ρ → Option α}
    (h : ∀ s r, look (step s r) = (put r).or (look s)) :
    ∀ (rs : List ρ) (s : σ), look (rs.foldl step s) = (rs.findSomeRev? put).or (look s)
  | [], _ => rfl
  | r :: rs, s => by
    rw [List.foldl_cons, foldl_findSomeRev? look h rs, h, ← Option.or_assoc, List.findSomeRev?]
    cases rs.findSomeRev? put
    · rfl
    · rfl

/-- What the steps of a fold put at the end of a list, seen by `view`, stands there in order. -/
theorem foldl_append (P : σ → Prop) (look : σ → List τ) {view : τ → α} {put : ρ → Option α}
    (hP : ∀ s r, P s → P (step s r))
    (h : ∀ s r, P s → ∃ new, look (step s r) = look s ++ new ∧ new.map view = (put r).toList) :
    ∀ (rs : List ρ) (s : σ), P s →
      ∃ new, look (rs.foldl step s) = look s ++ new ∧ new.map view = rs.filterMap put
  | [], _, _ => ⟨[], (List.append_nil _).symm, rfl⟩
  | r :: rs, s, hs => by
    obtain ⟨first, hl, hf⟩ := h s r hs
    obtain ⟨rest, hl', hr⟩ := foldl_append P look hP h rs _ (hP s r hs)
    refine ⟨first ++ rest, ?_, ?_⟩
    · rw [List.foldl_cons, hl', hl, List.append_assoc]
    · rw [List.map_append, hf, hr, List.filterMap_cons]
      cases put r
      · rfl
      · rfl

end Folds

variable {E : Engine} {D : Type} [Disk D] {o : Origin}

/-! ## One request -/

section Requests

variable (w : World E D) (o : Origin)

/-- A subscription changes the emitters of surfaces and the next number at most. -/
theorem grant_handler (key : EventKey) (callback : E.Callback) :
    ∃ surfaces retired nextId,
      w.grant o (.handler key callback) = { w with surfaces, retired, nextId } := by
  rcases w.subscribeScript_cases ⟨o, callback⟩ key with ⟨_, h⟩ | ⟨s, -, -, h⟩
  · exact ⟨w.surfaces, _, _, h⟩
  · exact ⟨_, w.retired, _, h⟩

theorem grant_log (line : String) :
    w.grant o (.log line) =
      { w.note (.logged o.module line) with
        disk := Disk.put w.disk o.module (.appendLog line) } :=
  write_eq_put ..

theorem grant_frame (r : Request E.Callback) :
    ∃ game spawns timers surfaces retired nextId journal disk,
      w.grant o r = { w with game, spawns, timers, surfaces, retired, nextId, journal, disk } := by
  cases r with
  | handler key callback =>
    obtain ⟨surfaces, retired, nextId, h⟩ := w.grant_handler o key callback
    exact ⟨_, _, _, surfaces, retired, nextId, _, _, h⟩
  | log line => exact ⟨_, _, _, _, _, _, _, _, w.grant_log o line⟩
  | _ => exact ⟨_, _, _, _, _, _, _, _, rfl⟩

theorem grant_commands (r : Request E.Callback) (key : CommandKey) :
    (w.grant o r).game.commands.find? key =
      (r.command? o key).or (w.game.commands.find? key) := by
  cases r with
  | command key' description callback =>
    simp only [grant, Game.createCommand, Table.find?_insert, Request.command?]
    split <;> rfl
  | handler key' callback =>
    obtain ⟨surfaces, retired, nextId, h⟩ := w.grant_handler o key' callback
    rw [h]
    rfl
  | log line =>
    rw [grant_log]
    rfl
  | _ => rfl

theorem grant_rooms (r : Request E.Callback) (id : String) :
    (w.grant o r).game.rooms.find? id = (r.room? id).or (w.game.rooms.find? id) := by
  cases r with
  | room id' spec =>
    simp only [grant, Game.createRoom, Table.find?_insert, Request.room?]
    split <;> rfl
  | handler key' callback =>
    obtain ⟨surfaces, retired, nextId, h⟩ := w.grant_handler o key' callback
    rw [h]
    rfl
  | log line =>
    rw [grant_log]
    rfl
  | _ => rfl

theorem grant_players (r : Request E.Callback) (name : String) :
    (w.grant o r).game.players.find? name =
      (r.player? name).or (w.game.players.find? name) := by
  cases r with
  | character name' properties =>
    have hname : (Player.character name' properties).name = name' := rfl
    simp only [grant, Game.createPlayer, Table.find?_insert, Request.player?, hname]
    split <;> rfl
  | handler key' callback =>
    obtain ⟨surfaces, retired, nextId, h⟩ := w.grant_handler o key' callback
    rw [h]
    rfl
  | log line =>
    rw [grant_log]
    rfl
  | _ => rfl

theorem grant_rules (r : Request E.Callback) (key : SpawnKey) :
    (w.grant o r).spawns.rules.find? key = (r.rule? o key).or (w.spawns.rules.find? key) := by
  cases r with
  | item id template secs =>
    simp only [grant, note, SpawnTable.register, Table.find?_insert, Request.rule?]
    split
    · rename_i h
      rw [h]
      rfl
    · rfl
  | handler key' callback =>
    obtain ⟨surfaces, retired, nextId, h⟩ := w.grant_handler o key' callback
    rw [h]
    rfl
  | log line =>
    rw [grant_log]
    rfl
  | _ => rfl

theorem grant_notices (r : Request E.Callback) :
    (w.grant o r).game.history = r.notice?.toList.foldl .push w.game.history ∧
      (w.grant o r).game.bus = r.notice?.toList.foldl .publish w.game.bus := by
  cases r with
  | handler key callback =>
    obtain ⟨surfaces, retired, nextId, h⟩ := w.grant_handler o key callback
    rw [h]
    exact ⟨rfl, rfl⟩
  | log line =>
    rw [grant_log]
    exact ⟨rfl, rfl⟩
  | _ => exact ⟨rfl, rfl⟩

theorem grant_flag (r : Request E.Callback) :
    (w.grant o r).game.defaultPrevented = (w.game.defaultPrevented || r.prevents) := by
  cases r with
  | preventDefault => exact (Bool.or_true _).symm
  | handler key callback =>
    obtain ⟨surfaces, retired, nextId, h⟩ := w.grant_handler o key callback
    rw [h]
    exact (Bool.or_false _).symm
  | log line =>
    rw [grant_log]
    exact (Bool.or_false _).symm
  | _ => exact (Bool.or_false _).symm

/-- The timer of a script comes behind those that were pending. -/
theorem grant_timers (r : Request E.Callback) :
    ∃ batch, (w.grant o r).timers.pending = w.timers.pending ++ batch ∧
      batch.map Timer.work = (r.work? o w).toList := by
  cases r with
  | timeout delayMs callback =>
    exact ⟨[⟨w.timers.nextSeq, o.module, w.dueAfter delayMs, .script ⟨o, callback⟩⟩], rfl, rfl⟩
  | handler key callback =>
    obtain ⟨surfaces, retired, nextId, h⟩ := w.grant_handler o key callback
    exact ⟨[], by rw [h, List.append_nil], rfl⟩
  | log line => exact ⟨[], by rw [grant_log, List.append_nil]; rfl, rfl⟩
  | _ => exact ⟨[], (List.append_nil _).symm, rfl⟩

/-- A script asks for changes of the files of its own module. -/
theorem grant_disk (r : Request E.Callback) :
    (w.grant o r).disk =
      r.write?.toList.foldl (fun disk a => Disk.put disk o.module a) w.disk := by
  cases r with
  | handler key callback =>
    obtain ⟨surfaces, retired, nextId, h⟩ := w.grant_handler o key callback
    rw [h]
    rfl
  | log line =>
    rw [grant_log]
    rfl
  | _ => rfl

end Requests

/-! ## Requests in turn -/

/-- What a script cannot change. -/
theorem grantAll_frame (w : World E D) (o : Origin) (rs : List (Request E.Callback)) :
    ∃ game spawns timers surfaces retired nextId journal disk,
      w.grantAll o rs =
        { w with game, spawns, timers, surfaces, retired, nextId, journal, disk } := by
  refine List.foldlRecOn
    (motive := fun v => ∃ game spawns timers surfaces retired nextId journal disk,
      v = { w with game, spawns, timers, surfaces, retired, nextId, journal, disk }) rs (grant o)
    ⟨w.game, w.spawns, w.timers, w.surfaces, w.retired, w.nextId, w.journal, w.disk, rfl⟩ ?_
  rintro _ ⟨game, spawns, timers, surfaces, retired, nextId, journal, disk, rfl⟩ r _
  obtain ⟨game', spawns', timers', surfaces', retired', nextId', journal', disk', h⟩ :=
    grant_frame { w with game, spawns, timers, surfaces, retired, nextId, journal, disk } o r
  exact ⟨_, _, _, _, _, _, _, _, h⟩

/-! ### The tables -/

theorem grantAll_commands (rs : List (Request E.Callback)) (w : World E D) (key : CommandKey) :
    (w.grantAll o rs).game.commands.find? key =
      (rs.findSomeRev? (Request.command? o key)).or (w.game.commands.find? key) :=
  foldl_findSomeRev? (fun w => w.game.commands.find? key)
    (fun w r => w.grant_commands o r key) rs w

theorem grantAll_rooms (rs : List (Request E.Callback)) (w : World E D) (id : String) :
    (w.grantAll o rs).game.rooms.find? id =
      (rs.findSomeRev? (Request.room? id)).or (w.game.rooms.find? id) :=
  foldl_findSomeRev? (fun w => w.game.rooms.find? id) (fun w r => w.grant_rooms o r id) rs w

theorem grantAll_players (rs : List (Request E.Callback)) (w : World E D) (name : String) :
    (w.grantAll o rs).game.players.find? name =
      (rs.findSomeRev? (Request.player? name)).or (w.game.players.find? name) :=
  foldl_findSomeRev? (fun w => w.game.players.find? name)
    (fun w r => w.grant_players o r name) rs w

theorem grantAll_rules (rs : List (Request E.Callback)) (w : World E D) (key : SpawnKey) :
    (w.grantAll o rs).spawns.rules.find? key =
      (rs.findSomeRev? (Request.rule? o key)).or (w.spawns.rules.find? key) :=
  foldl_findSomeRev? (fun w => w.spawns.rules.find? key) (fun w r => w.grant_rules o r key) rs w

/-! ### Notices -/

theorem grantAll_notices : ∀ (rs : List (Request E.Callback)) (w : World E D),
    (w.grantAll o rs).game.history = (rs.filterMap Request.notice?).foldl .push w.game.history ∧
      (w.grantAll o rs).game.bus = (rs.filterMap Request.notice?).foldl .publish w.game.bus
  | [], _ => ⟨rfl, rfl⟩
  | r :: rs, w => by
    obtain ⟨hh, hb⟩ := w.grant_notices o r
    obtain ⟨hh', hb'⟩ := grantAll_notices rs (w.grant o r)
    have hcons : (r :: rs).filterMap Request.notice? =
        r.notice?.toList ++ rs.filterMap Request.notice? := by
      rw [List.filterMap_cons]
      cases r.notice? <;> rfl
    rw [hcons, List.foldl_append, List.foldl_append, ← hh, ← hb]
    exact ⟨hh', hb'⟩

theorem grantAll_flag : ∀ (rs : List (Request E.Callback)) (w : World E D),
    (w.grantAll o rs).game.defaultPrevented = (w.game.defaultPrevented || rs.any Request.prevents)
  | [], _ => (Bool.or_false _).symm
  | r :: rs, w => by
    rw [List.any_cons, ← Bool.or_assoc, ← w.grant_flag o r]
    exact grantAll_flag rs (w.grant o r)

/-! ### Timers, files and lists -/

/-- The timers of a script come behind those that were pending. -/
theorem grantAll_timers (rs : List (Request E.Callback)) (w : World E D) :
    ∃ batch, (w.grantAll o rs).timers.pending = w.timers.pending ++ batch ∧
      batch.map Timer.work = rs.filterMap (Request.work? o w) := by
  refine foldl_append (fun v => v.clock = w.clock) (fun v => v.timers.pending)
    (fun v r hv => ?_) (fun v r hv => ?_) rs w rfl
  · obtain ⟨_, _, _, _, _, _, _, _, h⟩ := v.grant_frame o r
    rw [h]
    exact hv
  · have hwork : r.work? o v = r.work? o w := by
      cases r with
      | timeout delayMs callback => simp only [Request.work?, dueAfter, hv]
      | _ => rfl
    rw [← hwork]
    exact v.grant_timers o r

/-- A script asks for changes of the files of its own module. -/
theorem grantAll_disk (rs : List (Request E.Callback)) (w : World E) :
    (w.grantAll o rs).disk.toList =
      w.disk.toList ++ (rs.filterMap Request.write?).map (Prod.mk o.module) := by
  have hstep (v : World E) (r : Request E.Callback) : ∃ new : List (String × ArtifactWrite),
      (v.grant o r).disk.toList = v.disk.toList ++ new ∧
        new.map id = (r.write?.map (Prod.mk o.module)).toList := by
    rw [v.grant_disk o r]
    cases r.write? with
    | none => exact ⟨[], (List.append_nil _).symm, rfl⟩
    | some a => exact ⟨[(o.module, a)], Array.toList_push, rfl⟩
  obtain ⟨new, h, hn⟩ := foldl_append (fun _ => True) (fun v => v.disk.toList)
    (fun _ _ _ => trivial) (fun v r _ => hstep v r) rs w trivial
  rw [grantAll, h, List.map_filterMap, ← hn, List.map_id]

/-- The subscribers of a script whose surface is current come behind those that were there. -/
theorem grantAll_listed (rs : List (Request E.Callback)) (w : World E)
    (hw : w.surfaceId? o.module = some o.surface) (key : EventKey) :
    ∃ new, ((w.grantAll o rs).roster (.surface o.module)).listed key =
        (w.roster (.surface o.module)).listed key ++ new ∧
      new.map Member.content = rs.filterMap (Request.subscriber? o key) := by
  refine foldl_append (fun v => v.surfaceId? o.module = some o.surface)
    (fun v => (v.roster (.surface o.module)).listed key) (fun v r hv => ?_)
    (fun v r hv => ?_) rs w hw
  · cases r with
    | handler key' callback => rwa [grant, surfaceId?_subscribeScript]
    | _ => exact hv
  · cases r with
    | handler key' callback =>
      obtain ⟨s, hs, hid⟩ := Option.map_eq_some_iff.1 hv
      rw [grant, subscribeScript, if_pos (isCurrent_iff.2 ⟨s, hs, hid⟩),
        listed_updateRoster_add (w := { v with nextId := v.nextId + 1 }) hs]
      simp only [Request.subscriber?, true_and]
      split
      · exact ⟨[_], rfl, rfl⟩
      · exact ⟨[], (List.append_nil _).symm, rfl⟩
    | _ => exact ⟨[], (List.append_nil _).symm, rfl⟩

end World

end LiveModules
