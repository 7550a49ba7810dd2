import LiveModules.Proofs.Capabilities
import LiveModules.Proofs.Leaves
import LiveModules.Proofs.Noninterference
import LiveModules.Proofs.Requests

/-!
# All or nothing

What the host does for one request of a script is one entry, one timer, one subscriber, one notice,
one line or the flag (`World.granted`). So a call of a capability that raises an error leaves the
host as it was, and one that returns has done the one thing it stands for (`call_all_or_nothing`).
Only a line may come to nothing: the file system may refuse it, which the call never learns.
-/

namespace LiveModules

attribute [local irreducible] lastOf

/-! ## What comes of a request -/

namespace World

variable {E : Engine} {D : Type}

/-! ### Subscribers -/

theorem isCurrent_subscribeScript (w : World E D) (f : ScriptFunction E) (key : EventKey)
    (o : Origin) : (w.subscribeScript f key).isCurrent o = w.isCurrent o := by
  rcases w.subscribeScript_cases f key with ⟨_, h⟩ | ⟨s, hs, -, h⟩ <;> rw [h]
  · rfl
  · simp only [isCurrent, updateRoster]
    by_cases hm : o.module = f.origin.module
    · rw [hm, Table.find?_modify_self, hs]
      rfl
    · rw [Table.find?_modify_of_ne _ hm]

/-- Current or superseded, the surface that a script comes from gets the subscriber. -/
theorem listed_subscribeScript (w : World E D) (f : ScriptFunction E) (key' key : EventKey) :
    ((w.subscribeScript f key').emitterOf f.origin).listed key =
      (w.emitterOf f.origin).listed key ++
        if key = key' then [⟨w.nextId, .script f⟩] else [] := by
  unfold emitterOf
  rw [isCurrent_subscribeScript]
  unfold subscribeScript
  cases hc : w.isCurrent f.origin with
  | true =>
    obtain ⟨s, hs, -⟩ := isCurrent_iff.1 hc
    simp only [↓reduceIte]
    rw [listed_updateRoster_add (w := { w with nextId := w.nextId + 1 }) hs]
    simp only [true_and]
    split
    · rfl
    · exact (List.append_nil _).symm
  | false =>
    simp only [Bool.false_eq_true, ↓reduceIte, retiree, Table.find?_insert, Option.getD_some,
      Roster.listed_add]
    split
    · rename_i hk
      rw [hk]
    · exact (List.append_nil _).symm

theorem roster_subscribeScript (w : World E D) (f : ScriptFunction E) (key : EventKey)
    {place : Place} (h : place = .surface f.origin.module → w.isCurrent f.origin = false) :
    (w.subscribeScript f key).roster place = w.roster place := by
  unfold subscribeScript
  cases hc : w.isCurrent f.origin with
  | false => cases place <;> rfl
  | true =>
    cases place with
    | surface module =>
      have hm : module ≠ f.origin.module := fun he =>
        Bool.noConfusion (hc.symm.trans (h (congrArg Place.surface he)))
      simp only [↓reduceIte, roster, updateRoster, Table.find?_modify_of_ne _ hm]
    | _ => rfl

theorem retiree_subscribeScript (w : World E D) (f : ScriptFunction E) (key : EventKey)
    {surface : Nat} (h : surface = f.origin.surface → w.isCurrent f.origin = true) :
    (w.subscribeScript f key).retiree surface = w.retiree surface := by
  unfold subscribeScript
  cases hc : w.isCurrent f.origin with
  | true => rfl
  | false =>
    have hs : surface ≠ f.origin.surface := fun he => Bool.noConfusion (hc.symm.trans (h he))
    simp only [Bool.false_eq_true, ↓reduceIte, retiree, Table.find?_insert, if_neg hs]

/-! ### All requests -/

variable [Disk D]

/-- What was done for a request of a script: one entry, one timer, one subscriber, one notice, one
line, or the flag is set. A surface keeps its emitter when it is superseded, so its scripts
subscribe to it all the same. -/
structure Granted (o : Origin) (r : Request E.Callback) (w w' : World E D) : Prop where
  commands : ∀ key, w'.game.commands.find? key = (r.command? o key).or (w.game.commands.find? key)
  rooms : ∀ id, w'.game.rooms.find? id = (r.room? id).or (w.game.rooms.find? id)
  players : ∀ name, w'.game.players.find? name = (r.player? name).or (w.game.players.find? name)
  rules : ∀ key, w'.spawns.rules.find? key = (r.rule? o key).or (w.spawns.rules.find? key)
  timers : ∃ batch, w'.timers.pending = w.timers.pending ++ batch ∧
    batch.map Timer.work = (r.work? o w).toList
  current : ∀ o', w'.isCurrent o' = w.isCurrent o'
  subscribers : ∀ key, ∃ new, (w'.emitterOf o).listed key = (w.emitterOf o).listed key ++ new ∧
    new.map Member.content = (r.subscriber? o key).toList
  rosters : ∀ place, (place = .surface o.module → w.isCurrent o = false) →
    w'.roster place = w.roster place
  retirees : ∀ surface, (surface = o.surface → w.isCurrent o = true) →
    w'.retiree surface = w.retiree surface
  history : w'.game.history = r.notice?.toList.foldl .push w.game.history
  bus : w'.game.bus = r.notice?.toList.foldl .publish w.game.bus
  flag : w'.game.defaultPrevented = (w.game.defaultPrevented || r.prevents)
  disk : w'.disk = r.write?.toList.foldl (fun disk a => Disk.put disk o.module a) w.disk
  others : ∃ game spawns timers surfaces retired nextId journal disk,
    w' = { w with game, spawns, timers, surfaces, retired, nextId, journal, disk }

/-- Other requests than subscriptions leave the emitters alone. -/
theorem grant_emitters (w : World E D) (o : Origin) {r : Request E.Callback}
    (hr : ∀ key callback, r ≠ .handler key callback) :
    (w.grant o r).surfaces = w.surfaces ∧ (w.grant o r).retired = w.retired ∧
      (w.grant o r).emitter = w.emitter := by
  cases r with
  | handler key callback => exact absurd rfl (hr key callback)
  | log line =>
    rw [grant_log]
    exact ⟨rfl, rfl, rfl⟩
  | _ => exact ⟨rfl, rfl, rfl⟩

theorem granted (w : World E D) (o : Origin) (r : Request E.Callback) :
    Granted o r w (w.grant o r) := by
  have hrest := Granted.mk (w.grant_commands o r) (w.grant_rooms o r) (w.grant_players o r)
    (w.grant_rules o r) (w.grant_timers o r)
  obtain ⟨hhistory, hbus⟩ := w.grant_notices o r
  by_cases hr : ∃ key callback, r = .handler key callback
  · obtain ⟨key', callback, rfl⟩ := hr
    let f : ScriptFunction E := ⟨o, callback⟩
    refine hrest (w.isCurrent_subscribeScript f key') (fun key => ?_)
      (fun _ h => w.roster_subscribeScript f key' h)
      (fun _ h => w.retiree_subscribeScript f key' h) hhistory hbus (w.grant_flag o _)
      (w.grant_disk o _) (w.grant_frame o _)
    refine ⟨_, w.listed_subscribeScript f key' key, ?_⟩
    simp only [Request.subscriber?]
    split <;> rfl
  · have hne : ∀ key callback, r ≠ .handler key callback := fun key callback he =>
      hr ⟨key, callback, he⟩
    obtain ⟨hs, hret, he⟩ := w.grant_emitters o hne
    have hcurrent (o' : Origin) : (w.grant o r).isCurrent o' = w.isCurrent o' := by
      rw [isCurrent, hs, isCurrent]
    have hroster (place : Place) : (w.grant o r).roster place = w.roster place := by
      cases place with
      | hub => rfl
      | emitter => exact he
      | surface module => rw [roster, hs, roster]
    have hretiree (surface : Nat) : (w.grant o r).retiree surface = w.retiree surface := by
      rw [retiree, hret, retiree]
    refine hrest hcurrent (fun key => ⟨[], ?_, ?_⟩) (fun place _ => hroster place)
      (fun surface _ => hretiree surface) hhistory hbus (w.grant_flag o r) (w.grant_disk o r)
      (w.grant_frame o r)
    · rw [emitterOf, hcurrent, hroster, hretiree, List.append_nil, emitterOf]
    · cases r with
      | handler key' callback => exact absurd rfl (hne key' callback)
      | _ => rfl

theorem grantAll_append (w : World E D) (o : Origin) (rs rs' : List (Request E.Callback)) :
    w.grantAll o (rs ++ rs') = (w.grantAll o rs).grantAll o rs' :=
  List.foldl_append

theorem granted_last (w : World E D) (o : Origin) (rs rs' : List (Request E.Callback))
    (r : Request E.Callback) :
    Granted o r ((w.grantAll o rs).grantAll o rs') (w.grantAll o (rs ++ rs' ++ [r])) := by
  rw [grantAll_append, grantAll_append]
  exact granted ..

end World

namespace Artifacts

variable {t t' : FileTree} {root module line : String}

/-- `t'` is `t` with a line at the end of the file that the path of the log leads to. -/
def Appended (t t' : FileTree) (root module line : String) : Prop :=
  ∃ path place old readable, FilePath.ofText (logPath root module) = .ok path ∧
    t.resolve path = .ok place ∧
    (t.node? place = none ∧ old = .empty ∧ readable = true ∨
      ∃ modified, t.node? place = some (.file old modified readable)) ∧
    t' = t.put place (.file (old ++ (line ++ "\n").toUTF8) t.stamp readable)

theorem appended_of_appendLog (h : appendLog t root module line = .ok t') :
    Appended t t' root module line := by
  obtain ⟨path, hp, happend⟩ := ok_of_changeAt h
  unfold FileTree.append FileTree.writeWith at happend
  obtain ⟨place, hplace, hput⟩ := Except.bind_eq_ok_iff.1 happend
  -- a path that ends in a dot leads to no file
  have hlast : path.getLast? ≠ some "." := by
    intro hl
    have hne : path ≠ [] := fun he => by simp [he] at hl
    have hlt : path.dropLast.length < path.length := by
      rw [List.length_dropLast]
      exact Nat.sub_lt (List.length_pos_iff.2 hne) Nat.one_pos
    dsimp only at hput
    simp only [hl, ↓reduceIte, hlt] at hput
    split at hput <;> cases hput
  rw [if_neg hlast] at hplace
  simp only [hlast, ↓reduceIte, Nat.lt_irrefl] at hput
  refine ⟨path, place, ?_⟩
  split at hput
  · cases hput
  · rename_i hn
    cases hput
    exact ⟨_, _, hp, hplace, .inr ⟨_, hn⟩, rfl⟩
  · cases hput
  · rename_i hn
    cases hput
    exact ⟨_, _, hp, hplace, .inl ⟨hn, rfl, rfl⟩, rfl⟩

/-- What becomes of the drive when a request is done: a line is appended, or cannot be. -/
def Filed {κ : Type} (module : String) (d d' : Drive) : Request κ → Prop
  | .log line => Appended d.files d'.files d.root module line ∨
      (∃ e, Disk.make d module (.appendLog line) = .error e) ∧ d'.files = d.files
  | _ => d' = d

theorem filed_of_write {κ : Type} (d : Drive) (r : Request κ) :
    Filed module d (r.write?.toList.foldl (fun d a => Disk.put d module a) d) r := by
  cases r with
  | log line =>
    have hput : (Request.log line : Request κ).write?.toList.foldl
        (fun d a => Disk.put d module a) d = Disk.put d module (.appendLog line) := rfl
    rw [hput]
    rcases d.put_cases module (.appendLog line) with ⟨files, hfiles, h⟩ | ⟨e, he, h⟩ <;> rw [h]
    · exact .inl (appended_of_appendLog hfiles)
    · exact .inr ⟨⟨e, he⟩, rfl⟩
  | _ => exact rfl

end Artifacts

theorem World.Granted.filed {E : Engine} {o : Origin} {r : Request E.Callback}
    {w w' : World E Drive} (h : World.Granted o r w w') :
    Artifacts.Filed o.module w.disk w'.disk r := by
  rw [h.disk]
  exact Artifacts.filed_of_write w.disk r

/-! ## Calls -/

open Script in
/-- A call that raises an error leaves the host as it was, and one that returns has done what it
stands for, but for a line that cannot be appended to the log. What else was asked for meanwhile,
`rs`, was asked for by scripts that have a say in how the parts of a line are displayed. Every call
that a sandbox makes goes like that, unless the sandbox runs out of steps meanwhile, and a surface
has all capabilities under their names. -/
theorem call_all_or_nothing {m₀ : Machine} {c : Capability} {args : List Value}
    {site : Script.Site} (hcall : m₀.control = .call (.builtin (.capability c)) args site) :
    (∀ (rs : List (Request Value)) (talk : List Control) (m : Machine),
      Course m₀ rs talk m → m.stack = m₀.stack →
      (rs ≠ [] → c = .log ∧ ¬ PlainDisplay m₀.heap args) ∧
      ∀ (budgetMs : Option Nat) (o : Origin) (w : World (Sandbox.engine budgetMs) Drive),
        let before := (w.grantAll o m₀.requests.toList).grantAll o rs
        let after := w.grantAll o m.requests.toList
        (∃ error, m.control = .raise error) ∧ after = before ∧
            (c ≠ .log → m₀.depth ≤ Machine.depthLimit → ∀ r, ¬ Means m₀.heap args talk c r) ∨
          (∃ vs, m.control = .give vs) ∧ ∃ r, Means m₀.heap args talk c r ∧
            World.Granted o r before after ∧ Artifacts.Filed o.module before.disk after.disk r ∧
            (c = .log → PlainDisplay m₀.heap args → ∃ texts,
              args.Forall₂ (Displayed m₀.heap) texts ∧ r = .log (" ".intercalate texts))) ∧
    (∀ (interruption : String) (fuel left : Nat), ∃ rs talk m, Course m₀ rs talk m ∧
      (m.stack = m₀.stack ∧ (∃ fuel' left',
          Sandbox.finish interruption (fuel + 1) (left + 1) m₀ =
            Sandbox.finish interruption fuel' left' m) ∨
        Sandbox.finish interruption (fuel + 1) (left + 1) m₀ =
          Sandbox.ending m (.error (.failure interruption)))) ∧
    ∀ e ∈ Capability.names, (Capability.install Library.fresh).field Heap.globals e.1 =
      .builtin (.capability e.2) := by
  refine ⟨fun rs talk m hrun hback => ?_, fun interruption => finish_call interruption hcall,
    Capability.install_field Heap.plain_fresh.sound⟩
  by_cases hc : c = .log
  · subst hc
    have hplain (h : PlainDisplay m₀.heap args) := hrun.plain hcall h
    refine ⟨fun hrs => ⟨rfl, fun h => hrs (hplain h).1⟩, fun _ o w => ?_⟩
    dsimp only
    cases hrun.phase hcall with
    | lookingUp _ _ hw | displaying _ _ _ _ _ hw | describing hw => exact absurd hback hw.stack_ne
    | refused error _ hcontrol hreq =>
      refine .inl ⟨⟨error, hcontrol⟩, ?_, fun h => absurd rfl h⟩
      rw [hreq]
      exact World.grantAll_append ..
    | written r _ hcontrol hr hreq =>
      have hgranted := w.granted_last o m₀.requests.toList rs r
      rw [hreq]
      refine .inr ⟨⟨_, hcontrol⟩, r, hr, hgranted, hgranted.filed, fun _ h => ?_⟩
      obtain ⟨rfl, hp⟩ := hplain h
      cases hp with
      | displaying _ _ hs => exact absurd (hback.symm.trans hs) (List.cons_ne_self _ _).symm
      | refused error _ he => cases hcontrol.symm.trans he
      | @written texts _ _ hall hw =>
        refine ⟨texts, hall, ?_⟩
        rw [hw, Array.toList_push, List.append_nil] at hreq
        exact (List.singleton_injective (List.append_cancel_left hreq)).symm
  · obtain ⟨rfl, rfl⟩ := hrun.once hc hcall
    refine ⟨fun h => absurd rfl h, fun _ o w => ?_⟩
    dsimp only
    rcases step_capability hc hcall talk with
      ⟨error, h, hno⟩ | ⟨vs, r, hcontrol, -, hreq, hr⟩
    · refine .inl ⟨⟨error, congrArg Machine.control h⟩, ?_, fun _ => hno⟩
      rw [h]
      rfl
    · have hlast : m₀.step.requests.toList = m₀.requests.toList ++ [] ++ [r] := by
        rw [hreq, Array.toList_push, List.append_nil]
      have hgranted := w.granted_last o m₀.requests.toList [] r
      rw [hlast]
      exact .inr ⟨⟨vs, hcontrol⟩, r, hr, hgranted, hgranted.filed, fun h => absurd h hc⟩

section Runs

open Script

/-- A call of `log` in a surface in which nothing ran. -/
def firstLog : Machine :=
  ⟨.call (.builtin (.capability .log)) [.int 7] .outside, [],
    Script.Capability.install Script.Library.fresh, #[], 0⟩

theorem firstLog_plain : PlainDisplay firstLog.heap [.int 7] :=
  Heap.plain_fresh.install.plainDisplay fun v hv id he => by
    cases he ▸ List.mem_singleton.1 hv

theorem firstLog_seven : Displayed firstLog.heap (.int 7) "7" := by
  unfold Displayed
  decide +kernel

theorem firstLog_course : ∃ talk m, Course firstLog [] talk m ∧ m.stack = firstLog.stack ∧
    m.control = .give [] ∧ m.requests.toList = [.log "7"] := by
  have hplain := firstLog_plain
  -- the call asks for the text of its argument
  have h₁ : firstLog.step = firstLog.logParts tostring [] [.int 7] .outside :=
    step_log rfl (by decide) hplain.tostring
  have hrun₁ : Course firstLog [] [firstLog.step.control] firstLog.step := .called
  generalize firstLog.step = m₁ at h₁ hrun₁
  have hc₁ : m₁.control = .call tostring [.int 7] .outside := by rw [h₁]; rfl
  have hs₁ : m₁.stack = [.builtin (.log tostring [] []) .outside] := by rw [h₁]; rfl
  have hrun₂ := hrun₁.callee (hs₁ ▸ List.cons_ne_nil _ _) hc₁
  -- the library answers
  have hdepth : ¬ Machine.depthLimit < m₁.depth := by
    rw [h₁]
    exact Nat.not_lt_of_le (by decide : 0 + 1 ≤ Machine.depthLimit)
  have hheap : m₁.heap = firstLog.heap := by rw [h₁]; rfl
  have h₂ : m₁.step = m₁.go (.give [.str (bytesOf (Library.display firstLog.heap (.int 7)))]) := by
    rw [← hheap]
    exact (step_tostring hc₁ rfl).trans (if_neg hdepth)
  have hasked : m₁.asked = [] := Machine.asked_eq_nil (by rw [h₂]; rfl)
  have hreq₁ : m₁.requests = #[] := by rw [h₁]; rfl
  rw [hasked] at hrun₂
  generalize m₁.step = m₂ at h₂ hrun₂
  have hc₂ : m₂.control = .give [.str (bytesOf (Library.display firstLog.heap (.int 7)))] :=
    congrArg Machine.control h₂
  have hs₂ : m₂.stack = [.builtin (.log tostring [] []) .outside] :=
    (congrArg Machine.stack h₂).trans hs₁
  -- the line is asked for
  have h₃ : m₂.step = (m₂.goOn []).logParts tostring ["7"] [] .outside := by
    refine (step_give hc₂ hs₂).trans ?_
    unfold Machine.resume
    dsimp only [List.headD_cons]
    rw [toText_str.2 firstLog_seven]
  have hreq₂ : (m₂.goOn []).requests = #[] := (congrArg Machine.requests h₂).trans hreq₁
  rw [logParts_nil, hreq₂] at h₃
  refine ⟨_, m₂.step, hrun₂.own ⟨by rw [hc₂]; trivial, _, hs₂⟩, ?_, ?_, ?_⟩ <;> rw [h₃] <;> rfl

/-- The line is appended to the log. -/
theorem seven_logged : ∃ (talk : List Control) (m : Machine) (o : Origin)
    (w : World (Sandbox.engine none) Drive), Course firstLog [] talk m ∧
      m.stack = firstLog.stack ∧ m.control = .give [] ∧ o = ⟨0, "a.lua"⟩ ∧
      w = startOn (Sandbox.engine none) "world" bareFiles ∧
      Artifacts.Appended bareFiles (w.grantAll o m.requests.toList).disk.files
        "world" "a.lua" "7" := by
  obtain ⟨talk, m, hrun, hback, hc, -⟩ := firstLog_course
  let o : Origin := ⟨0, "a.lua"⟩
  let w : World (Sandbox.engine none) Drive := startOn (Sandbox.engine none) "world" bareFiles
  refine ⟨talk, m, o, w, hrun, hback, hc, rfl, rfl, ?_⟩
  have hcall : firstLog.control = .call (.builtin (.capability .log)) [.int 7] .outside := rfl
  obtain ⟨hends, -, -⟩ := call_all_or_nothing hcall
  rcases (hends [] talk m hrun hback).2 none o w with
    ⟨⟨error, he⟩, -⟩ | ⟨-, r, -, -, hfiled, hline⟩
  · cases hc.symm.trans he
  obtain ⟨texts, htexts, rfl⟩ := hline rfl firstLog_plain
  cases htexts with
  | cons h htail =>
    cases htail
    cases firstLog_seven.symm.trans h
    rcases hfiled with happended | ⟨⟨e, he⟩, -⟩
    · exact happended
    · have hok : (Disk.make w.disk "a.lua" (.appendLog "7")).toOption.isSome = true := by
        decide +kernel
      have he : Disk.make w.disk "a.lua" (.appendLog "7") = .error e := he
      rw [he] at hok
      cases hok

/-- A line that cannot be appended changes no file. -/
theorem files_of_unwritten {E : Engine} {w : World E Drive} {o : Origin} {line : String}
    (h : (Artifacts.make w.disk.files w.disk.root o.module (.appendLog line)).toOption = none) :
    (w.grantAll o [.log line]).disk.files = w.disk.files := by
  have hdisk : (w.grantAll o [.log line]).disk = Disk.put w.disk o.module (.appendLog line) :=
    w.grant_disk o (.log line)
  rw [hdisk]
  rcases w.disk.put_cases o.module (.appendLog line) with ⟨files, hfiles, -⟩ | ⟨e, -, h⟩
  · rw [hfiles] at h
    cases h
  · rw [h]

/-- The globals without `tostring`; `f` is called for what is missing. -/
def strip (h : Heap) (f : Builtin) : Heap :=
  let bare := h.setField Heap.globals "tostring" .nil
  let filled := (bare.newTable .empty).2.setField bare.tables.size "__index" (.builtin f)
  filled.modifyTable Heap.globals ({ · with metatable := some bare.tables.size })

theorem display_strip {h : Heap} (hs : h.Sound) (f : Builtin) :
    (strip h f).display = .call (.builtin f) [.table Heap.globals, .text "tostring"] := by
  let bare := h.setField Heap.globals "tostring" .nil
  let filled := (bare.newTable .empty).2.setField bare.tables.size "__index" (.builtin f)
  have hglobals : Heap.globals < h.tables.size := Nat.lt_of_le_of_lt (Nat.zero_le _) hs.size
  have hbare : bare.Sound := hs.setField hglobals _ _
  have hid : Heap.globals < bare.tables.size := Nat.lt_of_le_of_lt (Nat.zero_le _) hbare.size
  have hnew : bare.tables.size < (bare.newTable .empty).2.tables.size := by
    simp [Heap.newTable]
  have hfilled : Heap.globals < filled.tables.size := by
    rw [Heap.size_setField]
    exact Nat.lt_trans hid hnew
  have htable (id : Nat) : (strip h f).table id =
      if Heap.globals = id then
        { filled.table Heap.globals with metatable := some bare.tables.size }
      else filled.table id := Heap.table_modifyTable filled Heap.globals id _ hfilled
  have hfield (id : Nat) (name : String) : filled.field id name =
      if bare.tables.size = id ∧ "__index" = name then .builtin f else bare.field id name := by
    rw [Heap.field_setField hbare.newTable hnew]
    exact if_congr Iff.rfl rfl (congrArg (TableObject.get · _) (Heap.table_newTable bare id))
  have hraw : (strip h f).rawGet Heap.globals (.text "tostring") = .nil := by
    have hget : (strip h f).rawGet Heap.globals (.text "tostring") =
        ((strip h f).table Heap.globals).get (.str "tostring".toUTF8) := rfl
    rw [hget, htable, if_pos rfl]
    refine (hfield Heap.globals "tostring").trans ?_
    rw [if_neg fun he => absurd he.2 (by decide), Heap.field_setField hs hglobals,
      if_pos ⟨rfl, rfl⟩]
  have hmeta : (strip h f).metamethod (.table Heap.globals) "__index" = .builtin f := by
    have hsome : (strip h f).metatable? (.table Heap.globals) = some bare.tables.size := by
      rw [Heap.metatable?, htable, if_pos rfl]
    rw [Heap.metamethod, hsome]
    dsimp only
    rw [Heap.field, htable, if_neg (Nat.ne_of_lt hid)]
    exact (hfield bare.tables.size "__index").trans (if_pos ⟨rfl, rfl⟩)
  have hindex : (strip h f).display =
      Operators.index (strip h f) (1999 + 1) (.table Heap.globals) (.text "tostring") := rfl
  rw [hindex, Operators.index, hraw, hmeta]
  rfl

/-- A call of `log` in a surface in which `preventDefault` is called for what is missing. -/
def strippedLog : Machine :=
  ⟨.call (.builtin (.capability .log)) [.int 7] .outside, [],
    strip (Capability.install Library.fresh) (.capability .preventDefault), #[], 0⟩

theorem strippedLog_course : ∃ talk m, Course strippedLog [.preventDefault] talk m ∧
    m.stack = strippedLog.stack ∧ (∃ error, m.control = .raise error) ∧
    m.requests.toList = [.preventDefault] := by
  let f : Value := .builtin (.capability .preventDefault)
  have hdisplay := display_strip Heap.plain_fresh.install.sound (.capability .preventDefault)
  -- the name is looked up
  have h₁ : strippedLog.step =
      (strippedLog.pushCall (.builtin (.lookUp [.int 7]) .outside)).callBack .host .outside f
        [.table Heap.globals, .text "tostring"] := by
    have hdepth : ¬ Machine.depthLimit < strippedLog.depth := Nat.not_lt_zero _
    have hheap : strippedLog.heap.display = .call f [.table Heap.globals, .text "tostring"] :=
      hdisplay
    refine (step_call (m := strippedLog) rfl).trans ?_
    unfold Machine.call
    rw [if_neg hdepth]
    dsimp only
    unfold Machine.log
    rw [hheap]
  have hrun₁ : Course strippedLog [] [strippedLog.step.control] strippedLog.step := .called
  generalize strippedLog.step = m₁ at h₁ hrun₁
  have hc₁ : m₁.control = .call f [.table Heap.globals, .text "tostring"] .outside := by
    rw [h₁]; rfl
  have hs₁ : m₁.stack = [.builtin .host .outside, .builtin (.lookUp [.int 7]) .outside] := by
    rw [h₁]; rfl
  have hreq₁ : m₁.requests = #[] := by rw [h₁]; rfl
  -- the function that is called for it sets the flag
  have hdepth₁ : ¬ Machine.depthLimit < m₁.depth := by
    rw [h₁]
    exact Nat.not_lt_of_le (by decide : 0 + 1 + 1 ≤ Machine.depthLimit)
  have h₂ : m₁.step = ⟨.give [], m₁.stack, { m₁.heap with timeouts := m₁.heap.timeouts + 1 },
      m₁.requests.push .preventDefault, m₁.depth⟩ :=
    (step_call hc₁).trans (call_capability (by decide) hdepth₁)
  have hasked₁ : m₁.asked = [.preventDefault] := by
    rw [Machine.asked, h₂, hreq₁]
    rfl
  have hrun₂ := hrun₁.callee (hs₁ ▸ List.cons_ne_nil _ _) hc₁
  rw [hasked₁] at hrun₂
  generalize m₁.step = m₂ at h₂ hrun₂
  have hc₂ : m₂.control = .give [] := congrArg Machine.control h₂
  have hs₂ : m₂.stack = [.builtin .host .outside, .builtin (.lookUp [.int 7]) .outside] :=
    (congrArg Machine.stack h₂).trans hs₁
  have hreq₂ : m₂.requests = #[.preventDefault] := by
    rw [congrArg Machine.requests h₂, hreq₁]
    rfl
  -- and answers nothing, which is no function
  have h₃ : m₂.step = (m₂.goOn [.builtin (.lookUp [.int 7]) .outside]).go (.give []) :=
    step_give hc₂ hs₂
  have hasked₂ : m₂.asked = [] := Machine.asked_eq_nil (by rw [h₃]; rfl)
  have hrun₃ : Course strippedLog ([] ++ [.preventDefault] ++ m₂.asked) [m₁.control] m₂.step := by
    refine hrun₂.other (by rw [hs₂]; exact List.cons_ne_nil _ _) ?_
    rintro ⟨-, _, hb⟩
    cases hs₂.symm.trans hb
  rw [hasked₂] at hrun₃
  generalize m₂.step = m₃ at h₃ hrun₃
  have hc₃ : m₃.control = .give [] := congrArg Machine.control h₃
  have hs₃ : m₃.stack = [.builtin (.lookUp [.int 7]) .outside] := congrArg Machine.stack h₃
  have h₄ : m₃.step =
      (m₃.goOn []).go (.raise (.failure (Capability.conversionFault .nil "function"))) :=
    step_give hc₃ hs₃
  refine ⟨_, m₃.step, hrun₃.own ⟨by rw [hc₃]; trivial, _, hs₃⟩, ?_, ?_, ?_⟩ <;> rw [h₄]
  · rfl
  · exact ⟨_, rfl⟩
  · exact congrArg Array.toList ((congrArg Machine.requests h₃).trans hreq₂)

/-- The two ways in which calls are more or less than all or nothing: where the directory of the
logs is missing, `log` returns and writes nothing, and where a function is called for the missing
`tostring`, `log` raises an error when the function has set the flag. -/
theorem line_dropped_and_flag_set :
    (∃ (talk : List Control) (m : Machine) (o : Origin) (w : World (Sandbox.engine none) Drive),
      Course firstLog [] talk m ∧ m.stack = firstLog.stack ∧ m.control = .give [] ∧
      o = ⟨0, "a.lua"⟩ ∧
      w = startOn (Sandbox.engine none) "world" (FileTree.empty.put ["world"] .dir) ∧
      (w.grantAll o m.requests.toList).disk.files = w.disk.files ∧
      Artifacts.logContent? w.disk.files "world" "a.lua" = none) ∧
    ∃ (rs : List (Request Value)) (talk : List Control) (m : Machine) (o : Origin)
      (w : World (Sandbox.engine none) Drive),
      Course strippedLog rs talk m ∧ m.stack = strippedLog.stack ∧
      (∃ error, m.control = .raise error) ∧ o = ⟨0, "a.lua"⟩ ∧
      w = startOn (Sandbox.engine none) "world" bareFiles ∧
      w.game.defaultPrevented = false ∧
      (w.grantAll o m.requests.toList).game.defaultPrevented = true := by
  obtain ⟨talk, m, hrun, hback, hc, hreq⟩ := firstLog_course
  obtain ⟨talk', m', hrun', hback', hc', hreq'⟩ := strippedLog_course
  refine ⟨⟨talk, m, _, _, hrun, hback, hc, rfl, rfl, ?_, by decide +kernel⟩,
    _, talk', m', _, _, hrun', hback', hc', rfl, rfl, rfl, ?_⟩
  · rw [hreq]
    exact files_of_unwritten (Option.isNone_iff_eq_none.1 (by decide +kernel))
  · rw [hreq']
    exact World.grantAll_flag [.preventDefault] _

end Runs

end LiveModules
