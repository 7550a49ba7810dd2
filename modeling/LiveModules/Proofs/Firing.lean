import LiveModules.Proofs.Backing
import LiveModules.Proofs.Timers

/-!
# Which timers fire

Whatever happens, the timers that fire and those that are left in the queue are the timers that were
there and those that were scheduled meanwhile, each once (`Ledger.balance`); what a call that drains
the queue tells of firings, the calls nested in it left out, is what was due when it began.
-/

namespace LiveModules

open Relation (ReflTransGen)

attribute [local irreducible] lastOf

def Entry.firing? : Entry → Option (Nat × Option String)
  | .fired seq label => some (seq, label)
  | _ => none

def firings (entries : List Entry) : List (Nat × Option String) := entries.filterMap Entry.firing?

/-- The numbers of the timers that fire, in order. -/
def fired (entries : List Entry) : List Nat := (firings entries).map (·.1)

def Action.isRunDue : Action → Bool
  | .runDue _ => true
  | _ => false

theorem firings_append (entries rest : List Entry) :
    firings (entries ++ rest) = firings entries ++ firings rest :=
  List.filterMap_append

theorem fired_append (entries rest : List Entry) :
    fired (entries ++ rest) = fired entries ++ fired rest := by
  rw [fired, firings_append, List.map_append]
  rfl

theorem firings_block (a : Action) (r : Answer) (entries : List Entry) :
    firings (.began a :: (entries ++ [.ended a r])) = firings entries := by
  show firings (entries ++ [.ended a r]) = _
  rw [firings_append]
  exact List.append_nil _

/-- Numbers below `n` counted on both sides cancel out. -/
theorem perm_of_perm_range {a b : List Nat} {n k : Nat} (hn : n ≤ k)
    (h : (a ++ List.range n).Perm (b ++ List.range k)) : a.Perm (b ++ List.range' n (k - n)) := by
  have hk : List.range k = List.range n ++ List.range' n (k - n) := by
    obtain ⟨m, rfl⟩ := Nat.exists_eq_add_of_le hn
    rw [Nat.add_sub_cancel_left, List.range_eq_range', List.range_eq_range', ← List.range'_append_1,
      Nat.zero_add]
  rw [hk] at h
  refine (List.perm_append_right_iff (List.range n)).1 (h.trans ?_)
  rw [List.append_assoc]
  exact List.perm_append_comm.append_left b

variable {E : Engine} {L : Licence} {C : FileTree → FileTree → Prop}

def Timer.firing (t : Timer (Task E)) : Nat × Option String := (t.seq, t.task.label?)

namespace World

variable {u v w w' : World E} {entries rest : List Entry} {taken more : List (Nat × Option String)}

/-- What becomes of the timers of `w` while `entries` are told. Besides them there are those that
were `taken` out before and fire now. -/
structure Ledger (taken : List (Nat × Option String)) (w w' : World E) (entries : List Entry) :
    Prop where
  /-- Every timer that is taken, pending or scheduled fires once or is left. -/
  balance : (fired entries ++ w'.timers.seqs ++ List.range w.timers.nextSeq).Perm
    (taken.map (·.1) ++ w.timers.seqs ++ List.range w'.timers.nextSeq)
  own : firings (outside Action.isRunDue 0 entries) = taken
  nextSeq : w.timers.nextSeq ≤ w'.timers.nextSeq
  kept : ∀ t ∈ w.timers.pending, t ∈ w'.timers.pending ∨
    ∃ now, .began (.runDue now) ∈ entries ∧ t.due ≤ now ∧ t.firing ∈ firings entries
  undisturbed : (∀ now, .began (.runDue now) ∉ entries) →
    w.timers.pending <+: w'.timers.pending
  fresh : ∀ t ∈ w'.timers.pending, t ∈ w.timers.pending ∨ w.timers.nextSeq ≤ t.seq

/-- What the journal tells of timers, and of nothing but whole actions. -/
def TimersTold (taken : List (Nat × Option String)) (w w' : World E) : Prop :=
  ∃ entries, w.Tells w' entries ∧ Ledger taken w w' entries

theorem Ledger.trans (hc : Closed entries) (h : Ledger taken u v entries)
    (h' : Ledger more v w rest) : Ledger (taken ++ more) u w (entries ++ rest) where
  balance := by
    -- counted one by one, what is pending in `v` stands on both sides and cancels out
    have h₁ := List.perm_iff_count.1 h.balance
    have h₂ := List.perm_iff_count.1 h'.balance
    refine List.perm_iff_count.2 fun n => ?_
    specialize h₁ n
    specialize h₂ n
    simp only [List.count_append, fired_append, List.map_append] at h₁ h₂ ⊢
    omega
  own := by rw [hc.outside_append, firings_append, h.own, h'.own]
  nextSeq := Nat.le_trans h.nextSeq h'.nextSeq
  kept t ht := by
    rcases h.kept t ht with ht | ⟨now, hb, hd, hf⟩
    · refine (h'.kept t ht).imp_right fun ⟨now, hb, hd, hf⟩ => ⟨now, ?_, hd, ?_⟩
      · exact List.mem_append_right _ hb
      · exact firings_append .. ▸ List.mem_append_right _ hf
    · exact .inr ⟨now, List.mem_append_left _ hb, hd,
        firings_append .. ▸ List.mem_append_left _ hf⟩
  undisturbed hn :=
    (h.undisturbed fun now hb => hn now (List.mem_append_left _ hb)).trans
      (h'.undisturbed fun now hb => hn now (List.mem_append_right _ hb))
  fresh t ht := by
    rcases h'.fresh t ht with ht | ht
    · exact h.fresh t ht
    · exact .inr (Nat.le_trans h.nextSeq ht)

theorem Ledger.idle (ht : w'.timers = w.timers) (hf : firings entries = [])
    (ho : firings (outside Action.isRunDue 0 entries) = []) : Ledger [] w w' entries where
  balance := by
    rw [ht, fired, hf]
  own := ho
  nextSeq := Nat.le_of_eq (by rw [ht])
  kept t h := .inl (by rwa [ht])
  undisturbed _ := ht ▸ List.prefix_refl _
  fresh t h := .inl (by rwa [ht] at h)

/-- What was due is taken out of the queue and fires first of all. -/
theorem Ledger.balance_due {now : Float}
    (h : Ledger ((w.timers.due now).map Timer.firing)
      { v with timers := w.timers.afterTaking now } w' entries) :
    (fired entries ++ w'.timers.seqs ++ List.range w.timers.nextSeq).Perm
      (w.timers.seqs ++ List.range w'.timers.nextSeq) := by
  have hq : ((w.timers.due now).map (·.seq) ++ (w.timers.afterTaking now).seqs).Perm
      w.timers.seqs := by
    rw [TimerQueue.seqs, ← List.map_append]
    exact (w.timers.due_append_afterTaking now).map _
  have hm : ((w.timers.due now).map Timer.firing).map (·.1) = (w.timers.due now).map (·.seq) :=
    List.map_map
  have hb := h.balance
  rw [hm] at hb
  exact hb.trans (hq.append_right _)

namespace TimersTold

theorem trans (h : TimersTold taken u v) (h' : TimersTold more v w) :
    TimersTold (taken ++ more) u w := by
  obtain ⟨entries, ht, hl⟩ := h
  obtain ⟨rest, ht', hl'⟩ := h'
  exact ⟨entries ++ rest, ht.trans ht', hl.trans ht.closed hl'⟩

theorem of_eq (hj : w'.journal = w.journal) (ht : w'.timers = w.timers) : TimersTold [] w w' :=
  ⟨[], .of_eq hj, .idle ht rfl rfl⟩

theorem step {e : Entry} (he : e.IsPlain) (hf : e.firing? = none)
    (hj : w'.journal = w.journal.push e) (ht : w'.timers = w.timers) : TimersTold [] w w' := by
  have hn : firings [e] = [] := by simp [firings, hf]
  have ho : outside Action.isRunDue 0 [e] = [e] := by simp [outside, he.marks_eq]
  exact ⟨[e], ⟨by rw [hj, Array.toList_push], .cons he .nil⟩, .idle ht hn (by rw [ho, hn])⟩

theorem fired (w : World E) (t : Timer (Task E)) :
    TimersTold [t.firing] w (w.note (.fired t.seq t.task.label?)) :=
  ⟨_, .note w trivial, .refl _, rfl, Nat.le_refl _, fun _ => .inl, fun _ => List.prefix_refl _,
    fun _ => .inl⟩

theorem schedule (w : World E) (module : String) (due : Float) (task : Task E) :
    TimersTold [] w { w with timers := w.timers.schedule module due task } := by
  refine ⟨[], .of_eq rfl, ?_, rfl, Nat.le_succ _, fun t ht => .inl (List.mem_append_left _ ht),
    fun _ => List.prefix_append _ _, fun t ht => ?_⟩
  · simp only [TimerQueue.schedule, TimerQueue.seqs, List.map_append, List.range_succ]
    show ((w.timers.seqs ++ [w.timers.nextSeq]) ++ List.range w.timers.nextSeq).Perm
      (w.timers.seqs ++ (List.range w.timers.nextSeq ++ [w.timers.nextSeq]))
    rw [List.append_assoc]
    exact List.perm_append_comm.append_left _
  · rcases List.mem_append.1 ht with ht | ht
    · exact .inl ht
    · rw [List.mem_singleton.1 ht]
      exact .inr (Nat.le_refl _)

/-- An action that does not drain the queue tells what its callbacks tell. -/
theorem block {a : Action} (r : Answer) (h : TimersTold [] (w.note (.began a)) w')
    (hk : a.isRunDue = false) : TimersTold [] w (w'.note (.ended a r)) := by
  obtain ⟨entries, ht, hl⟩ := h
  have hn : ∀ now, Entry.began (.runDue now) ≠ .began a := fun now h => by
    cases h
    cases hk
  refine ⟨_, ht.block, ?_, ?_, hl.nextSeq, fun t ht' => ?_, fun hb => ?_, hl.fresh⟩
  · rw [LiveModules.fired, firings_block]
    exact hl.balance
  · rw [ht.closed.outside_block, if_neg (by simp [hk]), firings_block, hl.own]
  · rw [firings_block]
    refine (hl.kept t ht').imp_right fun ⟨now, hb, hd⟩ => ⟨now, ?_, hd⟩
    exact List.mem_cons_of_mem _ (List.mem_append_left _ hb)
  · exact hl.undisturbed fun now hm => hb now (List.mem_cons_of_mem _ (List.mem_append_left _ hm))

/-- A drain takes what is due out of the queue and answers for all of it. -/
theorem drain {now : Float} (r : Answer)
    (h : TimersTold ((w.timers.due now).map Timer.firing)
      { w.note (.began (.runDue now)) with timers := w.timers.afterTaking now } w') :
    TimersTold [] w (w'.note (.ended (.runDue now) r)) := by
  obtain ⟨entries, ht, hl⟩ := h
  have htells : (w.note (.began (.runDue now))).Tells w' entries := ⟨ht.journal, ht.closed⟩
  refine ⟨_, htells.block, ?_, ?_, hl.nextSeq, fun t hp => ?_, fun hb => ?_, fun t hp => ?_⟩
  · rw [LiveModules.fired, firings_block]
    exact hl.balance_due (v := w.note _)
  · rw [ht.closed.outside_block]
    rfl
  · by_cases hd : t.due ≤ now
    · -- it was taken, so it is among what the call itself runs
      have hown : t.firing ∈ firings (outside Action.isRunDue 0 entries) := by
        rw [hl.own]
        exact List.mem_map_of_mem (TimerQueue.mem_due.2 ⟨hp, hd⟩)
      refine .inr ⟨now, List.mem_cons_self, hd, ?_⟩
      rw [firings_block]
      exact ((outside_sublist _ entries 0).filterMap _).subset hown
    · -- only a call that is nested in this one can take it
      refine (hl.kept t (TimerQueue.mem_afterTaking.2 ⟨hp, hd⟩)).imp_right
        fun ⟨now', hb, hd', hf⟩ => ⟨now', ?_, hd', ?_⟩
      · exact List.mem_cons_of_mem _ (List.mem_append_left _ hb)
      · rwa [firings_block]
  · exact absurd List.mem_cons_self (hb now)
  · exact (hl.fresh t hp).imp_left fun hp => (TimerQueue.mem_afterTaking.1 hp).1

end TimersTold

/-! ## Calls and loads -/

theorem grant_timersTold (origin : Origin) (r : Request E.Callback) :
    TimersTold [] w (w.grant origin r) := by
  cases r with
  | item room template secs => exact .step (e := .registered ..) trivial rfl rfl rfl
  | preventDefault => exact .step (e := .prevented) trivial rfl rfl rfl
  | log line => exact .step (e := .logged ..) trivial rfl rfl rfl
  | handler key callback =>
    exact .of_eq (subscribeScript_journal ..) (subscribeScript_timers ..)
  | timeout delayMs callback => exact .schedule w _ _ _
  | _ => exact .of_eq rfl rfl

theorem timersTold_spans {run : Performer E}
    (hr : ∀ {a w w' r}, run a w = some (w', r) → TimersTold [] w w') :
    Spans run (TimersTold []) where
  refl _ := .of_eq rfl rfl
  trans := .trans
  stride {w w'} h := by
    cases h with
    | nested a r h => exact hr h
    | script origin r =>
      exact finishRun_related (fun _ => .of_eq rfl rfl) .trans (fun _ _ => .of_eq rfl rfl)
        (fun _ => grant_timersTold origin) w r
    | did a r => exact .step (e := .did a r) trivial rfl rfl rfl
    | failed module detail => exact .step (e := .failed module detail) trivial rfl rfl rfl
    | _ => exact .of_eq rfl rfl
  hear _ _ _ _ _ := .step (e := .heard ..) trivial rfl rfl rfl
  leave {_ _ _ place _ m} _ hu _ hv := (hu.trans hv).trans <| by
    cases place <;> exact .step (e := .left _ m.id) trivial rfl rfl rfl
  command _ _ _ _ := .step (e := .commanded ..) trivial rfl rfl rfl
  beginLoad _ _ _ := .step (e := .loading ..) trivial rfl rfl rfl
  loaded _ _ := .step (e := .loaded _) trivial rfl rfl rfl
  closeRecord _ _ _ := .of_eq rfl rfl
  settle _ := .of_eq rfl rfl
  unwritten _ _ _ := .step (e := .unwritten ..) trivial rfl rfl rfl

/-- The timers that are run in turn are those that are told of, calls nested in them left out. -/
theorem fires_timersTold {run : Performer E}
    (hr : ∀ {a w w' r}, run a w = some (w', r) → TimersTold [] w w') :
    ∀ {timers : List (Timer (Task E))} {w w' : World E}, timers.foldlM (fire run) w = some w' →
      TimersTold (timers.map Timer.firing) w w'
  | [], _, _, h => Option.some.inj h ▸ .of_eq rfl rfl
  | t :: timers, w, w', h => by
    rw [List.foldlM_cons] at h
    obtain ⟨v, hv, h⟩ := Option.bind_eq_some_iff.1 h
    have ht : TimersTold ([t.firing] ++ []) w v :=
      (TimersTold.fired w t).trans ((timersTold_spans hr).strides (fire_strides hv))
    exact ht.trans (fires_timersTold hr h)

theorem runDue_timersTold {run : Performer E} {now : Float} {n : Nat}
    (hr : ∀ {a w w' r}, run a w = some (w', r) → TimersTold [] w w')
    (h : w.runDue run now = some (w', n)) :
    TimersTold ((w.timers.due now).map Timer.firing)
      { w with timers := w.timers.afterTaking now } w' :=
  fires_timersTold hr (runDue_eq_some.1 h).1

/-! ## Actions -/

theorem performPlain_timersTold (a : Action) : TimersTold [] w (w.performPlain a).1 := by
  have h := w.plain a
  generalize (w.performPlain a).1 = v at h
  cases h with
  | prevented => exact .step (e := .prevented) trivial rfl rfl rfl
  | schedule => exact .schedule w _ _ _
  | _ => exact .of_eq rfl rfl

end World

open World

theorem perform_timersTold : ∀ (fuel : Nat) {a : Action} {w w' : World E} {r : Answer},
    perform fuel a w = some (w', r) → TimersTold [] w w'
  | 0, _, _, _, _, h => by cases h
  | fuel + 1, a, w, w', r, h => by
    obtain ⟨n, v, hn, hs, rfl⟩ := perform_cases h
    obtain rfl := Nat.succ.inj hn
    have hR : Spans (perform fuel) (TimersTold (E := E) []) :=
      timersTold_spans fun h => perform_timersTold fuel h
    cases hs with
    | emit hv => exact .block _ (hR.emit (fun _ _ => .of_eq rfl rfl) hv) rfl
    | emitPlain hv => exact .block _ (hR.emitPlain hv) rfl
    | dispatch hv => exact .block _ (hR.dispatch hv) rfl
    | runDue hv => exact .drain _ (runDue_timersTold (fun h => perform_timersTold fuel h) hv)
    | runCommand r hv => exact .block _ (hR.runCommand hv) rfl
    | plain a _ hrun =>
      refine .block _ (performPlain_timersTold a) ?_
      cases a <;> first | rfl | exact absurd rfl (hrun _)

/-- Every call, at any depth, finds a queue where timers stand in the order of their numbers. -/
theorem Pass.timers_numbered {w w' : World E} (h : Pass L w w') (hw : w.timers.Numbered) :
    w'.timers.Numbered := by
  cases h with
  | turn h =>
    cases h with
    | move h =>
      cases h with
      | schedule module label due task => exact hw.schedule _ _ _
      | take now => exact hw.afterTaking now
      | leave place => cases place <;> exact hw
      | unlisten label =>
        obtain ⟨hub, he, -⟩ := w.unlisten_cases label
        rwa [he]
      | unsubscribe key label =>
        obtain ⟨emitter, he, -⟩ := w.unsubscribe_cases key label
        rwa [he]
      | grant origin r =>
        cases r with
        | timeout delayMs callback => exact hw.schedule _ _ _
        | handler key callback =>
          rw [grant, subscribeScript_timers]
          exact hw
        | _ => exact hw
      | _ => exact hw
    | _ => exact hw
  | _ => exact hw

namespace World

/-- What a call that drains the queue at time `now` does. -/
structure Drained (now : Float) (w w' : World E) (r : Answer) (entries : List Entry) : Prop where
  told : w'.journal.toList = w.journal.toList ++
    .began (.runDue now) :: (entries ++ [.ended (.runDue now) r])
  /-- Calls that are nested in it left out, it runs all that was due when it began, in order. -/
  own : firings (outside Action.isRunDue 0 entries) = (w.timers.due now).map Timer.firing
  count : r = .count (w.timers.due now).length
  due : (w.timers.due now).Perm (w.timers.pending.filter fun t => t.due ≤ now)
  sorted : (w.timers.due now).Pairwise Timer.Precedes
  number : ∀ t ∈ w.timers.due now, t.due.isNaN = false
  old : ∀ t ∈ w.timers.due now, t.seq < w.timers.nextSeq
  left : ∀ t ∈ w'.timers.pending,
    t ∈ w.timers.pending ∧ ¬ t.due ≤ now ∨ w.timers.nextSeq ≤ t.seq
  /-- With the calls that are nested in it, it runs nothing twice and loses nothing. -/
  balance : (fired entries ++ w'.timers.seqs).Perm (w.timers.seqs ++
    List.range' w.timers.nextSeq (w'.timers.nextSeq - w.timers.nextSeq))

theorem drained {fuel : Nat} {now : Float} {w w' : World E} {r : Answer}
    (hw : w.timers.Numbered) (h : perform fuel (.runDue now) w = some (w', r)) :
    ∃ entries, Closed entries ∧ Drained now w w' r entries := by
  obtain ⟨n, v, rfl, hs, rfl⟩ := perform_cases h
  cases hs with
  | plain a _ hrun => exact absurd rfl (hrun now)
  | @runDue _ _ k hv =>
    obtain ⟨entries, ht, hl⟩ := runDue_timersTold (fun h => perform_timersTold n h) hv
    have htells : (w.note (.began (.runDue now))).Tells v entries := ⟨ht.journal, ht.closed⟩
    refine ⟨entries, ht.closed, htells.block.journal, hl.own, ?_, w.timers.due_perm now,
      hw.due_sorted now, fun t hm => ?_, fun t hm => ?_, fun t hp => ?_, ?_⟩
    · rw [(runDue_eq_some.1 hv).2]
      rfl
    · by_contra hnan
      exact not_le_of_isNaN (by simpa using hnan) now (TimerQueue.mem_due.1 hm).2
    · exact hw.lt t (TimerQueue.mem_due.1 hm).1
    · exact (hl.fresh t hp).imp_left TimerQueue.mem_afterTaking.1
    · exact perm_of_perm_range hl.nextSeq (hl.balance_due (v := w.note (.began (.runDue now))))

/-! ## Loads -/

theorem grant_pending (origin : Origin) (r : Request E.Callback) (w : World E) :
    w.timers.pending <+: (w.grant origin r).timers.pending := by
  cases r with
  | timeout delayMs callback => exact List.prefix_append ..
  | handler key callback =>
    have h : (w.grant origin (.handler key callback)).timers = w.timers :=
      subscribeScript_timers ..
    exact h ▸ List.prefix_refl _
  | _ => exact List.prefix_refl _

/-- Where nobody takes an action, timers are only added. -/
theorem pending_spans : Spans (fun _ _ => none)
    (fun w w' : World E => w.timers.pending <+: w'.timers.pending) where
  refl _ := List.prefix_refl _
  trans := List.IsPrefix.trans
  stride {w w'} h := by
    cases h with
    | nested a r h => cases h
    | script origin r =>
      exact finishRun_related (R := fun w w' => w.timers.pending <+: w'.timers.pending)
        (fun _ => List.prefix_refl _) .trans (fun _ _ => List.prefix_refl _)
        (fun w r => grant_pending origin r w) w r
    | _ => exact List.prefix_refl _
  hear _ _ _ _ _ := List.prefix_refl _
  leave {_ _ _ place _ _} _ hu _ hv := (hu.trans hv).trans <| by
    cases place <;> exact List.prefix_refl _
  command _ _ _ _ := List.prefix_refl _
  beginLoad _ _ _ := List.prefix_refl _
  loaded _ _ := List.prefix_refl _
  closeRecord _ _ _ := List.prefix_refl _
  settle _ := List.prefix_refl _
  unwritten _ _ _ := List.prefix_refl _

end World

/-! ## Runs -/

variable {s s' s₀ : Site E}

theorem Site.Step.timersTold (h : Step L C s s') : TimersTold [] s.world s'.world :=
  Spans.step (fun fuel => timersTold_spans fun h => perform_timersTold fuel h)
    (fun _ _ => .of_eq rfl rfl) h

theorem Site.Run.timersTold (h : Run L C s₀ s) : TimersTold [] s₀.world s.world :=
  h.induction (P := fun s => TimersTold [] s₀.world s.world) (fun _ _ _ _ => .of_eq rfl rfl)
    fun _ _ _ ih hs => ih.trans hs.timersTold

/-- Every timer that was ever scheduled has fired once or is pending. -/
theorem Site.Run.timers_balance (h : Run L C s₀ s) :
    (fired s.world.journal.toList ++ s.world.timers.seqs).Perm
      (List.range s.world.timers.nextSeq) := by
  obtain ⟨entries, ht, hl⟩ := h.timersTold
  obtain ⟨⟨root, files, extension, rfl⟩, -⟩ := h
  have hb := perm_of_perm_range (Nat.zero_le _) hl.balance
  rw [List.range_eq_range', ht.journal]
  exact hb

theorem Site.Run.timers_numbered (h : Run L C s₀ s) {w : World E} (hw : Passes L s₀.world w) :
    w.timers.Numbered :=
  h.passed_induction (P := fun w => w.timers.Numbered) (fun _ => .empty)
    (fun _ _ _ hv ht => ht.timers_numbered hv) hw

theorem nan_stays {t : Timer (Task E)} (hd : t.due.isNaN = true)
    (h : ReflTransGen (Site.Step L C) s s') (ht : t ∈ s.world.timers.pending) :
    t ∈ s'.world.timers.pending := by
  induction h with
  | refl => exact ht
  | tail _ hs ih =>
    obtain ⟨entries, -, hl⟩ := hs.timersTold
    exact (hl.kept t ih).resolve_right fun ⟨now, _, hle, _⟩ => not_le_of_isNaN hd now hle

/-- Timers are never lost, never run twice and never run early. Between the operations of a site
every timer that was ever scheduled has fired once or is pending, and a function that is to run then
has a state to run in, also that of a superseded version. In a step, only a call that drains the
queue takes a timer out of it, and only one that is due and fires; a scan or a load only adds
timers. A time that is not a number never comes. And every such call, at any depth and in any world
that is passed through, runs what was due when it began, in order, and nothing else
(`World.Drained`). -/
theorem timers_conserved (h : Site.Run L C s₀ s) :
    (fired s.world.journal.toList ++ s.world.timers.seqs).Perm
      (List.range s.world.timers.nextSeq) ∧
    s.world.Backed ∧
    (∀ s', Site.Step L C s s' → TimersTold [] s.world s'.world) ∧
    s.world.timers.pending <+: s.scan.1.world.timers.pending ∧
    (∀ name modified source,
      s.world.timers.pending <+: (s.reload name modified source).world.timers.pending) ∧
    (∀ t ∈ s.world.timers.pending, t.due.isNaN = true →
      ∀ s', ReflTransGen (Site.Step L C) s s' →
        t ∈ s'.world.timers.pending ∧ t.seq ∉ fired s'.world.journal.toList) ∧
    ∀ w, Passes L s₀.world w → ∀ fuel now w' r, perform fuel (.runDue now) w = some (w', r) →
      ∃ entries, Closed entries ∧ Drained now w w' r entries := by
  refine ⟨h.timers_balance, h.backed, fun s' hs => hs.timersTold, pending_spans.scan s,
    fun name modified source => pending_spans.reloadSite s name source modified,
    fun t ht hd s' hs => ?_, fun w hw fuel now w' r hp => drained (h.timers_numbered hw) hp⟩
  have ht' := nan_stays hd hs ht
  -- it is still pending, and no number has fired and is pending, too
  have hrun : Site.Run L C s₀ s' := ⟨h.1, h.2.trans hs⟩
  have hn := hrun.timers_balance.nodup_iff.2 List.nodup_range
  exact ⟨ht', fun hf => (List.nodup_append.1 hn).2.2 _ hf _ (List.mem_map_of_mem ht') rfl⟩

/-- The text `sleep` asks for a timeout of one second. -/
def sleeper : Engine :=
  .ofRuns (fun text => (if text = "sleep" then [.timeout 1000 0] else [], none)) fun _ => ([], none)

/-- A task that schedules another one, due already, and drains the queue. -/
def restless : Plan :=
  .ofList .keep [.schedule "b.lua" "late" 1 (.finish .keep), .runDue 5]

/-- The timer of a superseded version fires, and so does one that is scheduled while another runs,
in the call that is nested there; one whose time is not a number stays. -/
theorem superseded_timer_fires :
    ∃ s : Site sleeper,
      Site.Run .all (fun _ _ => True) (.start "world" .empty none) s ∧
      fired s.world.journal.toList = [0, 1, 3] ∧ s.world.timers.seqs = [2] ∧
      (fired s.world.journal.toList ++ s.world.timers.seqs).Perm
        (List.range s.world.timers.nextSeq) := by
  let s₀ : Site sleeper := .start "world" .empty none
  let s₁ := s₀.reload "a.lua" ⟨100, 0⟩ "sleep"
  let s₂ := s₁.reload "a.lua" ⟨200, 0⟩ ""
  have hact : (s₂.actAll 3 [.schedule "b.lua" "restless" 2 restless,
      .schedule "b.lua" "never" (0 / 0) (.finish .keep), .runDue 1.5, .runDue 3]).map (fun s =>
        (fired s.world.journal.toList, s.world.timers.seqs)) = some ([0, 1, 3], [2]) := by
    decide +kernel
  obtain ⟨s, hs, he⟩ := Option.map_eq_some_iff.1 hact
  obtain ⟨hfired, hseqs⟩ := Prod.mk.inj he
  have hrun : Site.Run .all (fun _ _ => True) s₀ s :=
    (((Site.Run.refl "world" .empty none).tail (.reload s₀ "a.lua" ⟨100, 0⟩ "sleep" trivial)).tail
      (.reload s₁ "a.lua" ⟨200, 0⟩ "" trivial)).actAll (fun _ _ => trivial) hs
  exact ⟨s, hrun, hfired, hseqs, (timers_conserved hrun).1⟩

end LiveModules
