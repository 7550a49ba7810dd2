import LiveModules.Proofs.Faults

/-!
# The failing run and the spared run in lockstep

What the spared run comes to, the failing run comes to as well, but for the scar (`Tied`): calls
are taken one after the other in both worlds, and each keeps them apart as they are. The one
exception is a spared run in which something hangs on how the call ended (`Lost`): the handler is
called once more, or somebody got the answer of the command.
-/

namespace LiveModules

attribute [local irreducible] lastOf

variable {E : Engine} {k : Watch}

/-- A function of a script is on a list of its own module. -/
def Subscriber.Homed (place : Place) (s : Subscriber E) : Prop :=
  ∀ f, s = .script f → place = .surface f.origin.module

namespace World

variable {u v w w' : World E}

/-! ## What goes on in the spared run -/

/-- Whoever comes on a list is at home there. -/
def Homes (w w' : World E) : Prop :=
  ∀ place key, ∀ m ∈ (w'.roster place).listed key,
    m ∈ (w.roster place).listed key ∨ m.content.Homed place

namespace Homes

theorem subscribe (key : EventKey) (label : String) (react : Nat → GameEvent → Plan) :
    Homes w (w.subscribe key label react) := by
  intro place key' m hm
  cases place with
  | emitter =>
    rcases Roster.mem_listed_add hm with hm | ⟨-, rfl⟩
    · exact .inl hm
    · exact .inr nofun
  | hub => exact .inl hm
  | surface => exact .inl hm

theorem subscribeScript (f : ScriptFunction E) (key : EventKey) :
    Homes w (w.subscribeScript f key) := by
  intro place key' m hm
  rcases w.subscribeScript_cases f key with ⟨_, h⟩ | ⟨s, hs, -, h⟩ <;> rw [h] at hm
  · exact .inl hm
  · rw [listed_updateRoster_add (w := { w with nextId := w.nextId + 1 }) hs] at hm
    split at hm
    · rename_i hp
      refine (List.mem_append.1 hm).imp_right fun hm g hg => ?_
      obtain rfl := List.mem_singleton.1 hm
      cases hg
      exact hp.1
    · exact .inl hm

end Homes

/-- Numbers are in order, functions of scripts are at home, and `k` has begun. -/
structure Hosted (k : Watch) (w : World E) : Prop where
  since : k.told <+: w.journal.toList
  numbered : w.Numbered
  homed : ∀ place key, ∀ m ∈ (w.roster place).listed key, m.content.Homed place

/-- The journal is continued, numbers are not given back, and order is kept. -/
structure Onward (w w' : World E) : Prop where
  journal : w.journal.toList <+: w'.journal.toList
  nextId : w.nextId ≤ w'.nextId
  hosted : ∀ k, w.Hosted k → w'.Hosted k

namespace Onward

theorem refl (w : World E) : Onward w w := ⟨List.prefix_refl _, Nat.le_refl _, fun _ => id⟩

theorem trans (h : Onward u v) (h' : Onward v w) : Onward u w :=
  ⟨h.journal.trans h'.journal, Nat.le_trans h.nextId h'.nextId,
    fun k hw => h'.hosted k (h.hosted k hw)⟩

theorem of_lists (hj : w.journal.toList <+: w'.journal.toList) (hn : w.nextId ≤ w'.nextId)
    (hl : ListsGrow w w') (hh : Homes w w') : Onward w w' where
  journal := hj
  nextId := hn
  hosted _ h := ⟨h.since.trans hj, h.numbered.grow hn hl,
    fun place key m hm => (hh place key m hm).elim (h.homed place key m) id⟩

theorem of_subset (hj : w.journal.toList <+: w'.journal.toList) (hn : w.nextId ≤ w'.nextId)
    (h : ∀ place key, ∀ m ∈ (w'.roster place).listed key, m ∈ (w.roster place).listed key) :
    Onward w w' :=
  of_lists hj hn (.of_subset h) fun place key m hm => .inl (h place key m hm)

/-- Rosters stay. -/
theorem of_rosters (hj : w.journal.toList <+: w'.journal.toList) (hn : w.nextId ≤ w'.nextId)
    (hs : w'.surfaces = w.surfaces) (he : w'.emitter = w.emitter) : Onward w w' := by
  refine of_subset hj hn fun place key m hm => ?_
  cases place <;> simpa only [roster, hs, he] using hm

theorem of_eq (hj : w'.journal = w.journal) (hn : w.nextId ≤ w'.nextId)
    (hs : w'.surfaces = w.surfaces) (he : w'.emitter = w.emitter) : Onward w w' :=
  of_rosters (hj ▸ List.prefix_refl _) hn hs he

theorem note (w : World E) (e : Entry) : Onward w (w.note e) :=
  of_rosters ⟨[e], Array.toList_push.symm⟩ (Nat.le_refl _) rfl rfl

theorem grant (w : World E) (origin : Origin) (r : Request E.Callback) :
    Onward w (w.grant origin r) := by
  cases r with
  | handler key callback =>
    refine of_lists ?_ (subscribeScript_nextId_le _ _) (.subscribeScript _ _)
      (.subscribeScript _ _)
    exact (subscribeScript_journal ..).symm ▸ List.prefix_refl _
  | item | preventDefault | log =>
    exact of_rosters ⟨[_], Array.toList_push.symm⟩ (Nat.le_refl _) rfl rfl
  | _ => exact of_eq rfl (Nat.le_refl _) rfl rfl

theorem leave (w : World E) (place : Place) (key : EventKey) (id : Nat) :
    Onward w ((w.note (.left place id)).updateRoster (·.remove key id) place) := by
  have hj : ((w.note (.left place id)).updateRoster (·.remove key id) place).journal =
      w.journal.push (.left place id) := by cases place <;> rfl
  have hn : ((w.note (.left place id)).updateRoster (·.remove key id) place).nextId =
      w.nextId := by cases place <;> rfl
  refine of_subset (hj ▸ ⟨_, Array.toList_push.symm⟩) (Nat.le_of_eq hn.symm) fun q key' m hm => ?_
  rw [listed_updateRoster_remove] at hm
  split at hm
  · exact (List.mem_filter.1 hm).1
  · exact hm

end Onward

theorem onward_pervades : Pervades (Onward : World E → World E → Prop) where
  covers hr :=
    { refl := .refl
      trans := .trans
      stride := fun {w w'} h => by
        cases h with
        | nested a r h => exact hr h
        | did a r => exact .note w _
        | failed module detail => exact .note w _
        | script origin r =>
          exact finishRun_related .refl .trans
            (fun _ _ => .of_eq rfl (Nat.le_refl _) rfl rfl) (fun w r => .grant w origin r) w r
        | _ => exact .of_eq rfl (Nat.le_refl _) rfl rfl
      hear := fun w _ _ _ _ => .note w _
      leave := fun _ hu _ hv => (hu.trans hv).trans (.leave ..)
      command := fun w _ _ _ => .note w _ }
  remark w e _ := .note w e
  flag _ _ := .of_eq rfl (Nat.le_refl _) rfl rfl
  take _ _ := .of_eq rfl (Nat.le_refl _) rfl rfl
  plain w a := by
    have h := w.plain a
    generalize (w.performPlain a).1 = v at h
    cases h with
    | prevented => exact .of_rosters ⟨[_], Array.toList_push.symm⟩ (Nat.le_refl _) rfl rfl
    | listen | command => exact .of_eq rfl (Nat.le_succ _) rfl rfl
    | subscribe _ key label react =>
      exact .of_lists (List.prefix_refl _) (Nat.le_succ _) (.subscribe key label react)
        (.subscribe key label react)
    | emitter _ emitter hsub =>
      refine .of_subset (List.prefix_refl _) (Nat.le_refl _) fun place key m hm => ?_
      cases place with
      | emitter => exact hsub key m hm
      | hub => exact hm
      | surface => exact hm
    | _ => exact .of_eq rfl (Nat.le_refl _) rfl rfl

end World

/-! ## Tied computations -/

/-- In the spared run something hung on how the call ended. What the failing run comes to, if it
comes to anything, tells of the failure where the spared run goes on. -/
def Lost (k : Watch) (p : Option (World E)) (v : World E) : Prop :=
  ∃ (x : Fault E) (js : List Entry), x.Genuine k ∧
    v.journal.toList = x.after.journal.toList ++ js ∧ ¬ x.caller.Alone js ∧
    ∀ u, p = some u → x.after.journal.toList ++ x.told <+: u.journal.toList

theorem Lost.mono {p p' : Option (World E)} {v v' : World E} (h : Lost k p v)
    (hj : v.journal.toList <+: v'.journal.toList)
    (hp : ∀ u', p' = some u' → ∃ u, p = some u ∧ u.journal.toList <+: u'.journal.toList) :
    Lost k p' v' := by
  obtain ⟨x, js, hx, hv, hlost, hu⟩ := h
  obtain ⟨more, hmore⟩ := hj
  refine ⟨x, js ++ more, hx, ?_, fun ha => hlost ha.of_append, fun u' hu' => ?_⟩
  · rw [← hmore, hv, List.append_assoc]
  · obtain ⟨u, hp, huu'⟩ := hp u' hu'
    exact (hu u hp).trans huu'

/-- Whatever the second computation comes to, the first comes to the like, or the second is lost. -/
def Tied {β : Type} (k : Watch) (view : β → World E) (Q : β → β → Prop)
    (p p' : Option β) : Prop :=
  ∀ b', p' = some b' → Lost k (p.map view) (view b') ∨ ∃ b, p = some b ∧ Q b b'

/-- What `f` comes to continues the journal. -/
def Continues {β γ : Type} (view : β → World E) (view' : γ → World E) (f : β → Option γ) : Prop :=
  ∀ b c, f b = some c → (view b).journal.toList <+: (view' c).journal.toList

/-- Both computations come to worlds that are apart. -/
abbrev TiedWorlds (k : Watch) : Option (World E) → Option (World E) → Prop :=
  Tied k id (Apart k)

/-- Both computations come to the same, and to worlds that are apart. -/
abbrev TiedWith {α : Type} (k : Watch) : Option (World E × α) → Option (World E × α) → Prop :=
  Tied k Prod.fst fun b b' => Apart k b.1 b'.1 ∧ b.2 = b'.2

namespace Tied

variable {β γ : Type} {view : β → World E} {Q : β → β → Prop} {view' : γ → World E}
  {Q' : γ → γ → Prop}

theorem pure {b b' : β} (h : Q b b') : Tied k view Q (some b) (some b') := by
  intro c' hc
  exact .inr ⟨b, rfl, Option.some.inj hc ▸ h⟩

theorem imp {R : β → β → Prop} {p p' : Option β} (h : Tied k view Q p p')
    (hq : ∀ b b', p = some b → Q b b' → R b b') : Tied k view R p p' :=
  fun b' hb' => (h b' hb').imp_right fun ⟨b, hb, hb'⟩ => ⟨b, hb, hq b b' hb hb'⟩

/-- What follows, in the two computations. -/
theorem seq {p p' : Option β} {f f' : β → Option γ} (h : Tied k view Q p p')
    (hon : Continues view view' f) (hon' : Continues view view' f')
    (hf : ∀ b b', p' = some b' → Q b b' → Tied k view' Q' (f b) (f' b')) :
    Tied k view' Q' (p.bind f) (p'.bind f') := by
  intro c' hc
  obtain ⟨b', hb', hc⟩ := Option.bind_eq_some_iff.1 hc
  rcases h b' hb' with hlost | ⟨b, rfl, hq⟩
  · refine .inl (hlost.mono (hon' b' c' hc) fun u' hu => ?_)
    obtain ⟨c, hc, rfl⟩ := Option.map_eq_some_iff.1 hu
    obtain ⟨b, rfl, hb⟩ := Option.bind_eq_some_iff.1 hc
    exact ⟨view b, rfl, hon b c hb⟩
  · exact hf b b' hb' hq c' hc

theorem bind {p p' : Option β} {f : β → Option γ} (h : Tied k view Q p p')
    (hon : Continues view view' f)
    (hf : ∀ b b', p' = some b' → Q b b' → Tied k view' Q' (f b) (f b')) :
    Tied k view' Q' (p.bind f) (p'.bind f) := h.seq hon hon hf

theorem map {p p' : Option β} {f : β → γ} (h : Tied k view Q p p')
    (hview : ∀ b, (view b).journal = (view' (f b)).journal)
    (hf : ∀ b b', Q b b' → Q' (f b) (f b')) : Tied k view' Q' (p.map f) (p'.map f) := by
  rw [Option.map_eq_bind, Option.map_eq_bind]
  refine h.bind (fun b c hc => ?_) fun b b' _ hq => .pure (hf b b' hq)
  obtain rfl := Option.some.inj hc
  exact hview b ▸ List.prefix_refl _

theorem continues_foldlM {σ : Type} {step : β → σ → Option β} {l : List σ}
    (hon : ∀ a ∈ l, Continues view view (step · a)) :
    Continues view view fun b => l.foldlM step b := by
  intro b c hc
  refine foldlM_keeps (P := fun d => (view b).journal.toList <+: (view d).journal.toList) ?_
    (List.prefix_refl _) hc
  exact fun d a d' ha hd hs => hd.trans (hon a ha d d' hs)

/-- Calls in turn: the first computation may pass over some that come to nothing in the second. -/
theorem foldlM {σ : Type} {step : β → σ → Option β} (keep : σ → Bool) (P : β → Prop) :
    ∀ {l : List σ} {b b' : β}, Q b b' → P b' →
      (∀ a ∈ l, ∀ c c', P c' → Q c c' →
        Tied k view Q (if keep a then step c a else some c) (step c' a)) →
      (∀ a ∈ l, ∀ c d, P c → step c a = some d → P d) →
      (∀ a ∈ l, Continues view view (step · a)) →
      Tied k view Q ((l.filter keep).foldlM step b) (l.foldlM step b')
  | [], b, b', hq, _, _, _, _ => .pure hq
  | a :: l, b, b', hq, hp, hstep, hP, hon => by
    have hrest (c d : β) (hd : step b' a = some d) (hc : Q c d) :
        Tied k view Q ((l.filter keep).foldlM step c) (l.foldlM step d) :=
      foldlM keep P hc (hP a List.mem_cons_self b' d hp hd)
        (fun a ha => hstep a (List.mem_cons_of_mem _ ha))
        (fun a ha => hP a (List.mem_cons_of_mem _ ha))
        fun a ha => hon a (List.mem_cons_of_mem _ ha)
    have hall : Continues view view fun c => l.foldlM step c :=
      continues_foldlM fun a ha => hon a (List.mem_cons_of_mem _ ha)
    have hsome : Continues view view fun c => (l.filter keep).foldlM step c :=
      continues_foldlM fun a ha => hon a (List.mem_cons_of_mem _ (List.mem_of_mem_filter ha))
    have hfirst := hstep a List.mem_cons_self b b' hp hq
    rw [List.foldlM_cons]
    by_cases hk : keep a = true
    · rw [List.filter_cons_of_pos hk, List.foldlM_cons]
      rw [if_pos hk] at hfirst
      exact hfirst.seq hsome hall hrest
    · rw [List.filter_cons_of_neg hk]
      rw [if_neg hk] at hfirst
      exact hfirst.seq hsome hall hrest

/-- Calls in turn, all in both computations. -/
theorem foldlM_all {σ : Type} {step : β → σ → Option β} (P : β → Prop) {l : List σ} {b b' : β}
    (hq : Q b b') (hp : P b')
    (hstep : ∀ a ∈ l, ∀ c c', P c' → Q c c' → Tied k view Q (step c a) (step c' a))
    (hP : ∀ a ∈ l, ∀ c d, P c → step c a = some d → P d)
    (hon : ∀ a ∈ l, Continues view view (step · a)) :
    Tied k view Q (l.foldlM step b) (l.foldlM step b') := by
  have h := foldlM (fun _ => true) P hq hp (fun a ha c c' => by simpa using hstep a ha c c') hP hon
  rwa [List.filter_true] at h

end Tied

/-- The first computation comes to the like of `v'` and to `r`, to which the second comes, or the
second is lost. -/
def TiedAt {α : Type} (k : Watch) (p : Option (World E × α)) (v' : World E) (r : α) : Prop :=
  Lost k (p.map Prod.fst) v' ∨ ∃ v, p = some (v, r) ∧ Apart k v v'

theorem Tied.comes {α : Type} {p p' : Option (World E × α)} {v' : World E} {r : α}
    (h : TiedWith k p p') (hp : p' = some (v', r)) : TiedAt k p v' r := by
  rcases h _ hp with hlost | ⟨⟨v, r'⟩, hv, hq, rfl⟩
  · exact .inl hlost
  · exact .inr ⟨v, hv, hq⟩

theorem TiedAt.map {α β : Type} {p : Option (World E × α)} {v' : World E} {r : α}
    (h : TiedAt k p v' r) (g : α → β) : TiedAt k (p.map fun b => (b.1, g b.2)) v' (g r) := by
  rcases h with hlost | ⟨v, rfl, hq⟩
  · left
    rwa [Option.map_map]
  · exact .inr ⟨v, rfl, hq⟩

/-! ## Who is listed -/

/-- Both runs are past the fault, `js` being what was told since. -/
structure Fault.Past (x : Fault E) (k : Watch) (js : List Entry) (w w' : World E) : Prop where
  genuine : x.Genuine k
  scar : ∃ os ns, x.Scar js os ns w.marks w'.marks

/-- A handler that is called once more after it was spared. -/
theorem Fault.Past.lost {x : Fault E} {js more : List Entry} {w w' v : World E}
    (h : x.Past k js w w') {place : Place} {event : GameEvent} {id : Nat} {label : Option String}
    (hat : x.caller.isAt place event.key id = true)
    (hv : w'.journal.toList ++ more ++ [.heard place id label event] <+: v.journal.toList)
    {p : Option (World E)} (hp : ∀ u, p = some u → w.journal.toList <+: u.journal.toList) :
    Lost k p v := by
  obtain ⟨rest, hrest⟩ := hv
  obtain ⟨os, ns, hs⟩ := h.scar
  have hj : w'.journal.toList = x.after.journal.toList ++ js := hs.journal
  refine ⟨x, js ++ (more ++ [.heard place id label event]) ++ rest, h.genuine, ?_, fun ha => ?_,
    fun u hu => hs.told_of.trans (hp u hu)⟩
  · rw [← hrest, hj]
    simp only [List.append_assoc]
  · have hagain := ha.of_append
    rcases hc : x.caller with ⟨module, id', event'⟩ | _ | _ <;> rw [hc] at hat hagain
    · simp only [Caller.isAt, Bool.and_eq_true, decide_eq_true_eq] at hat
      obtain ⟨⟨rfl, -⟩, rfl⟩ := hat
      exact hagain label event (by simp)
    · cases hat
    · cases hat

/-- The lists of the failing run lack the member that failed, and nobody else. -/
theorem Apart.listed {w w' : World E} (h : Apart k w w') (place : Place) (key : EventKey) :
    ∃ keep : Member (Subscriber E) → Bool,
      (w.roster place).listed key = ((w'.roster place).listed key).filter keep ∧
      ∀ m, keep m = false → ∃ (x : Fault E) (js : List Entry), x.Past k js w w' ∧
        x.caller.isAt place key m.id = true := by
  cases h with
  | @intro _ m hg =>
    cases hg with
    | before _ _ hm =>
      subst hm
      refine ⟨fun _ => true, ?_, nofun⟩
      rw [List.filter_true]
      cases place <;> rfl
    | @after x js os ns hx _ hs =>
      refine ⟨fun a => !x.caller.isAt place key a.id, ?_, fun a ha => ?_⟩
      · exact @Caller.listed_thin E x.caller (w'.mark m) w' rfl hs.surfaces place key
      · exact ⟨x, js, ⟨hx, os, ns, hs⟩, by simpa using ha⟩

theorem Apart.contains {w w' : World E} (h : Apart k w w') (place : Place) (key : EventKey)
    (id : Nat) : (w.roster place).contains key id = (w'.roster place).contains key id ∨
      ∃ (x : Fault E) (js : List Entry), x.Past k js w w' ∧
        x.caller.isAt place key id = true := by
  obtain ⟨keep, hl, hk⟩ := h.listed place key
  by_cases hall : ∃ m, m.id = id ∧ keep m = false
  · obtain ⟨m, rfl, hm⟩ := hall
    exact .inr (hk m hm)
  · left
    unfold Roster.contains
    rw [hl, List.any_filter]
    refine List.any_congr rfl fun m => ?_
    by_cases hid : m.id = id
    · have hkeep : keep m = true := by
        by_contra hne
        exact hall ⟨m, hid, by simpa using hne⟩
      rw [hkeep, Bool.true_and]
    · simp [hid]

/-- Nobody is on a list of the failing run only. -/
theorem Apart.contains_of {w w' : World E} (h : Apart k w w') {place : Place} {key : EventKey}
    {id : Nat} (hc : (w.roster place).contains key id = true) :
    (w'.roster place).contains key id = true := by
  obtain ⟨keep, hl, -⟩ := h.listed place key
  obtain ⟨m, hm, hid⟩ := Roster.contains_iff.1 hc
  rw [hl] at hm
  exact Roster.contains_iff.2 ⟨m, (List.mem_filter.1 hm).1, hid⟩

/-! ## What is performed beneath -/

namespace World

/-- Actions performed in both worlds are tied. -/
structure Performer.Tied (k : Watch) (run : Performer E) : Prop where
  onward : ∀ {a w w' r}, run a w = some (w', r) → Onward w w'
  tied : ∀ {a} {w w' : World E}, w'.Hosted k → Apart k w w' →
    TiedWith k (run a w) (run a w')

variable {run : Performer E} {w w' : World E}

/-- Rules are due at one time for all, and rooms are the same. -/
theorem placeRule_apart {s s' : World E × List (SpawnKey × Item)}
    (h : Apart k s.1 s'.1 ∧ s.2 = s'.2) (rule : SpawnRule Float Owner) :
    Apart k (placeRule s rule).1 (placeRule s' rule).1 ∧
      (placeRule s rule).2 = (placeRule s' rule).2 := by
  obtain ⟨w, placed⟩ := s
  obtain ⟨w', placed'⟩ := s'
  obtain ⟨h, rfl⟩ := h
  have hrooms : w.game.rooms = w'.game.rooms := h.eq_of (·.game.rooms) fun _ _ => rfl
  simp only [placeRule, hrooms]
  split
  · exact ⟨h, rfl⟩
  · split
    · exact ⟨h, rfl⟩
    · refine ⟨?_, rfl⟩
      exact h.frame (fun v => { v with
        game := v.game.updateRoom rule.key.room (·.addItem rule.template) })
        (fun _ _ => rfl) (fun _ => rfl) fun v => Nat.le_refl v.nextId

theorem placeDue_apart (h : Apart k w w') (rules : List (SpawnRule Float Owner)) :
    Apart k (placeDue rules w).1 (placeDue rules w').1 ∧
      (placeDue rules w).2 = (placeDue rules w').2 :=
  List.foldl_rel (r := fun s s' : World E × List (SpawnKey × Item) =>
    Apart k s.1 s'.1 ∧ s.2 = s'.2) ⟨h, rfl⟩ fun rule _ _ _ h => placeRule_apart h rule

theorem restocked_apart (h : Apart k w w') (owner : Owner) :
    Apart k (w.restocked owner).1 (w'.restocked owner).1 ∧
      (w.restocked owner).2 = (w'.restocked owner).2 := by
  have hdue : w.spawns.due owner w.clock.now = w'.spawns.due owner w'.clock.now :=
    h.eq_of (fun v => v.spawns.due owner v.clock.now) fun _ _ => rfl
  unfold restocked
  rw [hdue]
  exact placeDue_apart (h.frame (fun v => { v with spawns := v.spawns.stamp owner v.clock.now })
    (fun _ _ => rfl) (fun _ => rfl) fun v => Nat.le_refl v.nextId) _

theorem restocked_onward (w : World E) (owner : Owner) : Onward w (w.restocked owner).1 := by
  have hs : Stride (fun _ _ => none) w { w with spawns := w.spawns.stamp owner w.clock.now } :=
    .stamp ..
  exact (onward_pervades.covers (fun h => by cases h)).strides (.head hs (placeRules_strides _ _ _))

theorem Onward.dismiss (w : World E) (place : Place) (key : EventKey) (id : Nat) (o : Outcome) :
    Onward w (w.dismiss place key id o) := by
  cases o with
  | leave => exact .leave w place key id
  | keep => exact .refl w
  | fail => exact .refl w

end World

theorem Apart.dismiss {w w' : World E} (h : Apart k w w') (place : Place) (key : EventKey)
    (id : Nat) (o : Outcome) :
    Apart k (w.dismiss place key id o) (w'.dismiss place key id o) := by
  cases o with
  | leave => exact h.leave place key id
  | keep => exact h
  | fail => exact h

namespace World

variable {run : Performer E} {w w' : World E}

section Calls

variable (hr : run.Tied k)

include hr

theorem covers_onward : Covers run Onward := onward_pervades.covers hr.onward

theorem follow_tied : ∀ (p : Plan) {w w' : World E}, w'.Hosted k → Apart k w w' →
    TiedWith k (follow run p w) (follow run p w')
  | .finish outcome, _, _, _, h => .pure ⟨h, rfl⟩
  | .act a next, w, w', hw, h => by
    refine (hr.tied hw h).bind (fun b c hc => ?_) fun b b' hb ⟨hq, ha⟩ => ?_
    · obtain ⟨v, answer⟩ := b
      simp only at hc
      split at hc
      · exact ((covers_onward hr).strides (follow_strides _ hc)).journal
      · exact ((Onward.note v _).trans ((covers_onward hr).strides (follow_strides _ hc))).journal
    · obtain ⟨u, answer⟩ := b
      obtain ⟨v, answer'⟩ := b'
      obtain rfl : answer = answer' := ha
      have hv := (hr.onward hb).hosted k hw
      simp only
      split
      · exact follow_tied (next answer) hv hq
      · exact follow_tied (next answer) ((Onward.note v _).hosted k hv) (hq.note _)

theorem spawnCheck_tied (hw : w'.Hosted k) (h : Apart k w w') (owner : Owner) :
    TiedWith k (w.spawnCheck run owner) (w'.spawnCheck run owner) := by
  obtain ⟨hv, hplaced⟩ := restocked_apart h owner
  have hhost := (w'.restocked_onward owner).hosted k hw
  rw [spawnCheck_eq, spawnCheck_eq, hplaced]
  have hon (p : SpawnKey × Item) {u v : World E}
      (hp : (run (.emit (spawnEvent p.1 p.2)) u).map (·.1) = some v) : Onward u v := by
    obtain ⟨b, hb, rfl⟩ := Option.map_eq_some_iff.1 hp
    exact hr.onward hb
  have hfold : TiedWorlds k
      ((w'.restocked owner).2.foldlM
        (fun v p => (run (.emit (spawnEvent p.1 p.2)) v).map (·.1)) (w.restocked owner).1)
      ((w'.restocked owner).2.foldlM
        (fun v p => (run (.emit (spawnEvent p.1 p.2)) v).map (·.1)) (w'.restocked owner).1) := by
    refine Tied.foldlM_all (Hosted k) hv hhost (fun p _ u u' hu hq => ?_)
      (fun p _ u v hu hp => (hon p hp).hosted k hu) fun p _ u v hp => (hon p hp).journal
    exact (hr.tied hu hq).map (fun _ => rfl) fun _ _ hb => hb.1
  exact hfold.map (fun _ => rfl) fun _ _ hq => ⟨hq, rfl⟩

theorem callPlan_tied (hw : w'.Hosted k) (h : Apart k w w') (id : Nat) (e : Entry)
    (react : Nat → Plan) :
    TiedWith k (w.callPlan run id e react) (w'.callPlan run id e react) := by
  have hcount : Apart k (w.countCall id) (w'.countCall id) := by
    cases h with
    | @intro _ m hg => exact .intro (w := w'.countCall id) hg
  have hcalls := hcount.eq_of (·.callsOf id) fun _ _ => rfl
  have hon : Onward w' (w'.countCall id) := .of_eq rfl (Nat.le_refl _) rfl rfl
  show TiedWith k (follow run (react ((w.countCall id).callsOf id - 1)) _) _
  rw [show (w.countCall id).callsOf id = (w'.countCall id).callsOf id from hcalls]
  exact follow_tied hr _ ((hon.trans (.note _ e)).hosted k hw) (hcount.note e)

omit hr in
/-- A function is called in both worlds: both calls end alike, or one fails and is spared. -/
theorem call_tied (hw : w'.Hosted k) (h : Apart k w w') (c : Caller) (f : ScriptFunction E)
    (hlisted : ∀ module id event, c = .handler module id event →
      module = f.origin.module ∧ (w'.roster (.surface module)).contains event.key id = true)
    {v' : World E} {o : Option String}
    (hc : (w'.note c.entry).callScript f c.args = (v', o)) :
    (∃ v, (w.note c.entry).callScript f c.args = (v, o) ∧ Apart k v v') ∨
    ∃ x : Fault E, x.Genuine k ∧ x.caller = c ∧ x.function = f ∧ x.world = w'.note c.entry ∧
      v' = x.after ∧ o = none ∧ (w.note c.entry).callScript f c.args =
        (x.after.note (.failed x.module x.detail), some x.detail) := by
  rcases (h.note c.entry).callScript f c.args with ⟨hq, ho⟩ | ⟨detail, hf, hfails, hends, hcall⟩
  · rw [hc] at hq ho
    exact .inl ⟨_, Prod.ext rfl ho, hq⟩
  · let x : Fault E := ⟨c, f, detail, w'.note c.entry⟩
    have hafter : v' = x.after := (congrArg Prod.fst hc).symm
    have hx : x.Genuine k := ⟨hf, ⟨w', rfl, hw.since⟩, hfails, hlisted⟩
    rw [hc] at hends
    exact .inr ⟨x, hx, rfl, rfl, rfl, hafter, hends, hcall⟩

/-! ### Subscribers -/

/-- A subscriber is called in both worlds; if it is a script that fails in one of them only, it
leaves there. -/
theorem callSubscriber_tied (hw : w'.Hosted k) (h : Apart k w w') {place : Place}
    {event : GameEvent} {m : Member (Subscriber E)} (hm : m.content.Homed place)
    (hin : (w'.roster place).contains event.key m.id = true) {v' : World E} {o : Outcome}
    (hc : w'.callSubscriber run place event m = some (v', o)) :
    TiedAt k (w.callSubscriber run place event m) v' o ∨
    ∃ (x : Fault E) (module : String), x.Genuine k ∧ place = .surface module ∧
      x.caller = .handler module m.id event ∧ v' = x.after ∧ o = .keep ∧
      w.callSubscriber run place event m = some (x.reported, .leave) := by
  unfold callSubscriber at hc ⊢
  rcases hcontent : m.content with ⟨label, react⟩ | f | owner <;> rw [hcontent] at hc <;>
    simp only at hc ⊢
  · have ht := callPlan_tied hr hw h m.id (.heard place m.id (some label) event)
      fun n => react n event
    exact .inl (ht.comes hc)
  · obtain rfl := hm f hcontent
    let c : Caller := .handler f.origin.module m.id event
    have hlisted (module : String) (id : Nat) (event' : GameEvent)
        (hc : c = .handler module id event') : module = f.origin.module ∧
          (w'.roster (.surface module)).contains event'.key id = true := by
      obtain ⟨rfl, rfl, rfl⟩ := Caller.handler.inj hc
      exact ⟨rfl, hin⟩
    rcases hcall : (w'.note c.entry).callScript f c.args with ⟨u', failure⟩
    rw [show (w'.note (.heard _ m.id none event)).callScript f event.args = (u', failure) from
      hcall] at hc
    rcases call_tied hw h c f hlisted hcall with
      ⟨u, hu, hq⟩ | ⟨x, hx, hxc, rfl, -, rfl, rfl, hu⟩
    · left
      right
      rw [show (w.note (.heard _ m.id none event)).callScript f event.args = (u, failure) from hu]
      cases failure with
      | none =>
        obtain ⟨rfl, rfl⟩ := Prod.mk.inj (Option.some.inj hc)
        exact ⟨u, rfl, hq⟩
      | some detail =>
        obtain ⟨rfl, rfl⟩ := Prod.mk.inj (Option.some.inj hc)
        exact ⟨_, rfl, (hq.write _ _).notify _⟩
    · right
      obtain ⟨rfl, rfl⟩ := Prod.mk.inj (Option.some.inj hc)
      refine ⟨x, x.module, hx, rfl, hxc, rfl, rfl, ?_⟩
      rw [show (w.note (.heard _ m.id none event)).callScript x.function event.args = _ from hu]
      unfold Fault.reported Fault.notice
      rw [hxc]
      rfl
  · left
    have hn := h.note (.heard place m.id none event)
    have hhost := (Onward.note w' (.heard place m.id none event)).hosted k hw
    have ht : TiedWith k
        (((w.note (.heard place m.id none event)).spawnCheck run (.surface owner)).map
          fun r => (r.1, Outcome.keep))
        (((w'.note (.heard place m.id none event)).spawnCheck run (.surface owner)).map
          fun r => (r.1, Outcome.keep)) :=
      (spawnCheck_tied hr hhost hn (.surface owner)).map (fun _ => rfl) fun _ _ hq => ⟨hq.1, rfl⟩
    rw [Option.map_eq_bind, Option.map_eq_bind] at ht
    exact ht.comes hc

/-- Somebody is called who is on the list in the spared run. -/
theorem deliver_heard {place : Place} {event : GameEvent} {m : Member (Subscriber E)}
    {n : Nat} {v : World E × Nat} (hc : (w.roster place).contains event.key m.id = true)
    (hd : deliver run place event (w, n) m = some v) :
    ∃ label, Onward (w.note (.heard place m.id label event)) v.1 := by
  rw [deliver_eq hc] at hd
  obtain ⟨⟨u, o⟩, hu, rfl⟩ := Option.map_eq_some_iff.1 hd
  obtain ⟨label, hs⟩ := callSubscriber_strides hu
  exact ⟨label, ((covers_onward hr).strides hs).trans (.dismiss u place event.key m.id o)⟩

theorem deliver_onward {place : Place} {event : GameEvent} {m : Member (Subscriber E)} {n : Nat}
    {v : World E × Nat} (hd : deliver run place event (w, n) m = some v) : Onward w v.1 := by
  by_cases hc : (w.roster place).contains event.key m.id = true
  · obtain ⟨label, hon⟩ := deliver_heard hr hc hd
    exact (Onward.note w _).trans hon
  · rw [deliver_skip hc] at hd
    exact Option.some.inj hd ▸ .refl w

theorem deliver_tied (hw : w'.Hosted k) (h : Apart k w w') {place : Place} {event : GameEvent}
    {m : Member (Subscriber E)} {n : Nat} (hm : m.content.Homed place) :
    TiedWith k (deliver run place event (w, n) m) (deliver run place event (w', n) m) := by
  intro v' hd
  by_cases hc : (w'.roster place).contains event.key m.id = true
  · rcases h.contains place event.key m.id with hsame | ⟨x, js, hx, hat⟩
    · rw [deliver_eq hc] at hd
      rw [deliver_eq (hsame.trans hc)]
      obtain ⟨⟨u', o⟩, hu', rfl⟩ := Option.map_eq_some_iff.1 hd
      rcases callSubscriber_tied hr hw h hm hc hu' with
        (hlost | ⟨u, hu, hq⟩) | ⟨x, module, hx, rfl, hxc, rfl, rfl, hu⟩
      · refine .inl (hlost.mono (Onward.dismiss u' place event.key m.id o).journal fun u hu => ?_)
        obtain ⟨r, hr', rfl⟩ := Option.map_eq_some_iff.1 hu
        obtain ⟨⟨u₁, o₁⟩, hu₁, rfl⟩ := Option.map_eq_some_iff.1 hr'
        exact ⟨u₁, Option.map_eq_some_iff.2 ⟨_, hu₁, rfl⟩, (Onward.dismiss u₁ ..).journal⟩
      · have hdismiss := hq.dismiss place event.key m.id o
        exact .inr ⟨_, Option.map_eq_some_iff.2 ⟨_, hu, rfl⟩, hdismiss, rfl⟩
      · -- it fails in one run only, and leaves there
        obtain ⟨label, hs⟩ := callSubscriber_strides hu'
        have hon : Onward w' x.after := (Onward.note w' _).trans ((covers_onward hr).strides hs)
        obtain ⟨m', hm', hid⟩ := Roster.contains_iff.1 hc
        have hlt : m.id < w'.nextId := hid ▸ hw.numbered.lt _ _ m' hm'
        have hwithin : x.caller.Within x.after.nextId := by
          rw [hxc]
          exact Nat.lt_of_lt_of_le hlt hon.nextId
        have hleave : x.reported.dismiss (.surface module) event.key m.id .leave = x.suffered := by
          unfold Fault.suffered
          rw [hxc]
          rfl
        refine .inr ⟨_, Option.map_eq_some_iff.2 ⟨_, hu, rfl⟩, ?_, rfl⟩
        show Apart k (x.reported.dismiss (.surface module) event.key m.id .leave) x.after
        rw [hleave]
        exact hx.apart hwithin
    · obtain ⟨label, hon⟩ := deliver_heard hr hc hd
      have hj : w'.journal.toList ++ [] ++ [.heard place m.id label event] <+:
          v'.1.journal.toList := by
        rw [List.append_nil, ← Array.toList_push]
        exact hon.journal
      refine .inl (hx.lost hat hj fun u hu => ?_)
      obtain ⟨r, hr', rfl⟩ := Option.map_eq_some_iff.1 hu
      exact (deliver_onward hr hr').journal
  · have hc' : ¬ (w.roster place).contains event.key m.id = true := fun hw => hc (h.contains_of hw)
    rw [deliver_skip hc] at hd
    rw [deliver_skip hc']
    exact .inr ⟨(w, n), rfl, Option.some.inj hd ▸ h, Option.some.inj hd ▸ rfl⟩

/-- An event is delivered to all who are listed, in both worlds; those of the spared run who are
missing in the other are not called, or the spared run is lost. -/
theorem dispatch_tied (hw : w'.Hosted k) (h : Apart k w w') (place : Place)
    (event : GameEvent) :
    TiedWith k (w.dispatch run place event) (w'.dispatch run place event) := by
  obtain ⟨keep, hl, hk⟩ := h.listed place event.key
  unfold dispatch
  rw [hl]
  have hfold : Tied k Prod.fst
      (fun s s' : World E × Nat => (Apart k s.1 s'.1 ∧ s.2 = s'.2) ∧ Onward w s.1)
      ((((w'.roster place).listed event.key).filter keep).foldlM (deliver run place event) (w, 0))
      (((w'.roster place).listed event.key).foldlM (deliver run place event) (w', 0)) := by
    refine Tied.foldlM keep (fun s => Onward w' s.1) ⟨⟨h, rfl⟩, .refl w⟩ (.refl w') ?_ ?_ ?_
    · rintro m hm ⟨v, n⟩ ⟨v', n'⟩ hon' ⟨⟨hq, hn⟩, hon⟩
      obtain rfl : n = n' := hn
      have hv : v'.Hosted k := hon'.hosted k hw
      by_cases hkeep : keep m = true
      · rw [if_pos hkeep]
        have hhome := hw.homed place event.key m hm
        refine (deliver_tied hr hv hq hhome).imp fun u u' hu hq => ⟨hq, ?_⟩
        exact hon.trans (deliver_onward hr hu)
      · rw [if_neg hkeep]
        intro u hu
        by_cases hc : (v'.roster place).contains event.key m.id = true
        · obtain ⟨x, js, hx, hat⟩ := hk m (by simpa using hkeep)
          obtain ⟨more, hmore⟩ := hon'.journal
          obtain ⟨label, hheard⟩ := deliver_heard hr hc hu
          have hj : w'.journal.toList ++ more ++ [.heard place m.id label event] <+:
              u.1.journal.toList := by
            rw [hmore, ← Array.toList_push]
            exact hheard.journal
          refine .inl (hx.lost hat hj fun u hu => ?_)
          obtain rfl := Option.some.inj hu
          exact hon.journal
        · rw [deliver_skip hc] at hu
          obtain rfl := Option.some.inj hu
          exact .inr ⟨_, rfl, ⟨hq, rfl⟩, hon⟩
    · exact fun m _ s u hon hd => hon.trans (deliver_onward hr hd)
    · exact fun m _ s u hd => (deliver_onward hr hd).journal
  exact hfold.imp fun _ _ _ hq => hq.1

theorem relay_tied (hw : w'.Hosted k) (h : Apart k w w') (event : GameEvent) :
    TiedWorlds k (w.relay run event) (w'.relay run event) := by
  have hkeys : w.surfaces.keys = w'.surfaces.keys := by
    cases h with
    | intro hg => exact hg.keys_eq
  have hon (module : String) {v v' : World E}
      (hd : (v.dispatch run (.surface module) event).bind (fun r => some r.1) = some v') :
      Onward v v' := by
    obtain ⟨r, hm, hv'⟩ := Option.bind_eq_some_iff.1 hd
    obtain rfl := Option.some.inj hv'
    exact (covers_onward hr).dispatch hm
  unfold relay
  rw [hkeys]
  refine Tied.foldlM_all (Hosted k) h hw (fun module _ v v' hv hq => ?_)
    (fun module _ v v' hv hd => (hon module hd).hosted k hv) fun module _ v v' hd =>
      (hon module hd).journal
  refine Tied.bind (dispatch_tied hr hv hq (.surface module) event) (fun r u hu => ?_)
    fun r r' _ hrr => .pure hrr.1
  obtain rfl := Option.some.inj hu
  exact List.prefix_refl _

theorem callListener_tied (hw : w'.Hosted k) (h : Apart k w w') (event : GameEvent)
    (m : Member Listener) :
    TiedWorlds k (w.callListener run event m) (w'.callListener run event m) := by
  unfold callListener
  rcases m.content with ⟨label, react⟩ | _
  · refine Tied.bind (callPlan_tied hr hw h m.id (.heard .hub m.id (some label) event)
      fun n => react n event) (fun r u hu => ?_) fun r r' _ hrr => .pure hrr.1
    obtain rfl := Option.some.inj hu
    exact List.prefix_refl _
  · exact relay_tied hr ((Onward.note w' _).hosted k hw) (h.note _) event

theorem emitPlain_tied (hw : w'.Hosted k) (h : Apart k w w') (event : GameEvent) :
    TiedWorlds k (w.emitPlain run event) (w'.emitPlain run event) := by
  have hhub : w.hub = w'.hub := h.eq_of (·.hub) fun _ _ => rfl
  unfold emitPlain
  rw [hhub]
  have hon (m : Member Listener) {v v' : World E} (hc : v.callListener run event m = some v') :
      Onward v v' := (covers_onward hr).callListener hc
  exact Tied.foldlM_all (Hosted k) h hw
    (fun m _ v v' hv hq => callListener_tied hr hv hq event m)
    (fun m _ v v' hv hc => (hon m hc).hosted k hv) fun m _ v v' hc => (hon m hc).journal

omit hr in
theorem setFlag_apart (h : Apart k w w') (b : Bool) :
    Apart k (w.setFlag b) (w'.setFlag b) :=
  h.frame (·.setFlag b) (fun _ _ => rfl) (fun _ => rfl) fun v => Nat.le_refl v.nextId

theorem emit_tied (hw : w'.Hosted k) (h : Apart k w w') (event : GameEvent) :
    TiedWith k (w.emit run event) (w'.emit run event) := by
  have hflag : w.flag = w'.flag := h.eq_of (·.flag) fun _ _ => rfl
  have hon : Onward w' (w'.setFlag false) := onward_pervades.flag w' false
  rw [emit_eq, emit_eq, hflag]
  refine (emitPlain_tied hr (hon.hosted k hw) (setFlag_apart h false) event).map (fun _ => rfl)
    fun v v' hq => ⟨setFlag_apart hq _, ?_⟩
  exact hq.eq_of (!·.flag) fun _ _ => rfl

/-! ### Commands and timers -/

/-- The function that a command line means is called for `x`, and fails in `w` only. -/
structure FailsCommand (k : Watch) (w' : World E) (player line : String) (x : Fault E)
    (key : CommandKey) : Prop where
  genuine : x.Genuine k
  caller : x.caller = .command key ⟨player, (CommandLine.ofText line).rest⟩
  world : x.world = w'.note x.caller.entry
  bound : ∃ c : Command (CommandAction E), c.action = .script x.function ∧
    (CommandLine.ofText line).resolve w'.game.commands = some (key, c)

/-- A command line is run in both worlds; a function that fails in one of them only makes the
difference between the answers. -/
theorem runCommand_tied (hw : w'.Hosted k) (h : Apart k w w') {player line : String}
    {v' : World E} {r : Except HostError Bool}
    (hc : w'.runCommand run player line = some (v', r)) :
    TiedAt k (w.runCommand run player line) v' r ∨
    ∃ x key, FailsCommand k w' player line x key ∧ v' = x.after ∧ r = .ok true ∧
      w.runCommand run player line =
        some (x.suffered, .error (.handler x.module key.verb x.detail)) := by
  have hcommands : w.game.commands = w'.game.commands := h.eq_of (·.game.commands) fun _ _ => rfl
  unfold runCommand at hc ⊢
  simp only [hcommands] at hc ⊢
  rcases hres : (CommandLine.ofText line).resolve w'.game.commands with _ | ⟨key, command⟩ <;>
    rw [hres] at hc <;> simp only at hc ⊢
  · obtain ⟨rfl, rfl⟩ := Prod.mk.inj (Option.some.inj hc)
    exact .inl (.inr ⟨w, rfl, h⟩)
  rcases ha : command.action with ⟨id, react⟩ | f <;> rw [ha] at hc <;> simp only at hc ⊢
  · have ht := callPlan_tied hr hw h id
      (.commanded key (some key.display) ⟨player, (CommandLine.ofText line).rest⟩)
      fun n => react n ⟨player, (CommandLine.ofText line).rest⟩
    refine .inl (Tied.comes (ht.bind (fun b d hd => ?_) fun b b' _ hq => ?_) hc)
    · obtain ⟨u, o⟩ := b
      cases o <;>
      · obtain rfl := Option.some.inj hd
        exact List.prefix_refl _
    · obtain ⟨u, o⟩ := b
      obtain ⟨u', o'⟩ := b'
      obtain ⟨hq, ho⟩ := hq
      obtain rfl : o = o' := ho
      cases o <;> exact .pure ⟨hq, rfl⟩
  · let c : Caller := .command key ⟨player, (CommandLine.ofText line).rest⟩
    rcases hcall : (w'.note c.entry).callScript f c.args with ⟨u', failure⟩
    rw [show (w'.note (.commanded key none _)).callScript f [.string player, _] = (u', failure) from
      hcall] at hc
    rcases call_tied hw h c f nofun hcall with ⟨u, hu, hq⟩ | ⟨x, hx, hxc, rfl, hxw, rfl, rfl, hu⟩
    · left
      right
      rw [show (w.note (.commanded key none _)).callScript f [.string player, _] = (u, failure) from
        hu]
      cases failure with
      | none =>
        obtain ⟨rfl, rfl⟩ := Prod.mk.inj (Option.some.inj hc)
        exact ⟨u, rfl, hq⟩
      | some detail =>
        obtain ⟨rfl, rfl⟩ := Prod.mk.inj (Option.some.inj hc)
        exact ⟨_, rfl, (hq.write _ _).notify _⟩
    · right
      obtain ⟨rfl, rfl⟩ := Prod.mk.inj (Option.some.inj hc)
      refine ⟨x, key, ⟨hx, hxc, hxc ▸ hxw, command, ha, hres⟩, rfl, rfl, ?_⟩
      rw [show (w.note (.commanded key none _)).callScript x.function [.string player, _] = _ from
        hu]
      unfold Fault.suffered Fault.reported Fault.notice
      rw [hxc]
      rfl

theorem fire_tied (hw : w'.Hosted k) (h : Apart k w w') (t : Timer (Task E)) :
    TiedWorlds k (fire run w t) (fire run w' t) := by
  unfold fire
  rcases t.task with ⟨label, p⟩ | f
  · refine Tied.bind (follow_tied hr p ((Onward.note w' _).hosted k hw) (h.note _))
      (fun r u hu => ?_) fun r r' _ hrr => .pure hrr.1
    obtain rfl := Option.some.inj hu
    exact List.prefix_refl _
  · intro v' hc
    simp only at hc ⊢
    let c : Caller := .timer t.seq
    rcases hcall : (w'.note c.entry).callScript f c.args with ⟨u', failure⟩
    rw [show (w'.note (.fired t.seq none)).callScript f [] = (u', failure) from hcall] at hc
    right
    rcases call_tied hw h c f nofun hcall with ⟨u, hu, hq⟩ | ⟨x, hx, hxc, rfl, -, rfl, rfl, hu⟩
    · rw [show (w.note (.fired t.seq none)).callScript f [] = (u, failure) from hu]
      cases failure with
      | none => exact ⟨u, rfl, Option.some.inj hc ▸ hq⟩
      | some detail => exact ⟨_, rfl, Option.some.inj hc ▸ (hq.write _ _).notify _⟩
    · obtain rfl := Option.some.inj hc
      have hwithin : x.caller.Within x.after.nextId := by
        rw [hxc]
        trivial
      refine ⟨x.suffered, ?_, hx.apart hwithin⟩
      rw [show (w.note (.fired t.seq none)).callScript x.function [] = _ from hu]
      unfold Fault.suffered Fault.reported Fault.notice
      rw [hxc]
      rfl

theorem fire_onward {t : Timer (Task E)} (h : fire run w t = some w') : Onward w w' :=
  (Onward.note w _).trans ((covers_onward hr).strides (fire_strides h))

theorem runDue_tied (hw : w'.Hosted k) (h : Apart k w w') (now : Float) :
    TiedWith k (w.runDue run now) (w'.runDue run now) := by
  have htimers : w.timers = w'.timers := h.eq_of (·.timers) fun _ _ => rfl
  have htake : Apart k { w with timers := w.timers.afterTaking now }
      { w' with timers := w'.timers.afterTaking now } :=
    h.frame (fun v => { v with timers := v.timers.afterTaking now }) (fun _ _ => rfl)
      (fun _ => rfl) fun v => Nat.le_refl v.nextId
  have hhost := (onward_pervades.take w' now).hosted k hw
  rw [htimers] at htake
  have hfold : TiedWorlds k
      ((w'.timers.due now).foldlM (fire run) { w with timers := w'.timers.afterTaking now })
      ((w'.timers.due now).foldlM (fire run) { w' with timers := w'.timers.afterTaking now }) :=
    Tied.foldlM_all (Hosted k) htake hhost (fun t _ v v' hv hq => fire_tied hr hv hq t)
      (fun t _ v v' hv hf => (fire_onward hr hf).hosted k hv)
      fun t _ v v' hf => (fire_onward hr hf).journal
  rw [runDue_eq, runDue_eq, htimers]
  exact hfold.map (fun _ => rfl) fun _ _ hq => ⟨hq, rfl⟩

end Calls

/-! ## Actions -/

theorem notifyAll_apart (h : Apart k w w') (notices : List Notice) :
    Apart k (notices.foldl notify w) (notices.foldl notify w') :=
  List.foldl_rel h fun n _ _ _ h => h.notify n

/-- Actions that neither call anybody nor tell or say anything look at no mark. -/
theorem performPlain_mark (v : World E) (m : Marks E) (a : Action)
    (hn : ∀ notices, a ≠ .notify notices) (hp : a ≠ .preventDefault) :
    (v.mark m).performPlain a = ((v.performPlain a).1.mark m, (v.performPlain a).2) ∧
      (v.performPlain a).1.marks = v.marks ∧ v.nextId ≤ (v.performPlain a).1.nextId := by
  cases a with
  | notify notices => exact absurd rfl (hn notices)
  | preventDefault => exact absurd rfl hp
  | off label =>
    simp only [performPlain, unlisten]
    have hl : (v.mark m).listenerIds.find? label = v.listenerIds.find? label := rfl
    rw [hl]
    split <;> exact ⟨rfl, rfl, Nat.le_refl _⟩
  | unsubscribe key label =>
    simp only [performPlain, unsubscribe]
    have hl : (v.mark m).subscriberIds.find? label = v.subscriberIds.find? label := rfl
    rw [hl]
    split <;> exact ⟨rfl, rfl, Nat.le_refl _⟩
  | createRoom id spec =>
    simp only [performPlain, createRoom]
    split <;> exact ⟨rfl, rfl, Nat.le_refl _⟩
  | putItem room item | takeItem room item | getItem room item =>
    simp only [performPlain, itemAction]
    have hl : (v.mark m).game.rooms.find? room = v.game.rooms.find? room := rfl
    rw [hl]
    split <;> exact ⟨rfl, rfl, Nat.le_refl _⟩
  | on | onAny | createCommand | subscribe => exact ⟨rfl, rfl, Nat.le_succ _⟩
  | _ => exact ⟨rfl, rfl, Nat.le_refl _⟩

/-- An action that calls nobody does and answers the same in both worlds. -/
theorem performPlain_apart (h : Apart k w w') (a : Action) :
    Apart k (w.performPlain a).1 (w'.performPlain a).1 ∧
      (w.performPlain a).2 = (w'.performPlain a).2 := by
  by_cases hn : ∃ notices, a = .notify notices
  · obtain ⟨notices, rfl⟩ := hn
    exact ⟨notifyAll_apart h notices, rfl⟩
  by_cases hp : a = .preventDefault
  · subst hp
    have hset : Apart k { w with game := w.game.preventDefault }
        { w' with game := w'.game.preventDefault } := setFlag_apart h true
    exact ⟨hset.note .prevented, rfl⟩
  have hmark (v : World E) (m : Marks E) := performPlain_mark v m a (fun n h => hn ⟨n, h⟩) hp
  constructor
  · exact h.frame (fun v => (v.performPlain a).1) (fun v m => by rw [(hmark v m).1])
      (fun v => (hmark v v.marks).2.1) fun v => (hmark v v.marks).2.2
  · exact h.eq_of (fun v => (v.performPlain a).2) fun v m => by rw [(hmark v m).1]

/-- One action in both worlds; a command that fails in one of them is the only one with two
answers. -/
theorem step_tied (hr : run.Tied k) (hw : w'.Hosted k) (h : Apart k w w') {a : Action}
    {v' : World E} {r : Answer} (hs : w'.step run a = some (v', r)) :
    TiedAt k (w.step run a) v' r ∨
    ∃ player line x key, a = .runCommand player line ∧
      FailsCommand k w' player line x key ∧ v' = x.after ∧ r = .flag true ∧
      w.step run a = some (x.suffered, .failed (.handler x.module key.verb x.detail)) := by
  have plain (ha : ∀ v : World E, v.step run a = some (v.performPlain a)) :
      ∃ v, w.step run a = some (v, r) ∧ Apart k v v' := by
    obtain ⟨hq, hr⟩ := performPlain_apart h a
    rw [ha] at hs
    rw [Option.some.inj hs] at hq hr
    exact ⟨_, (ha w).trans (congrArg some (Prod.ext rfl hr)), hq⟩
  cases a with
  | emit event =>
    refine .inl (Tied.comes ((emit_tied hr hw h event).map (fun _ => rfl) fun _ _ hq => ?_) hs)
    exact ⟨hq.1, congrArg Answer.flag hq.2⟩
  | emitPlain event =>
    have ht : TiedWith k ((w.emitPlain run event).map fun v => (v, Answer.nothing))
        ((w'.emitPlain run event).map fun v => (v, Answer.nothing)) :=
      (emitPlain_tied hr hw h event).map (fun _ => rfl) fun _ _ hq => ⟨hq, rfl⟩
    exact .inl (ht.comes hs)
  | dispatch event =>
    refine .inl (Tied.comes ((dispatch_tied hr hw h .emitter event).map (fun _ => rfl)
      fun _ _ hq => ?_) hs)
    exact ⟨hq.1, congrArg Answer.count hq.2⟩
  | runDue now =>
    refine .inl (Tied.comes ((runDue_tied hr hw h now).map (fun _ => rfl) fun _ _ hq => ?_) hs)
    exact ⟨hq.1, congrArg Answer.count hq.2⟩
  | runCommand player line =>
    rw [step_runCommand] at hs ⊢
    obtain ⟨⟨u', answer⟩, hu', he⟩ := Option.map_eq_some_iff.1 hs
    obtain ⟨rfl, rfl⟩ := Prod.mk.inj he
    rcases runCommand_tied hr hw h hu' with ht | ⟨x, key, hx, hv, ha, hu⟩
    · exact .inl (ht.map answerOf)
    · subst ha
      exact .inr ⟨player, line, x, key, rfl, hx, hv, rfl, Option.map_eq_some_iff.2 ⟨_, hu, rfl⟩⟩
  | _ => exact .inl (.inr (plain fun _ => rfl))

/-- The answer of a command that fails is told, so whoever ran it got it. -/
theorem FailsCommand.lost {player line : String} {x : Fault E} {key : CommandKey}
    (h : FailsCommand k w' player line x key) (a : Action) (r r' : Answer) :
    Lost k (some (x.suffered.note (.ended a r))) (x.after.note (.ended a r')) := by
  refine ⟨x, [.ended a r'], h.genuine, Array.toList_push, fun ha => ?_, fun u hu => ?_⟩
  · rw [h.caller] at ha
    exact ha a r' [] rfl
  · obtain rfl := Option.some.inj hu
    have hs : x.Scar [] [] [] x.suffered.marks x.after.marks := Fault.scar_suffered
    exact hs.told_of.trans (Onward.note x.suffered _).journal

end World

/-- Actions are tied, whatever the depth. -/
theorem perform_tied (k : Watch) : ∀ fuel : Nat,
    World.Performer.Tied k (perform (E := E) fuel)
  | 0 => by
    refine ⟨fun h => ?_, fun _ _ _ h => ?_⟩ <;> cases h
  | fuel + 1 => by
    refine ⟨World.onward_pervades.perform (fuel + 1), fun {a w w'} hw h => ?_⟩
    rintro ⟨v', r⟩ hv
    obtain ⟨⟨u', answer⟩, hu', he⟩ := Option.bind_eq_some_iff.1 hv
    obtain ⟨rfl, rfl⟩ := Prod.mk.inj (Option.some.inj he)
    rcases World.step_tied (perform_tied k fuel) ((World.Onward.note w' _).hosted k hw)
      (h.note (.began a)) hu' with
      (hlost | ⟨u, hu, hq⟩) | ⟨player, line, x, key, -, hx, rfl, rfl, hu⟩
    · refine .inl (hlost.mono (World.Onward.note u' _).journal fun v hv => ?_)
      obtain ⟨b, hb, rfl⟩ := Option.map_eq_some_iff.1 hv
      obtain ⟨⟨u, answer'⟩, hu, hb⟩ := Option.bind_eq_some_iff.1 hb
      obtain rfl := Option.some.inj hb
      exact ⟨u, Option.map_eq_some_iff.2 ⟨_, hu, rfl⟩, (World.Onward.note u _).journal⟩
    · exact .inr ⟨_, Option.bind_eq_some_iff.2 ⟨_, hu, rfl⟩, hq.note _, rfl⟩
    · have hp : perform (fuel + 1) a w =
          some (x.suffered.note (.ended a (.failed (.handler x.module key.verb x.detail))),
            .failed (.handler x.module key.verb x.detail)) :=
        Option.bind_eq_some_iff.2 ⟨_, hu, rfl⟩
      rw [hp]
      exact .inl (hx.lost _ _ _)

end LiveModules
