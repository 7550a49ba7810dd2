import LiveModules.Proofs.Deliveries
import LiveModules.Proofs.Depth
import LiveModules.Proofs.Relisting
import LiveModules.Proofs.Tidiness

/-!
# What a dispatch does

A dispatch goes through those who are on the list when it begins: who is still there when their turn
comes is called, and anyone else is passed over (`World.TakeTurns`). Callbacks do to the lists
whatever they like meanwhile, also by dispatches of their own, but who comes meanwhile has no turn
(`dispatch_in_turns`).
-/

namespace LiveModules

attribute [local irreducible] lastOf

variable {E : Engine} {L : Licence} {C : FileTree → FileTree → Prop}

namespace World

/-! ## Turns -/

/-- Members take their turns: who is on the list then is called, and anyone else is passed over.
`called` are the numbers of those who are called. -/
inductive TakeTurns (run : Performer E) (place : Place) (event : GameEvent) :
    List (Member (Subscriber E)) → List Nat → World E → World E → Prop
  | done (w) : TakeTurns run place event [] [] w w
  | pass {m members called w w'} : ¬ (w.roster place).contains event.key m.id →
      TakeTurns run place event members called w w' →
      TakeTurns run place event (m :: members) called w w'
  | call {m members called w v w' outcome} : (w.roster place).contains event.key m.id →
      w.callSubscriber run place event m = some (v, outcome) →
      TakeTurns run place event members called (v.dismiss place event.key m.id outcome) w' →
      TakeTurns run place event (m :: members) (m.id :: called) w w'

variable {u v w w' : World E} {run : Performer E} {place : Place} {event : GameEvent}
  {entries rest : List Entry}

/-- Deliveries in turn are turns, and each call counts one. -/
theorem delivers_iff {members : List (Member (Subscriber E))} {k n : Nat} :
    members.foldlM (deliver run place event) (w, k) = some (w', n) ↔
      ∃ called, TakeTurns run place event members called w w' ∧ n = k + called.length := by
  induction members generalizing w k with
  | nil =>
    rw [List.foldlM_nil]
    constructor
    · intro h
      cases h
      exact ⟨[], .done _, rfl⟩
    · rintro ⟨called, ht, rfl⟩
      cases ht
      rfl
  | cons m members ih =>
    rw [List.foldlM_cons]
    by_cases hc : (w.roster place).contains event.key m.id
    · rw [deliver_eq hc]
      constructor
      · intro h
        obtain ⟨_, hd, h⟩ := Option.bind_eq_some_iff.1 h
        obtain ⟨⟨v, outcome⟩, hv, he⟩ := Option.map_eq_some_iff.1 hd
        cases he
        obtain ⟨called, ht, rfl⟩ := ih.1 h
        refine ⟨m.id :: called, .call hc hv ht, ?_⟩
        rw [List.length_cons, Nat.add_right_comm, Nat.add_assoc]
      · rintro ⟨called, ht, rfl⟩
        cases ht with
        | pass hn => exact absurd hc hn
        | @call _ _ called _ v _ outcome _ hv ht =>
          rw [hv]
          refine ih.2 ⟨called, ht, ?_⟩
          rw [List.length_cons, Nat.add_right_comm, Nat.add_assoc]
    · rw [deliver_skip hc]
      constructor
      · intro h
        obtain ⟨called, ht, hn⟩ := ih.1 h
        exact ⟨called, .pass hc ht, hn⟩
      · rintro ⟨called, ht, rfl⟩
        cases ht with
        | pass _ ht => exact ih.2 ⟨called, ht, rfl⟩
        | call hc' => exact absurd hc' hc

theorem dispatch_iff {n : Nat} : w.dispatch run place event = some (w', n) ↔
    ∃ called, TakeTurns run place event ((w.roster place).listed event.key) called w w' ∧
      n = called.length := by
  rw [dispatch, delivers_iff]
  simp only [Nat.zero_add]

namespace TakeTurns

variable {members : List (Member (Subscriber E))} {called : List Nat}

/-- Who is called is called once, in the order of the list. -/
theorem called_sublist (h : TakeTurns run place event members called w w') :
    called.Sublist (members.map (·.id)) := by
  induction h with
  | done => exact .slnil
  | pass _ _ ih => exact ih.cons _
  | call _ _ _ ih => exact ih.cons_cons _

/-- Besides the actions of those who are called, the calls are all that is told. -/
theorem delivers (hr : ∀ {a w w' r}, run a w = some (w', r) → Delivers [] w w')
    (h : TakeTurns run place event members called w w') :
    Delivers (called.map fun id => (place, id, event)) w w' := by
  induction h with
  | done => exact .of_eq rfl
  | pass _ _ ih => exact ih
  | call _ hv _ ih =>
    exact ((callSubscriber_delivers hr hv).trans (dismiss_silent ..)).trans ih

/-- More fuel changes no turn. -/
theorem mono {n k : Nat} (hnk : n ≤ k)
    (h : TakeTurns (perform n) place event members called w w') :
    TakeTurns (perform k) place event members called w w' := by
  induction h with
  | done => exact .done _
  | pass hc _ ih => exact .pass hc ih
  | call hc hv _ ih => exact .call hc (callSubscriber_reaches (perform_mono hnk) _ _ _ _ _ hv) ih

/-- Where every call that comes up returns, whatever fuel that takes, all turns are taken. -/
theorem all (hcalls : ∀ fuel before m after called v, members = before ++ m :: after →
      TakeTurns (perform fuel) place event before called w v →
      (v.roster place).contains event.key m.id →
      ∃ more, (v.callSubscriber (perform more) place event m).isSome) :
    ∃ fuel called w', TakeTurns (perform fuel) place event members called w w' := by
  induction members generalizing w with
  | nil => exact ⟨0, [], w, .done w⟩
  | cons m members ih =>
    by_cases hc : (w.roster place).contains event.key m.id
    · obtain ⟨more, hsome⟩ := hcalls 0 [] m members [] w rfl (.done w) hc
      obtain ⟨⟨v, outcome⟩, hv⟩ := Option.isSome_iff_exists.1 hsome
      have hcall (fuel : Nat) : w.callSubscriber (perform (max more fuel)) place event m =
          some (v, outcome) :=
        callSubscriber_reaches (perform_mono (Nat.le_max_left ..)) _ _ _ _ _ hv
      obtain ⟨fuel, called, w', h⟩ := ih (w := v.dismiss place event.key m.id outcome)
        fun fuel before m' after called v' he ht hc' =>
          hcalls (max more fuel) (m :: before) m' after _ v' (by rw [he]; rfl)
            (.call hc (hcall fuel) (ht.mono (Nat.le_max_right ..))) hc'
      exact ⟨max more fuel, m.id :: called, w',
        .call hc (hcall fuel) (h.mono (Nat.le_max_right ..))⟩
    · obtain ⟨fuel, called, w', h⟩ := ih fun fuel before m' after called v' he ht hc' =>
        hcalls fuel (m :: before) m' after _ v' (by rw [he]; rfl) (.pass hc ht) hc'
      exact ⟨fuel, called, w', .pass hc h⟩

end TakeTurns

/-! ## The lists afterwards -/

/-- A part of a list that is in order consists of those of the list who are in it. -/
theorem sublist_eq_filter {α : Type} {kept members : List (Member α)} (hs : kept.Sublist members)
    (h : members.Pairwise fun a b => a.id < b.id) :
    kept = members.filter fun m => kept.any (·.id == m.id) := by
  induction hs with
  | slnil => rfl
  | @cons kept members m hs ih =>
    obtain ⟨hm, hrest⟩ := List.pairwise_cons.1 h
    have hne : ¬ kept.any (·.id == m.id) = true := by
      simp only [List.any_eq_true, beq_iff_eq, not_exists, not_and]
      exact fun m' hm' => Nat.ne_of_gt (hm m' (hs.subset hm'))
    rw [List.filter_cons, if_neg hne]
    exact ih hrest
  | @cons_cons kept members m hs ih =>
    obtain ⟨hm, hrest⟩ := List.pairwise_cons.1 h
    rw [List.filter_cons, if_pos (by simp)]
    congr 1
    refine (ih hrest).trans (List.filter_congr fun m' hm' => ?_)
    simp [Nat.ne_of_lt (hm m' hm')]

/-- Old members that are left come first, in their order, and then those who came meanwhile. -/
theorem Relisted.listed_eq (h : Relisted w w' entries) (hw : (w.roster place).Tidy w.nextId)
    (key : EventKey) : ∃ added, (w'.roster place).listed key =
      ((w.roster place).listed key).filter (fun m => (w'.roster place).contains key m.id) ++ added ∧
        ∀ m ∈ added, w.nextId ≤ m.id := by
  obtain ⟨kept, added, he, hk, ha⟩ := h.lists place key
  refine ⟨added, ?_, ha⟩
  rw [he, sublist_eq_filter hk (hw.ascending key)]
  congr 1
  refine List.filter_congr fun m hm => ?_
  -- numbers of those who came are not those of old members
  have hold : added.any (·.id == m.id) = false := by
    simp only [List.any_eq_false, beq_iff_eq]
    intro m' hm'
    have := hw.below key m hm
    have := ha m' hm'
    omega
  rw [Roster.contains, he, List.any_append, hold, Bool.or_false]

/-- What a dispatch comes to that calls `called`. -/
structure Dispatched (place : Place) (event : GameEvent) (called : List Nat) (w w' : World E) :
    Prop where
  /-- Who was registered at first is called in the order of registration, and nobody else. -/
  old : called.Sublist (((w.roster place).listed event.key).map (·.id))
  once : called.Nodup
  /-- The calls are told, those made by callbacks left out; and who is gone went for a reason. -/
  told : ∃ entries, w.Tells w' entries ∧
    deliveries entries = called.map (fun id => (place, id, event)) ∧
    ∀ key, ∀ m ∈ (w.roster place).listed key,
      m ∈ (w'.roster place).listed key ∨ Unlisted entries place key m.id
  /-- Who was there and is left keeps the order, and who came meanwhile stands behind. -/
  lists : ∀ key, ∃ added, (w'.roster place).listed key =
    ((w.roster place).listed key).filter (fun m => (w'.roster place).contains key m.id) ++ added ∧
      ∀ m ∈ added, w.nextId ≤ m.id ∧ m.id ∉ called
  tidy : (w'.roster place).Tidy w'.nextId

theorem TakeTurns.dispatched {fuel : Nat} {called : List Nat} (hw : w.Licensed L) (ht : w.Tidy)
    (h : TakeTurns (perform fuel) place event ((w.roster place).listed event.key) called w w') :
    Dispatched place event called w w' := by
  have hd := dispatch_iff.2 ⟨called, h, rfl⟩
  obtain ⟨entries, htells, hlists⟩ :=
    (relists_covers fun h => perform_relists fuel h).dispatch hd
  obtain ⟨entries', htells', hcalls⟩ := h.delivers fun h => perform_silent fuel h
  obtain rfl : entries' = entries :=
    List.append_cancel_left (htells'.journal.symm.trans htells.journal)
  have hids : (((w.roster place).listed event.key).map (·.id)).Nodup :=
    List.pairwise_map.2 (((ht place).ascending event.key).imp Nat.ne_of_lt)
  have hsub := h.called_sublist
  refine ⟨hsub, hids.sublist hsub, ⟨entries', htells, hcalls, hlists.stays place⟩,
    fun key => ?_, ?_⟩
  · obtain ⟨added, he, ha⟩ := hlists.listed_eq (ht place) key
    refine ⟨added, he, fun m hm => ⟨ha m hm, fun hc => ?_⟩⟩
    obtain ⟨m', hm', hid⟩ := List.mem_map.1 (hsub.subset hc)
    have := (ht place).below event.key m' hm'
    have := ha m hm
    omega
  · have hp := (dispatch_moves (perform_moves fuel) hw hd).turns.passes
    exact hp.induction hw ht (fun v v' _ hv hp => hp.tidy hv) place

end World

/-- A dispatch goes through those who are registered under the key when it begins, in order: who is
still registered when their turn comes is called, anyone else is passed over, and it answers how
many were called. It ends where each of these calls does, and fuel has no part in how. -/
theorem dispatch_in_turns {s₀ s : Site E} (h : Site.Run L C s₀ s) {w : World E}
    (hw : Passes L s₀.world w) (place : Place) (event : GameEvent) :
    w.Tidy ∧
    (∀ fuel w' n, w.dispatch (perform fuel) place event = some (w', n) ↔ ∃ called,
      World.TakeTurns (perform fuel) place event ((w.roster place).listed event.key) called w w' ∧
        World.Dispatched place event called w w' ∧ n = called.length) ∧
    (∀ fuel more r, fuel ≤ more → w.dispatch (perform fuel) place event = some r →
      w.dispatch (perform more) place event = some r) ∧
    ((∀ fuel before m after called v,
        (w.roster place).listed event.key = before ++ m :: after →
        World.TakeTurns (perform fuel) place event before called w v →
        (v.roster place).contains event.key m.id →
        ∃ more, (v.callSubscriber (perform more) place event m).isSome) →
      ∃ fuel w' n, w.dispatch (perform fuel) place event = some (w', n)) := by
  have htidy := h.tidy hw
  refine ⟨htidy, fun fuel w' n => ?_, fun fuel more r hle hd => ?_, fun hcalls => ?_⟩
  · rw [World.dispatch_iff]
    constructor
    · rintro ⟨called, ht, hn⟩
      exact ⟨called, ht, ht.dispatched (h.licensed hw) htidy, hn⟩
    · rintro ⟨called, ht, -, hn⟩
      exact ⟨called, ht, hn⟩
  · exact World.dispatch_reaches (perform_mono hle) place event w r hd
  · obtain ⟨fuel, called, w', ht⟩ := World.TakeTurns.all hcalls
    exact ⟨fuel, w', called.length, World.dispatch_iff.2 ⟨called, ht, rfl⟩⟩

/-- Wants nothing but to stay. -/
def bystander (_ : Nat) (_ : GameEvent) : Plan := .finish .keep

/-- Takes the subscriber after it off, brings in another and leaves. -/
def usurper (_ : Nat) (_ : GameEvent) : Plan :=
  .ofList .leave [.unsubscribe .tick "second", .subscribe .tick "fourth" bystander]

/-- Dispatches the event once more when it is first called. -/
def echo (n : Nat) (event : GameEvent) : Plan :=
  .ofList .keep (if n = 0 then [.dispatch event] else [])

/-- The second is passed over, the fourth, called in the dispatch of the third, has no turn. -/
theorem usurped_dispatch :
    ∃ (s : Site (.ofRuns (fun _ => ([], none)) fun _ => ([], none))) (called : List Nat)
      (w' : World (.ofRuns (fun _ => ([], none)) fun _ => ([], none))),
      (Site.start "world" .empty none).actAll 2 [.subscribe .tick "first" usurper,
        .subscribe .tick "second" bystander, .subscribe .tick "third" echo] = some s ∧
      World.TakeTurns (perform 3) .emitter Site.tickEvent ((s.world.roster .emitter).listed .tick)
        called s.world w' ∧
      World.Dispatched .emitter Site.tickEvent called s.world w' ∧ called.length = 2 ∧
      ((w'.roster .emitter).listed .tick).map (·.id) = [3, 4] := by
  have hrun : ((Site.start "world" .empty none : Site (.ofRuns (fun _ => ([], none))
      fun _ => ([], none))).actAll 2 [.subscribe .tick "first" usurper,
        .subscribe .tick "second" bystander, .subscribe .tick "third" echo]).bind (fun s =>
      (s.world.dispatch (perform 3) .emitter Site.tickEvent).map fun r =>
        (r.2, ((r.1.roster .emitter).listed .tick).map (·.id))) = some (2, [3, 4]) := by
    decide +kernel
  obtain ⟨s, hs, hd⟩ := Option.bind_eq_some_iff.1 hrun
  obtain ⟨⟨w', n⟩, hd, he⟩ := Option.map_eq_some_iff.1 hd
  obtain ⟨rfl, hids⟩ := Prod.mk.inj he
  have h : Site.Run .all (fun _ _ => True) (Site.start "world" .empty none) s :=
    (Site.Run.refl "world" .empty none).actAll (fun _ _ => trivial) hs
  obtain ⟨called, ht, hdispatched, hn⟩ :=
    ((dispatch_in_turns h h.passes .emitter Site.tickEvent).2.1 3 w' 2).1 hd
  exact ⟨s, called, w', hs, ht, hdispatched, hn.symm, hids⟩

end LiveModules
