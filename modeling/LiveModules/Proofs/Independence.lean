import LiveModules.Proofs.Renumbering
import Mathlib.Data.List.Perm.Basic

/-!
# Loads of two modules

Two modules whose scripts ask for no entry in common can be loaded in either order
(`reloads_commute`). A rule that the version before of one of them owned, and that the other one now
asks for, is the other's in the end: it goes with its owner only if it is still the owner's. The
files come to the same, too, unless links make one out of those of both
(`linked_logs_end_differently`).
-/

namespace LiveModules

open Artifacts World

attribute [local irreducible] lastOf

variable {E : Engine} {C : FileTree → FileTree → Prop}

/-! ## Files -/

namespace Artifacts

variable {t : FileTree} {root a b : String}

/-- The changes of two modules are at different places, so their order makes no difference. -/
theorem editAll_comm (htidy : Tidy t root) (ha : FileName.IsEntry a) (hb : FileName.IsEntry b)
    (hne : a ≠ b) (writes writes' : List ArtifactWrite) :
    editAll root (editAll root t (writes.map (Prod.mk a))) (writes'.map (Prod.mk b)) =
      editAll root (editAll root t (writes'.map (Prod.mk b))) (writes.map (Prod.mk a)) := by
  have hea := Site.isEntry_writes ha writes
  have heb := Site.isEntry_writes hb writes'
  refine tree_ext (fun p => ?_) (by simp only [editAll_stamp])
  have hfold {c d : List (String × ArtifactWrite)} (hc : ∀ change ∈ c, FileName.IsEntry change.1)
      (hd : ∀ change ∈ d, FileName.IsEntry change.1) :
      (editAll root (editAll root t c) d).nodes.find? p =
        d.foldl (editAt t root p) (c.foldl (editAt t root p) (t.nodes.find? p)) := by
    have happ : editAll root (editAll root t c) d = editAll root t (c ++ d) :=
      List.foldl_append.symm
    rw [happ, find?_editAll p htidy, List.foldl_append]
    intro change h
    exact (List.mem_append.1 h).elim (hc change) (hd change)
  rw [hfold hea heb, hfold heb hea]
  -- at most one of the modules has a file at this place
  by_cases hp : ∃ change ∈ writes.map (Prod.mk a), place? t root change.2.dir change.1 = some p
  · obtain ⟨change, hc, hp⟩ := hp
    have hother : ∀ change' ∈ writes'.map (Prod.mk b),
        place? t root change'.2.dir change'.1 ≠ some p := by
      intro change' hc' hp'
      have hname := (place?_inj htidy (isHome_dir _) (isHome_dir _) (hea change hc)
        (heb change' hc') hp hp').2
      obtain ⟨write, -, rfl⟩ := List.mem_map.1 hc
      obtain ⟨write', -, rfl⟩ := List.mem_map.1 hc'
      exact hne hname
    rw [foldl_editAt_of_ne hother, foldl_editAt_of_ne hother]
  · have hnone : ∀ change ∈ writes.map (Prod.mk a), place? t root change.2.dir change.1 ≠ some p :=
      fun change hc h => hp ⟨change, hc, h⟩
    rw [foldl_editAt_of_ne hnone, foldl_editAt_of_ne hnone]

end Artifacts

/-! ## Worlds -/

namespace Site

/-- What two loads come to in either order: the same but for the numbers of the two surfaces, the
order of the notices and the order in which equal timers are pending. -/
structure Agrees (ρ : Equiv.Perm Nat) (s ab ba : Site E) : Prop where
  renumbered : Renumbered ρ s.world.nextId ab.world ba.world
  records : ba.world.records = ab.world.records
  timers : (ba.world.timers.pending.map Timer.work).Perm
    (ab.world.timers.pending.map (Timer.renumbered ρ))
  notices : ∃ first second : List Notice,
    ab.world.game.history = (first ++ second).foldl .push s.world.game.history ∧
    ba.world.game.history = (second ++ first).foldl .push s.world.game.history ∧
    ab.world.game.bus = (first ++ second).foldl .publish s.world.game.bus ∧
    ba.world.game.bus = (second ++ first).foldl .publish s.world.game.bus

/-- Of two options of which one is absent either may come first. -/
theorem or_left_comm {α : Type*} {x y : Option α} (h : x = none ∨ y = none) (z : Option α) :
    x.or (y.or z) = y.or (x.or z) := by
  rcases h with rfl | rfl
  · rw [Option.none_or, Option.none_or]
  · rw [Option.none_or, Option.none_or]

section Both

variable {s sa sb ab ba : Site E} {a b source source' : String} {modified modified' : FileTime}
  (hbelow : s.world.Below s.world.nextId) (hne : a ≠ b)
  (hapart : List.Disjoint ((E.load a source).requests.filterMap Request.slot?)
    ((E.load b source').requests.filterMap Request.slot?))
  (hia : Isolated s sa a (E.load a source).requests) (hla : Loaded s sa a modified source)
  (hib : Isolated s sb b (E.load b source').requests) (hlb : Loaded s sb b modified' source')
  (hiab : Isolated sa ab b (E.load b source').requests) (hlab : Loaded sa ab b modified' source')
  (hiba : Isolated sb ba a (E.load a source).requests) (hlba : Loaded sb ba a modified source)

/-- The surface of `a` is numbered first in one order and second in the other, and so is that of
`b`. -/
def crossing (s sa sb : Site E) : Equiv.Perm Nat :=
  (Equiv.swap s.world.nextId sa.world.nextId).trans (.swap sa.world.nextId sb.world.nextId)

include hla hlb in
theorem crossing_of_lt (id : Nat) (h : id < s.world.nextId) : crossing s sa sb id = id := by
  have hn := hla.nextId
  have hn' := hlb.nextId
  have hfirst : Equiv.swap s.world.nextId sa.world.nextId id = id :=
    Equiv.swap_apply_of_ne_of_ne (by omega) (by omega)
  rw [crossing, Equiv.trans_apply, hfirst]
  exact Equiv.swap_apply_of_ne_of_ne (by omega) (by omega)

theorem crossing_first (s sa sb : Site E) : crossing s sa sb s.world.nextId = sb.world.nextId := by
  rw [crossing, Equiv.trans_apply, Equiv.swap_apply_left, Equiv.swap_apply_left]

include hla hlb in
theorem crossing_second : crossing s sa sb sa.world.nextId = s.world.nextId := by
  have hn := hla.nextId
  have hn' := hlb.nextId
  rw [crossing, Equiv.trans_apply, Equiv.swap_apply_right]
  exact Equiv.swap_apply_of_ne_of_ne (by omega) (by omega)

include hapart in
theorem apart_cases (slot : Slot) :
    slot ∉ (E.load a source).requests.filterMap Request.slot? ∨
      slot ∉ (E.load b source').requests.filterMap Request.slot? := by
  by_cases hs : slot ∈ (E.load a source).requests.filterMap Request.slot?
  · exact .inr fun h => hapart hs h
  · exact .inl hs

include hbelow hne hia hiab in
/-- After both loads a rule is one that was asked for, or one that neither surface that was replaced
owned. -/
theorem rules_across (key : SpawnKey) : ab.world.spawns.rules.find? key =
    ((E.load b source').requests.findSomeRev? (Request.rule? ⟨sa.world.nextId, b⟩ key)).or
      (((E.load a source).requests.findSomeRev? (Request.rule? ⟨s.world.nextId, a⟩ key)).or
        ((s.world.spawns.rules.find? key).filter fun r =>
          (s.world.surfaceId? b).map Owner.surface ≠ some r.owner ∧
          (s.world.surfaceId? a).map Owner.surface ≠ some r.owner)) := by
  rw [hiab.rules, hia.rules, surfaceId?_congr (hia.surfaces b hne.symm)]
  congr 1
  rcases hx : (E.load a source).requests.findSomeRev? (Request.rule? ⟨s.world.nextId, a⟩ key)
    with _ | rule
  · rw [Option.none_or, Option.none_or, Option.filter_filter]
    congr 1
    funext r
    rw [Bool.decide_and, Bool.and_comm]
  · -- the new surface of `a` is not the one of `b` that is replaced
    have howner : rule.owner = .surface s.world.nextId := Request.rule?_owner _ hx
    refine Option.filter_some_pos ?_
    rw [howner, decide_eq_true_eq]
    intro h
    obtain ⟨surface, hs, hsurface⟩ := Option.map_eq_some_iff.1 h
    have hlt := hbelow.current b surface hs
    cases hsurface
    omega

section Crossed

variable {ρ : Equiv.Perm Nat} (hρ : ∀ id, id < s.world.nextId → ρ id = id)
  (hfirst : ρ s.world.nextId = sb.world.nextId) (hsecond : ρ sa.world.nextId = s.world.nextId)

include hbelow hapart hia hib hiab hiba hρ hfirst hsecond in
theorem commands_across : ba.world.game.commands =
    ab.world.game.commands.mapValues fun _ c => c.renumber ρ := by
  refine Table.ext fun key => ?_
  rw [Table.find?_mapValues, hiab.commands, hia.commands, hiba.commands, hib.commands,
    Option.map_or, Option.map_or, hbelow.command_fixed hρ, Origin.eq_renumber hfirst a,
    Origin.eq_renumber hsecond b, Request.command?_renumber, Request.command?_renumber]
  refine or_left_comm ?_ _
  rcases apart_cases hapart (.command key) with h | h
  · exact .inl (by rw [Request.findSomeRev?_command _ key h, Option.map_none])
  · exact .inr (by rw [Request.findSomeRev?_command _ key h, Option.map_none])

include hbelow hne hapart hia hib hiab hiba hρ hfirst hsecond in
theorem rules_crossed : ba.world.spawns.rules =
    ab.world.spawns.rules.mapValues fun _ r => r.renumber ρ := by
  refine Table.ext fun key => ?_
  have hold : (s.world.spawns.rules.find? key).filter (fun r =>
        (s.world.surfaceId? a).map Owner.surface ≠ some r.owner ∧
        (s.world.surfaceId? b).map Owner.surface ≠ some r.owner) =
      (s.world.spawns.rules.find? key).filter fun r =>
        (s.world.surfaceId? b).map Owner.surface ≠ some r.owner ∧
        (s.world.surfaceId? a).map Owner.surface ≠ some r.owner := by
    congr 1
    funext r
    exact decide_eq_decide.2 and_comm
  rw [Table.find?_mapValues, rules_across hbelow hne hia hiab,
    rules_across hbelow hne.symm hib hiba, Option.map_or, Option.map_or,
    hbelow.rule_fixed hρ, Origin.eq_renumber hfirst a, Origin.eq_renumber hsecond b,
    Request.rule?_renumber, Request.rule?_renumber, hold]
  refine or_left_comm ?_ _
  rcases apart_cases hapart (.rule key) with h | h
  · exact .inl (by rw [Request.findSomeRev?_rule _ key h, Option.map_none])
  · exact .inr (by rw [Request.findSomeRev?_rule _ key h, Option.map_none])

include hbelow hne hia hla hib hlb hiab hlab hiba hlba hρ hfirst hsecond in
theorem versions_across (name : String) :
    ba.world.version? name = (ab.world.version? name).map fun v => (ρ v.1, v.2) := by
  by_cases hna : name = a
  · rw [hna, hlba.version, version?_congr (hiab.surfaces a hne), hla.version, Option.map_some,
      hfirst]
  by_cases hnb : name = b
  · rw [hnb, hlab.version, version?_congr (hiba.surfaces b hne.symm), hlb.version,
      Option.map_some, hsecond]
  · rw [version?_congr (hiab.surfaces name hnb), version?_congr (hia.surfaces name hna),
      version?_congr (hiba.surfaces name hna), version?_congr (hib.surfaces name hnb),
      hbelow.version_fixed hρ]

include hbelow hne hia hib hiab hiba hρ hfirst hsecond in
theorem subscribers_across (name : String) (key : EventKey) :
    ((ba.world.roster (.surface name)).listed key).map Member.content =
      ((ab.world.roster (.surface name)).listed key).map fun m => m.content.renumber ρ := by
  by_cases hna : name = a
  · rw [hna, roster_congr (hiab.surfaces a hne)]
    exact subscribed_renumber hfirst key (hia.subscribed key) (hiba.subscribed key)
  by_cases hnb : name = b
  · rw [hnb, roster_congr (hiba.surfaces b hne.symm)]
    exact subscribed_renumber hsecond key (hiab.subscribed key) (hib.subscribed key)
  · rw [roster_congr (hiab.surfaces name hnb), roster_congr (hia.surfaces name hna),
      roster_congr (hiba.surfaces name hna), roster_congr (hib.surfaces name hnb),
      hbelow.subscribers_fixed hρ]

include hbelow hia hla hib hlb hiab hlab hiba hlba hρ hfirst hsecond in
theorem states_across {surface : Nat}
    (hs : surface < s.world.nextId ∨ ∃ name, ab.world.surfaceId? name = some surface) :
    ba.world.states.find? (ρ surface) = ab.world.states.find? surface := by
  have hold (surface : Nat) (hlt : surface < s.world.nextId) :
      ba.world.states.find? (ρ surface) = ab.world.states.find? surface := by
    rw [hρ surface hlt, hiba.states surface (Nat.lt_trans hlt hlb.nextId),
      hib.states surface hlt, hiab.states surface (Nat.lt_trans hlt hla.nextId),
      hia.states surface hlt]
  rcases hs with hlt | ⟨name, hcur⟩
  · exact hold surface hlt
  rcases hlab.current_cases hiab hcur with ⟨rfl, -⟩ | ⟨hcur, -⟩
  · rw [hsecond, hlab.state, hiba.states _ hlb.nextId, hlb.state]
  rcases hla.current_cases hia hcur with ⟨rfl, -⟩ | ⟨hcur, -⟩
  · rw [hfirst, hlba.state, hiab.states _ hla.nextId, hla.state]
  · exact hold surface (hbelow.current name surface hcur)

end Crossed

include hbelow hne hapart hia hla hib hlb hiab hlab hiba hlba in
theorem renumbered_across :
    Renumbered (crossing s sa sb) s.world.nextId ab.world ba.world := by
  have hρ := crossing_of_lt hla hlb
  have hfirst := crossing_first s sa sb
  have hsecond := crossing_second hla hlb
  constructor
  case toSteady =>
    have hab := hla.steady.trans hlab.steady
    have hba := hlb.steady.trans hlba.steady
    exact ⟨hba.root.trans hab.root.symm, hba.hub.trans hab.hub.symm,
      hba.emitter.trans hab.emitter.symm, hba.clock.trans hab.clock.symm,
      hba.listenerIds.trans hab.listenerIds.symm, hba.subscriberIds.trans hab.subscriberIds.symm,
      hba.calls.trans hab.calls.symm⟩
  case commands => exact commands_across hbelow hapart hia hib hiab hiba hρ hfirst hsecond
  case rooms =>
    refine Table.ext fun id => ?_
    rw [hiab.rooms, hia.rooms, hiba.rooms, hib.rooms]
    exact or_left_comm ((apart_cases hapart (.room id)).imp (Request.findSomeRev?_room id)
      (Request.findSomeRev?_room id)) _
  case players =>
    refine Table.ext fun name => ?_
    rw [hiab.players, hia.players, hiba.players, hib.players]
    exact or_left_comm ((apart_cases hapart (.player name)).imp (Request.findSomeRev?_player name)
      (Request.findSomeRev?_player name)) _
  case flag =>
    rw [hlab.flag, hla.flag, hlba.flag, hlb.flag, Bool.or_assoc, Bool.or_assoc]
    congr 1
    exact Bool.or_comm _ _
  case rules => exact rules_crossed hbelow hne hapart hia hib hiab hiba hρ hfirst hsecond
  case surfaces =>
    exact versions_across hbelow hne hia hla hib hlb hiab hlab hiba hlba hρ hfirst hsecond
  case subscribers => exact subscribers_across hbelow hne hia hib hiab hiba hρ hfirst hsecond
  case states =>
    exact fun _ => states_across hbelow hia hla hib hlb hiab hlab hiba hlba hρ hfirst hsecond

include hbelow hia hla hib hlb hiab hiba in
/-- Each script puts off the same work, whichever comes first. -/
theorem timers_across : (ba.world.timers.pending.map Timer.work).Perm
    (ab.world.timers.pending.map (Timer.renumbered (crossing s sa sb))) := by
  have hρ := crossing_of_lt hla hlb
  have hfirst := crossing_first s sa sb
  have hsecond := crossing_second hla hlb
  generalize crossing s sa sb = ρ at hρ hfirst hsecond ⊢
  have hclock : s.world.clock = sa.world.clock := hla.steady.clock.symm
  obtain ⟨wa, hpa, -, hwa⟩ := hia.timers
  obtain ⟨wb, hpb, -, hwb⟩ := hib.timers
  obtain ⟨wab, hpab, -, hwab⟩ := hiab.timers
  obtain ⟨wba, hpba, -, hwba⟩ := hiba.timers
  have ha : wba.map Timer.work = wa.map (Timer.renumbered ρ) := by
    rw [hwba, Origin.eq_renumber hfirst, Request.work?_renumber _ _ hlb.steady.clock, ← hwa,
      List.map_map]
    rfl
  have hb : wb.map Timer.work = wab.map (Timer.renumbered ρ) := by
    rw [hwb, Origin.eq_renumber hsecond, Request.work?_renumber _ _ hclock, ← hwab, List.map_map]
    rfl
  rw [hpba, hpb, hpab, hpa]
  simp only [List.map_append, List.append_assoc, ha, hb, hbelow.timers_fixed hρ]
  exact List.Perm.append_left _ List.perm_append_comm

include hne hia hla hib hlb hiab hlab hiba hlba in
theorem records_across : ba.world.records = ab.world.records := by
  have hopen {u : Site E} {name : String} (hr : u.world.root = s.world.root)
      (hf : u.world.records.find? name = s.world.records.find? name) (modified : FileTime) :
      u.world.openRecord name modified = s.world.openRecord name modified := by
    unfold openRecord
    rw [hf, hr]
  refine Table.ext fun name => ?_
  by_cases hna : name = a
  · rw [hna, hlba.record, hiab.records a hne, hla.record,
      hopen hlb.steady.root (hib.records a hne)]
  by_cases hnb : name = b
  · rw [hnb, hlab.record, hiba.records b hne.symm, hlb.record,
      hopen hla.steady.root (hia.records b hne.symm)]
  · rw [hiba.records name hna, hib.records name hnb, hiab.records name hnb, hia.records name hna]

end Both

/-- Where the directories hold no links, the files of two modules can be brought up to date in
either order. -/
theorem reload_files_comm {s : Site E} (ho : s.world.disk = #[]) {a b : String} (hne : a ≠ b)
    (htidy : Tidy s.files s.world.root) (ha : FileName.IsEntry a) (hb : FileName.IsEntry b)
    (modified modified' : FileTime) (source source' : String) :
    ((s.reload b modified' source').reload a modified source).files =
      ((s.reload a modified source).reload b modified' source').files := by
  have hoa : (s.reload a modified source).world.disk = #[] := reload_settled ..
  have hob : (s.reload b modified' source').world.disk = #[] := reload_settled ..
  rw [reload_files hoa, reload_files hob, reload_root, reload_root, reload_files ho,
    reload_files ho]
  exact (editAll_comm htidy ha hb hne _ _).symm

/-- Two modules that ask for no entry in common can be loaded in either order: but for the numbers
of the two surfaces and the order of notices and timers the outcome is the same, whatever the
versions before owned. So it is of the files, where no link leads elsewhere. -/
theorem reloads_commute {s₀ s : Site E} (h : Run .all C s₀ s) {a b : String} (hne : a ≠ b)
    (modified modified' : FileTime) (source source' : String)
    (hapart : List.Disjoint ((E.load a source).requests.filterMap Request.slot?)
      ((E.load b source').requests.filterMap Request.slot?)) :
    (∃ ρ : Equiv.Perm Nat, (∀ id, id < s.world.nextId → ρ id = id) ∧
      Agrees ρ s ((s.reload a modified source).reload b modified' source')
        ((s.reload b modified' source').reload a modified source)) ∧
    (Tidy s.files s.world.root → FileName.IsEntry a → FileName.IsEntry b →
      ((s.reload b modified' source').reload a modified source).files =
        ((s.reload a modified source).reload b modified' source').files) := by
  refine ⟨?_, fun htidy ha hb => reload_files_comm h.settled hne htidy ha hb ..⟩
  have hia := s.isolated a modified source
  have hib := s.isolated b modified' source'
  have hiab := (s.reload a modified source).isolated b modified' source'
  have hiba := (s.reload b modified' source').isolated a modified source
  have hla := s.reload_loaded a modified source
  have hlb := s.reload_loaded b modified' source'
  have hlab := (s.reload a modified source).reload_loaded b modified' source'
  have hlba := (s.reload b modified' source').reload_loaded a modified source
  refine ⟨crossing s (s.reload a modified source) (s.reload b modified' source'),
    crossing_of_lt hla hlb, ?_, ?_, ?_, ?_⟩
  · exact renumbered_across h.below hne hapart hia hla hib hlb hiab hlab hiba hlba
  · exact records_across hne hia hla hib hlb hiab hlab hiba hlba
  · exact timers_across h.below hia hla hib hlb hiab hiba
  · refine ⟨(E.load a source).notices a, (E.load b source').notices b, ?_, ?_, ?_, ?_⟩
    · rw [List.foldl_append, ← hla.history, hlab.history]
    · rw [List.foldl_append, ← hlb.history, hlba.history]
    · rw [List.foldl_append, ← hla.bus, hlab.bus]
    · rw [List.foldl_append, ← hlb.bus, hlba.bus]

end Site

/-- The text `old` makes a rule for the sword, `new` a room and a timeout; any other text makes the
rule for the sword again and then fails. -/
def heirs : Engine :=
  .ofRuns (fun text =>
    if text = "old" then ([.item "plaza" ⟨"sword", []⟩ 5], none)
    else if text = "new" then ([.room "hall" ⟨"", ∅, []⟩, .timeout 1000 0], none)
    else ([.item "plaza" ⟨"sword", []⟩ 7, .handler .tick 1], some "no steel")) fun _ => ([], none)

/-- A rule of the version before is given up by its module and taken by another one: whichever is
loaded first, the other one has it in the end. -/
theorem sword_inherited :
    ∃ s : Site heirs, Site.Run .all (fun _ _ => True) (.start "world" bareFiles none) s ∧
      Tidy s.files s.world.root ∧ FileName.IsEntry "a.lua" ∧ FileName.IsEntry "b.lua" ∧
      s.world.owner? ⟨"plaza", "sword"⟩ = some (.surface 1) ∧
      s.world.surfaceId? "a.lua" = some 1 ∧
      let ab := (s.reload "a.lua" ⟨200, 0⟩ "new").reload "b.lua" ⟨300, 0⟩ "heir"
      let ba := (s.reload "b.lua" ⟨300, 0⟩ "heir").reload "a.lua" ⟨200, 0⟩ "new"
      (ab.world.owner? ⟨"plaza", "sword"⟩ = some (.surface 5) ∧
        ab.world.surfaceId? "b.lua" = some 5) ∧
      (ba.world.owner? ⟨"plaza", "sword"⟩ = some (.surface 3) ∧
        ba.world.surfaceId? "b.lua" = some 3) ∧
      (∃ ρ : Equiv.Perm Nat, (∀ id, id < s.world.nextId → ρ id = id) ∧ Site.Agrees ρ s ab ba) ∧
      ba.files = ab.files := by
  have ha : FileName.IsEntry "a.lua" := ⟨by decide, by decide, by decide, by decide⟩
  have hb : FileName.IsEntry "b.lua" := ⟨by decide, by decide, by decide, by decide⟩
  let s₀ : Site heirs := .start "world" bareFiles none
  let s := s₀.reload "a.lua" ⟨100, 0⟩ "old"
  have hrun : Site.Run .all (fun _ _ => True) s₀ s :=
    (Site.Run.refl "world" bareFiles none).tail (.reload s₀ "a.lua" ⟨100, 0⟩ "old" trivial)
  have htidy : Tidy s.files s.world.root := by
    rw [Site.reload_root]
    exact Site.reload_tidy rfl bareFiles_tidy ha _ _
  have hapart : ∀ slot ∈ (heirs.load "a.lua" "new").requests.filterMap Request.slot?,
      slot ∉ (heirs.load "b.lua" "heir").requests.filterMap Request.slot? := by decide +kernel
  obtain ⟨hagrees, hfiles⟩ := Site.reloads_commute hrun (a := "a.lua") (b := "b.lua") (by decide)
    ⟨200, 0⟩ ⟨300, 0⟩ "new" "heir" fun slot h h' => hapart slot h h'
  exact ⟨s, hrun, htidy, ha, hb, by decide +kernel, by decide +kernel, by decide +kernel,
    by decide +kernel, hagrees, hfiles htidy ha hb⟩

/-- Where the log of one module is a link to that of another, it holds what the module logged that
was loaded last. -/
theorem linked_logs_end_differently :
    ∃ s : Site scribe, s = .start "world" sharedLog none ∧
      FileName.IsEntry "a.lua" ∧ FileName.IsEntry "b.lua" ∧
      List.Disjoint ((scribe.load "a.lua" "x").requests.filterMap Request.slot?)
        ((scribe.load "b.lua" "y").requests.filterMap Request.slot?) ∧
      let ab := (s.reload "a.lua" ⟨100, 0⟩ "x").reload "b.lua" ⟨100, 0⟩ "y"
      let ba := (s.reload "b.lua" ⟨100, 0⟩ "y").reload "a.lua" ⟨100, 0⟩ "x"
      logContent? ab.files "world" "a.lua" = some "y\n".toUTF8 ∧
        logContent? ba.files "world" "a.lua" = some "x\n".toUTF8 ∧
        "y\n".toUTF8 ≠ "x\n".toUTF8 := by
  have hapart : ∀ slot ∈ (scribe.load "a.lua" "x").requests.filterMap Request.slot?,
      slot ∉ (scribe.load "b.lua" "y").requests.filterMap Request.slot? := by decide +kernel
  exact ⟨.start "world" sharedLog none, rfl, ⟨by decide, by decide, by decide, by decide⟩,
    ⟨by decide, by decide, by decide, by decide⟩, fun slot h h' => hapart slot h h',
    by decide +kernel, by decide +kernel, by decide⟩

end LiveModules
