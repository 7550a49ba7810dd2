import LiveModules.Proofs.Runs
import LiveModules.Site.Loop
import Mathlib.Data.List.Basic
import Mathlib.Data.List.Nodup

/-!
# When the loop does what

From its start to its shutdown the loop does the jobs of a schedule that is known beforehand: each
job at the multiples of its interval, in order (`host_keeps_schedule`). What carries this is that no
deadline is ever past (`Loop.Timely`), so that a turn takes the first of the jobs that are left.
What it is to do a job, `Site.Keeps` says: a scan, which may fail; the emission of a tick; the run
of the timers that are due.
-/

namespace LiveModules

namespace Job

/-- Which jobs of one instant come first. -/
def rank : Job → Nat
  | scan => 0
  | tick => 1
  | timers => 2

def Before (e e' : Nat × Job) : Prop := e.1 < e'.1 ∨ e.1 = e'.1 ∧ e.2.rank < e'.2.rank

/-- All jobs of the instants before `stop`, in order. -/
def schedule (c : Config) (stop : Nat) : List (Nat × Job) :=
  (List.range stop).flatMap fun t => (all.filter fun j => t % j.period c = 0).map (Prod.mk t)

variable {c : Config} {stop t : Nat} {j : Job}

theorem mem_all (j : Job) : j ∈ all := by cases j <;> decide

theorem mem_schedule : (t, j) ∈ schedule c stop ↔ t < stop ∧ ∃ k, t = k * j.period c := by
  have hdvd : t % j.period c = 0 ↔ ∃ k, t = k * j.period c := by
    rw [← Nat.dvd_iff_mod_eq_zero]
    exact exists_congr fun k => by rw [Nat.mul_comm]
  simp [schedule, mem_all, hdvd]

theorem schedule_sorted : (schedule c stop).Pairwise Before := by
  refine List.pairwise_flatMap.2 ⟨fun t _ => List.pairwise_map.2 ?_, ?_⟩
  · have hall : all.Pairwise fun j j' => j.rank < j'.rank := by decide
    exact (hall.filter _).imp fun h => .inr ⟨rfl, h⟩
  · refine List.pairwise_lt_range.imp fun {t t'} ht e he e' he' => ?_
    obtain ⟨j, -, rfl⟩ := List.mem_map.1 he
    obtain ⟨j', -, rfl⟩ := List.mem_map.1 he'
    exact .inl ht

theorem Before.asymm {e e' : Nat × Job} (h : Before e e') (h' : Before e' e) : False := by
  unfold Before at h h'
  omega

/-- Two lists of the same jobs, in order, are the same list. -/
theorem eq_of_before {jobs jobs' : List (Nat × Job)} (h : jobs.Pairwise Before)
    (h' : jobs'.Pairwise Before) (hm : ∀ e, e ∈ jobs ↔ e ∈ jobs') : jobs = jobs' := by
  have hnodup {l : List (Nat × Job)} (hl : l.Pairwise Before) : l.Nodup :=
    hl.imp fun {e e'} hlt he => (he ▸ hlt).asymm (he ▸ hlt)
  have hperm : jobs.Perm jobs' := (List.perm_ext_iff_of_nodup (hnodup h) (hnodup h')).2 hm
  exact hperm.eq_of_pairwise (fun e e' _ _ hlt hgt => (hlt.asymm hgt).elim) h h'

end Job

open Job Site

namespace Loop

variable {l : Loop} {stop instant : Nat} {j : Job}

theorem advance_now (l : Loop) (j : Job) : (l.advance j).now = l.now := by cases j <;> rfl

theorem interval_advance (l : Loop) (j j' : Job) :
    (l.advance j).interval j' =
      if j' = j then (l.interval j).advance l.now else l.interval j' := by
  cases j <;> cases j' <;> rfl

/-- A job that is due is not behind the one that is done. -/
theorem rank_le_of_turn {j' : Job} (h : l.turn stop = .job j) (hj' : (l.interval j').next ≤ l.now) :
    j.rank ≤ j'.rank := by
  obtain ⟨-, done, later, hall, hdone⟩ := List.find?_eq_some_iff_append.1 (first_of_turn h)
  have hmem : j' ∈ done ++ j :: later := hall ▸ mem_all j'
  have hsorted : (done ++ j :: later).Pairwise fun a b => a.rank < b.rank := by
    rw [← hall]
    decide
  rcases List.mem_append.1 hmem with hmem | hmem
  · have hdue : l.due j' = true := decide_eq_true hj'
    simpa [hdue] using hdone j' hmem
  rcases List.mem_cons.1 hmem with rfl | hmem
  · exact Nat.le_refl _
  · have hlater := (List.pairwise_append.1 hsorted).2.1
    exact Nat.le_of_lt (List.rel_of_pairwise_cons hlater hmem)

def Timely (l : Loop) : Prop := ∀ j, l.now ≤ (l.interval j).next

theorem Timely.start (c : Config) (hscans hticks) : (Loop.start c hscans hticks).Timely :=
  fun _ => Nat.zero_le _

theorem Timely.advance (h : l.Timely) (j : Job) : (l.advance j).Timely := by
  intro j'
  rw [advance_now, interval_advance]
  split
  · exact Nat.le_of_lt ((l.interval j).lt_advance l.now)
  · exact h j'

theorem Timely.wait (ht : l.turn stop = .wait instant) : { l with now := instant }.Timely := by
  obtain ⟨-, rfl⟩ := not_due_of_turn ht
  intro j
  cases j <;> simp only [interval] <;> omega

/-- The job is done at the instant, from now on and before the shutdown. -/
def Ahead (l : Loop) (stop : Nat) (e : Nat × Job) : Prop :=
  e.1 < stop ∧ ∃ k, e.1 = (l.interval e.2).next + k * (l.interval e.2).period

theorem Ahead.le (h : l.Timely) {e : Nat × Job} (he : l.Ahead stop e) :
    (l.interval e.2).next ≤ e.1 ∧ l.now ≤ e.1 := by
  obtain ⟨-, k, hk⟩ := he
  have hnext : (l.interval e.2).next ≤ e.1 := hk ▸ Nat.le_add_right ..
  exact ⟨hnext, Nat.le_trans (h e.2) hnext⟩

section Turn

variable (h : l.Timely) (ht : l.turn stop = .job j)

include h ht

/-- Where no deadline is past, the next one is one period on. -/
theorem interval_after (j' : Job) :
    ((l.advance j).interval j').next =
        (l.interval j').next + (if j' = j then (l.interval j).period else 0) ∧
      ((l.advance j).interval j').period = (l.interval j').period := by
  rw [interval_advance]
  have hnext : (l.interval j).next = l.now := Nat.le_antisymm (due_of_turn ht) (h j)
  by_cases hj : j' = j
  · subst hj
    simp [Interval.advance, hnext]
  · simp [hj]

/-- A turn takes one job of those that are ahead. -/
theorem ahead_of_turn (e : Nat × Job) :
    l.Ahead stop e ↔ e = (l.now, j) ∨ (l.advance j).Ahead stop e := by
  obtain ⟨t, j'⟩ := e
  have hnext : (l.interval j).next = l.now := Nat.le_antisymm (due_of_turn ht) (h j)
  have hstop : l.now < stop := now_lt_of_turn (by rw [ht]; exact nofun)
  obtain ⟨hn, hp⟩ := interval_after h ht j'
  unfold Ahead
  dsimp only
  rw [hn, hp]
  by_cases hj : j' = j
  · subst hj
    rw [if_pos rfl, hnext]
    constructor
    · rintro ⟨hlt, k, hk⟩
      cases k with
      | zero => exact .inl (by rw [hk, Nat.zero_mul, Nat.add_zero])
      | succ k => exact .inr ⟨hlt, k, by rw [hk, Nat.succ_mul]; omega⟩
    · rintro (he | ⟨hlt, k, hk⟩)
      · cases he
        exact ⟨hstop, 0, by simp⟩
      · exact ⟨hlt, k + 1, by rw [hk, Nat.succ_mul]; omega⟩
  · have hne : (t, j') ≠ (l.now, j) := fun he => hj (congrArg Prod.snd he)
    simp [hj, hne]

/-- The job of a turn is the first of those that are ahead. -/
theorem before_of_turn {e : Nat × Job} (he : (l.advance j).Ahead stop e) : Before (l.now, j) e := by
  obtain ⟨t, j'⟩ := e
  obtain ⟨hlater, hnow⟩ := he.le (h.advance j)
  rw [advance_now] at hnow
  dsimp only at hlater hnow
  rcases Nat.lt_or_eq_of_le hnow with hlt | rfl
  · exact .inl hlt
  · -- The job itself comes back later, and whatever else is due now is behind it.
    rw [interval_advance] at hlater
    split at hlater
    · exact absurd ((l.interval j).lt_advance l.now) (by omega)
    · rename_i hj
      have hle := rank_le_of_turn ht hlater
      have hne : j.rank ≠ j'.rank := by
        cases j <;> cases j' <;> first | decide | exact absurd rfl hj
      exact .inr ⟨rfl, by dsimp only; omega⟩

end Turn

section Run

variable {σ : Type*} (act : Nat → Job → σ → Option σ)

theorem run_of_stop (ht : l.turn stop = .stop) (s : σ) : l.run act stop s = some (l, s) := by
  rw [run]
  split <;> simp_all

theorem run_of_job (ht : l.turn stop = .job j) (s : σ) :
    l.run act stop s = (act l.now j s).bind ((l.advance j).run act stop) := by
  rw [run]
  split <;> simp_all

theorem run_of_wait (ht : l.turn stop = .wait instant) (s : σ) :
    l.run act stop s = { l with now := instant }.run act stop s := by
  rw [run]
  split <;> simp_all

/-- The loop does the jobs that are ahead, each once and in order. -/
theorem run_eq_foldlM (stop : Nat) (h : l.Timely) :
    ∃ jobs : List (Nat × Job), (∀ e, e ∈ jobs ↔ l.Ahead stop e) ∧ jobs.Pairwise Before ∧
      ∀ s, (l.run act stop s).map (·.2) = jobs.foldlM (fun s e => act e.1 e.2 s) s := by
  -- By what is left until the shutdown; the job of a turn comes before those of the turns after it.
  induction hn : l.left stop using Nat.strongRecOn generalizing l with
  | ind n ih =>
  subst hn
  cases ht : l.turn stop with
  | stop =>
    have hstop : stop ≤ l.now := le_now_of_turn ht
    refine ⟨[], fun e => ⟨nofun, fun he => ?_⟩, .nil, fun s => by rw [run_of_stop act ht]; rfl⟩
    have := (he.le h).2
    have := he.1
    omega
  | job j =>
    obtain ⟨jobs, hm, hb, hrun⟩ := ih _ (left_job ht) (h.advance j) rfl
    refine ⟨(l.now, j) :: jobs, fun e => ?_, ?_, fun s => ?_⟩
    · rw [ahead_of_turn h ht, List.mem_cons, hm]
    · exact List.pairwise_cons.2 ⟨fun e he => before_of_turn h ht ((hm e).1 he), hb⟩
    · rw [run_of_job act ht, List.foldlM_cons]
      cases act l.now j s with
      | none => rfl
      | some s' => exact hrun s'
  | wait instant =>
    obtain ⟨jobs, hm, hb, hrun⟩ := ih _ (left_wait ht) (Timely.wait ht) rfl
    exact ⟨jobs, hm, hb, fun s => by rw [run_of_wait act ht, hrun]⟩

/-- From the start of the loop, the jobs that are ahead are those of the schedule. -/
theorem run_start (c : Config) (hscans : 0 < c.pollIntervalMs) (hticks : 0 < c.tickIntervalMs)
    (stop : Nat) (s : σ) :
    ((Loop.start c hscans hticks).run act stop s).map (·.2) =
      (schedule c stop).foldlM (fun s e => act e.1 e.2 s) s := by
  obtain ⟨jobs, hm, hb, hrun⟩ := run_eq_foldlM act stop (Timely.start c hscans hticks)
  have hahead (e : Nat × Job) :
      (Loop.start c hscans hticks).Ahead stop e ↔ e ∈ schedule c stop := by
    obtain ⟨t, j⟩ := e
    rw [mem_schedule]
    cases j <;> simp [Ahead, start, interval, Interval.start, period]
  have hjobs : jobs = schedule c stop :=
    eq_of_before hb schedule_sorted fun e => (hm e).trans (hahead e)
  rw [hrun, hjobs]

end Run

end Loop

theorem Site.scan_of_missing {E : Engine} (s : Site E) (h : s.scanning = false)
    (hroot : s.rootIsDir = false) : s.scan = (s, .error (.directoryNotFound s.world.root)) := by
  have hroot' : { s with scanning := true }.rootIsDir = false := hroot
  rw [scan, if_neg (by rw [h]; exact nofun), scanNow, hroot']
  obtain ⟨_, _, _, _⟩ := s
  cases h
  rfl

namespace Site

variable {E : Engine} {m : Meanwhile} {fuel : Nat}

/-- The jobs are done in turn, each after what went on before it. A scan that fails is no reason to
stop; a tick is an emission, and the timers that run are those that are due by the clock then. -/
inductive Keeps (m : Meanwhile) (fuel : Nat) : List (Nat × Job) → Site E → Site E → Prop
  | done (s) : Keeps m fuel [] s s
  | scanned {t jobs s v s' report} : (s.amid m t .scan).scan = (v, .ok report) →
      Keeps m fuel jobs v s' → Keeps m fuel ((t, .scan) :: jobs) s s'
  | scanFailed {t jobs s v s' e} : (s.amid m t .scan).scan = (v, .error e) →
      Keeps m fuel jobs v s' → Keeps m fuel ((t, .scan) :: jobs) s s'
  | ticked {t jobs s u w s' answer} : u = s.amid m t .tick →
      perform fuel (.emit ⟨.tick, []⟩) u.mounted = some (w, answer) →
      Keeps m fuel jobs (u.unmount w) s' → Keeps m fuel ((t, .tick) :: jobs) s s'
  | fired {t jobs s u w s' answer} : u = s.amid m t .timers →
      perform fuel (.runDue u.world.clock.now) u.mounted = some (w, answer) →
      Keeps m fuel jobs (u.unmount w) s' → Keeps m fuel ((t, .timers) :: jobs) s s'

/-- What an action makes of a site that is acted on before others are. -/
theorem act_bind_eq_some_iff {a : Action} {s s' : Site E} {f : Site E → Option (Site E)} :
    ((s.act fuel a).map (·.1)).bind f = some s' ↔
      ∃ w answer, perform fuel a s.mounted = some (w, answer) ∧ f (s.unmount w) = some s' := by
  unfold act
  rcases perform fuel a s.mounted with _ | ⟨w, answer⟩ <;> simp

theorem keeps_iff : ∀ {jobs : List (Nat × Job)} {s s' : Site E},
    jobs.foldlM (fun s e => jobAmid m fuel e.1 e.2 s) s = some s' ↔ Keeps m fuel jobs s s'
  | [], s, s' => by
    constructor
    · intro h
      cases h
      exact .done s
    · intro h
      cases h
      rfl
  | (t, .scan) :: jobs, s, s' => by
    rw [List.foldlM_cons]
    show jobs.foldlM _ (s.amid m t .scan).scan.1 = some s' ↔ _
    rw [keeps_iff]
    constructor
    · intro h
      rcases hs : (s.amid m t .scan).scan with ⟨v, e | report⟩
      · exact .scanFailed hs (by rwa [hs] at h)
      · exact .scanned hs (by rwa [hs] at h)
    · rintro (_ | ⟨hs, h⟩ | ⟨hs, h⟩)
      · rwa [hs]
      · rwa [hs]
  | (t, .tick) :: jobs, s, s' => by
    rw [List.foldlM_cons]
    refine act_bind_eq_some_iff.trans ⟨?_, ?_⟩
    · rintro ⟨w, answer, hw, h⟩
      exact .ticked rfl hw (keeps_iff.1 h)
    · intro h
      cases h with
      | ticked hu hw h =>
        subst hu
        exact ⟨_, _, hw, keeps_iff.2 h⟩
  | (t, .timers) :: jobs, s, s' => by
    rw [List.foldlM_cons]
    refine act_bind_eq_some_iff.trans ⟨?_, ?_⟩
    · rintro ⟨w, answer, hw, h⟩
      exact .fired rfl hw (keeps_iff.1 h)
    · intro h
      cases h with
      | fired hu hw h =>
        subst hu
        exact ⟨_, _, hw, keeps_iff.2 h⟩

end Site

/-- Hosting a site is to do, before the shutdown, each job at every multiple of its interval, in
order of the instants and at one instant scan before tick before timers, and nothing else; the end
is a good one, whatever came of the jobs and whatever went on between them. -/
theorem host_keeps_schedule {E : Engine} (c : Config) (hscans : 0 < c.pollIntervalMs)
    (hticks : 0 < c.tickIntervalMs) (stop : Nat) :
    (∀ t, ((t, .scan) ∈ schedule c stop ↔ t < stop ∧ ∃ k, t = k * c.pollIntervalMs) ∧
      ((t, .tick) ∈ schedule c stop ↔ t < stop ∧ ∃ k, t = k * c.tickIntervalMs) ∧
      ((t, .timers) ∈ schedule c stop ↔ t < stop ∧ ∃ k, t = k * 25)) ∧
    (schedule c stop).Pairwise Before ∧
    ∀ (m : Meanwhile) (fuel : Nat) (s s' : Site E) (outcome : Except HostError Unit),
      s.host m fuel c hscans hticks stop = some (s', outcome) ↔
        outcome = .ok () ∧ Site.Keeps m fuel (schedule c stop) s s' := by
  refine ⟨fun t => ⟨mem_schedule, mem_schedule, mem_schedule⟩, schedule_sorted,
    fun m fuel s s' outcome => ?_⟩
  have hrun := Loop.run_start (Site.jobAmid m fuel) c hscans hticks stop s
  have hhost : s.host m fuel c hscans hticks stop =
      ((schedule c stop).foldlM (fun s e => jobAmid m fuel e.1 e.2 s) s).map (·, .ok ()) := by
    rw [← hrun, Site.host, Option.map_map]
    rfl
  rw [hhost, ← Site.keeps_iff, Option.map_eq_some_iff]
  constructor
  · rintro ⟨v, hv, he⟩
    cases he
    exact ⟨rfl, hv⟩
  · rintro ⟨rfl, h⟩
    exact ⟨s', h, rfl⟩

/-- Where there is no directory every scan fails; the loop goes on until the shutdown, at whose
instant it does nothing any more. -/
theorem missing_directory_ends_well :
    ∃ (c : Config) (s s' : Site (.ofRuns (fun _ => ([], none)) fun _ => ([], none)))
      (hscans : 0 < c.pollIntervalMs) (hticks : 0 < c.tickIntervalMs),
      s = .start "world" .empty none ∧ s.scan.2 = .error (.directoryNotFound "world") ∧
      schedule c 50 = [(0, .scan), (0, .tick), (0, .timers), (20, .scan), (25, .timers),
        (40, .scan)] ∧
      s.host .nothing 2 c hscans hticks 50 = some (s', .ok ()) ∧
      Site.Keeps .nothing 2 (schedule c 50) s s' ∧ s'.rootIsDir = false := by
  let c : Config := { Config.ofRoot "world" with pollIntervalMs := 20, tickIntervalMs := 50 }
  let s : Site (.ofRuns (fun _ => ([], none)) fun _ => ([], none)) := .start "world" .empty none
  have hsched : schedule c 50 = [(0, .scan), (0, .tick), (0, .timers), (20, .scan), (25, .timers),
      (40, .scan)] := by decide +kernel
  obtain ⟨-, -, hhost⟩ := host_keeps_schedule c (by decide) (by decide) 50
  have hjobs : (((schedule c 50).foldlM (fun s e => jobAmid .nothing 2 e.1 e.2 s) s).any
      fun s' => !s'.rootIsDir) = true := by
    rw [hsched]
    decide +kernel
  obtain ⟨s', hs', hdir⟩ := Option.any_eq_true _ _ |>.1 hjobs
  have hscan := s.scan_of_missing rfl (by decide +kernel)
  have hkeeps := Site.keeps_iff.1 hs'
  exact ⟨c, s, s', by decide, by decide, rfl, by rw [hscan]; rfl, hsched,
    (hhost _ _ _ _ _).2 ⟨rfl, hkeeps⟩, hkeeps, by simpa using hdir⟩

end LiveModules
