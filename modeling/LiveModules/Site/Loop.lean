import LiveModules.Config
import LiveModules.Site.Scan

/-!
# The loop

What a host does at which instant, in milliseconds since it started. Scans, ticks and looks for due
timers come back after intervals of their own. In each turn the loop does one job that is due, a
scan before a tick and a tick before the timers; while nothing is due, time passes. The shutdown is
looked at first in every turn.
-/

namespace LiveModules

inductive Job where
  | scan
  | tick
  | timers
  deriving DecidableEq, Repr

/-- How often due timers are looked for. -/
def timerPollMs : Nat := 25

namespace Job

/-- All jobs, in the order in which they are done at one instant. -/
def all : List Job := [scan, tick, timers]

def period (c : Config) : Job → Nat
  | scan => c.pollIntervalMs
  | tick => c.tickIntervalMs
  | timers => timerPollMs

end Job

/-- A deadline that comes back: when it falls due next, and after how long again. What is missed
is not made up for. -/
structure Interval where
  next : Nat
  period : Nat
  positive : 0 < period

namespace Interval

/-- Falls due at once, and then after each period. -/
def start (period : Nat) (h : 0 < period) : Interval := ⟨0, period, h⟩

/-- The next deadline after `now`, a whole number of periods on. -/
def advance (i : Interval) (now : Nat) : Interval :=
  { i with next := now + i.period - (now - i.next) % i.period }

theorem lt_advance (i : Interval) (now : Nat) : now < (i.advance now).next := by
  have := Nat.mod_lt (now - i.next) i.positive
  simp only [advance]
  omega

end Interval

structure Loop where
  now : Nat
  scans : Interval
  ticks : Interval
  timers : Interval

/-- What the loop does in a turn. -/
inductive Loop.Turn where
  | stop
  | job (j : Job)
  /-- Nothing is due before `instant`. -/
  | wait (instant : Nat)

namespace Loop

def start (c : Config) (hscans : 0 < c.pollIntervalMs) (hticks : 0 < c.tickIntervalMs) : Loop :=
  ⟨0, .start _ hscans, .start _ hticks, .start timerPollMs (by decide)⟩

def interval (l : Loop) : Job → Interval
  | .scan => l.scans
  | .tick => l.ticks
  | .timers => l.timers

def advance (l : Loop) : Job → Loop
  | .scan => { l with scans := l.scans.advance l.now }
  | .tick => { l with ticks := l.ticks.advance l.now }
  | .timers => { l with timers := l.timers.advance l.now }

def due (l : Loop) (j : Job) : Bool := (l.interval j).next ≤ l.now

def first? (l : Loop) : Option Job := Job.all.find? l.due

/-- The shutdown is looked at first, then one job after the other. -/
def turn (l : Loop) (stop : Nat) : Turn :=
  if stop ≤ l.now then .stop
  else
    match l.first? with
    | some j => .job j
    | none => .wait (min stop (min l.scans.next (min l.ticks.next l.timers.next)))

/-- How far the time and the deadlines are from the shutdown, all in all. -/
def left (l : Loop) (stop : Nat) : Nat :=
  (stop - l.now) + (stop - l.scans.next) + (stop - l.ticks.next) + (stop - l.timers.next)

theorem le_now_of_turn {l : Loop} {stop : Nat} (h : l.turn stop = .stop) : stop ≤ l.now := by
  unfold turn at h
  split at h
  · assumption
  · split at h <;> cases h

theorem now_lt_of_turn {l : Loop} {stop : Nat} (h : l.turn stop ≠ .stop) : l.now < stop := by
  unfold turn at h
  split at h
  · exact absurd rfl h
  · omega

theorem first_of_turn {l : Loop} {stop : Nat} {j : Job} (h : l.turn stop = .job j) :
    l.first? = some j := by
  unfold turn at h
  split at h
  · cases h
  split at h
  · rename_i hfirst
    cases h
    exact hfirst
  · cases h

theorem due_of_turn {l : Loop} {stop : Nat} {j : Job} (h : l.turn stop = .job j) :
    (l.interval j).next ≤ l.now := by
  have hj : l.due j = true := List.find?_some (first_of_turn h)
  exact of_decide_eq_true hj

theorem not_due_of_turn {l : Loop} {stop instant : Nat} (h : l.turn stop = .wait instant) :
    (∀ j, l.now < (l.interval j).next) ∧
      instant = min stop (min l.scans.next (min l.ticks.next l.timers.next)) := by
  unfold turn at h
  split at h
  · cases h
  split at h
  · cases h
  · rename_i hfind
    cases h
    refine ⟨fun j => ?_, rfl⟩
    have hj : j ∈ Job.all := by cases j <;> decide
    have := List.find?_eq_none.1 hfind j hj
    simpa [due] using this

theorem left_job {l : Loop} {stop : Nat} {j : Job} (h : l.turn stop = .job j) :
    (l.advance j).left stop < l.left stop := by
  have hnow := now_lt_of_turn (by rw [h]; exact nofun)
  have hdue := due_of_turn h
  have hnext := (l.interval j).lt_advance l.now
  cases j <;> simp only [interval] at hdue hnext <;> simp only [left, advance] <;> omega

theorem left_wait {l : Loop} {stop instant : Nat} (h : l.turn stop = .wait instant) :
    { l with now := instant }.left stop < l.left stop := by
  have hnow := now_lt_of_turn (by rw [h]; exact nofun)
  obtain ⟨hdue, rfl⟩ := not_due_of_turn h
  have hscans : l.now < l.scans.next := hdue .scan
  have hticks : l.now < l.ticks.next := hdue .tick
  have htimers : l.now < l.timers.next := hdue .timers
  simp only [left]
  omega

/-- Turns until the shutdown at `stop`; `act` does a job at an instant. -/
def run {σ : Type _} (act : Nat → Job → σ → Option σ) (stop : Nat) (l : Loop) (s : σ) :
    Option (Loop × σ) :=
  match _h : l.turn stop with
  | .stop => some (l, s)
  | .job j => (act l.now j s).bind fun s => run act stop (l.advance j) s
  | .wait instant => run act stop { l with now := instant } s
termination_by l.left stop
decreasing_by
  · exact left_job _h
  · exact left_wait _h

end Loop

/-- What goes on beside the loop before a job: others change the files, and the clock goes on. -/
structure Meanwhile where
  files : Nat → Job → FileTree → FileTree
  clock : Nat → Job → Clock → Clock

/-- Nobody changes the files, and the clock stands still. -/
def Meanwhile.nothing : Meanwhile := ⟨fun _ _ => id, fun _ _ => id⟩

namespace Site

variable {E : Engine}

/-- Does one job; a scan that fails changes nothing in what comes after. -/
def doJob (fuel : Nat) (s : Site E) : Job → Option (Site E)
  | .scan => some s.scan.1
  | .tick => (s.tick fuel).map (·.1)
  | .timers => (s.runTimers fuel).map (·.1)

/-- The site that a job finds. -/
def amid (m : Meanwhile) (instant : Nat) (j : Job) (s : Site E) : Site E :=
  { s with
    files := m.files instant j s.files
    world := { s.world with clock := m.clock instant j s.world.clock } }

/-- A job, after what went on before it. -/
def jobAmid (m : Meanwhile) (fuel instant : Nat) (j : Job) (s : Site E) : Option (Site E) :=
  (s.amid m instant j).doJob fuel j

/-- Goes on with the loop until `stop`. -/
def runUntil (m : Meanwhile) (fuel stop : Nat) (l : Loop) (s : Site E) : Option (Loop × Site E) :=
  l.run (jobAmid m fuel) stop s

/-- Hosts a site from the start of the loop to its shutdown, which is a good end whatever came of
the jobs. -/
def host (m : Meanwhile) (fuel : Nat) (c : Config) (hscans : 0 < c.pollIntervalMs)
    (hticks : 0 < c.tickIntervalMs) (stop : Nat) (s : Site E) :
    Option (Site E × Except HostError Unit) :=
  (s.runUntil m fuel stop (.start c hscans hticks)).map fun r => (r.2, .ok ())

end Site

end LiveModules
