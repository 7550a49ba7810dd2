import LiveModules.Proofs.Merging
import Mathlib.Data.List.Induction

/-!
# Durations that a configuration is built with

A builder keeps, of the duration that it was given last for each purpose, the whole milliseconds
modulo 2^64 (`build_eq_ok_iff`). So a duration comes back truncated to whole milliseconds just if
these are less than 2^64; one that is longer comes back shorter (`build_durations`).
-/

namespace LiveModules.Config

namespace Duration

/-- The whole milliseconds, however many. -/
def wholeMs (d : Duration) : Nat := d.secs * 1000 + d.nanos / 1000000

/-- The length in nanoseconds. -/
def length (d : Duration) : Nat := d.secs * 1000000000 + d.nanos

/-- Without what is left over a whole millisecond; full seconds are carried. -/
def truncated (d : Duration) : Duration :=
  ⟨d.secs + d.nanos / 1000000000, d.nanos % 1000000000 / 1000000 * 1000000⟩

variable {d : Duration} {ms ms' : Nat}

theorem toMs_eq (d : Duration) : d.toMs = d.wholeMs % Nat.pow 2 64 := rfl

theorem length_ofMs (ms : Nat) : (ofMs ms).length = ms * 1000000 := by
  simp only [length, ofMs]
  omega

theorem ofMs_wholeMs (d : Duration) : ofMs d.wholeMs = d.truncated := by
  simp only [ofMs, wholeMs, truncated, mk.injEq]
  omega

theorem ofMs_inj : ofMs ms = ofMs ms' ↔ ms = ms' := by
  refine ⟨fun h => ?_, congrArg ofMs⟩
  have hlength := congrArg length h
  rw [length_ofMs, length_ofMs] at hlength
  omega

/-- What is kept of a duration falls short of it by every full 2^64 milliseconds. -/
theorem length_ofMs_toMs (d : Duration) :
    (ofMs d.toMs).length + d.wholeMs / Nat.pow 2 64 * (Nat.pow 2 64 * 1000000) =
      d.truncated.length := by
  rw [← ofMs_wholeMs, length_ofMs, length_ofMs, toMs_eq, ← Nat.mul_assoc, ← Nat.add_mul,
    Nat.add_comm, Nat.div_add_mod']

theorem ofMs_toMs_eq_iff (d : Duration) :
    ofMs d.toMs = d.truncated ↔ d.wholeMs < Nat.pow 2 64 := by
  rw [← ofMs_wholeMs, ofMs_inj, toMs_eq]
  exact Nat.mod_eq_iff_lt (Nat.pow_pos Nat.two_pos).ne'

end Duration

namespace Timing

/-- The duration that stands where none was given. -/
def default? : Timing → Option Duration
  | .poll => some ⟨5, 0⟩
  | .tick => some ⟨1, 0⟩
  | .timeout => none

end Timing

/-! ## What was given last -/

namespace Setting

/-- The duration that a setting gives for `t`. -/
def duration? (t : Timing) : Setting → Option Duration
  | .pollInterval d => if t = .poll then some d else none
  | .tickInterval d => if t = .tick then some d else none
  | .evalTimeout d => if t = .timeout then some d else none
  | _ => none

/-- The extension that a setting gives; none if any will do. -/
def extension? : Setting → Option (Option String)
  | .extension e => some (some e)
  | .anyExtension => some none
  | _ => none

end Setting

/-- The last of what settings give of one kind. -/
def lastGiven {α : Type} (given? : Setting → Option α) (settings : List Setting) : Option α :=
  (settings.filterMap given?).getLast?

theorem lastGiven_concat {α : Type} (given? : Setting → Option α) (settings : List Setting)
    (s : Setting) :
    lastGiven given? (settings ++ [s]) = (given? s).or (lastGiven given? settings) := by
  rw [lastGiven, List.filterMap_append, List.getLast?_append]
  cases h : given? s <;> simp [h, lastGiven]

variable {c c' : Config} {root : String} {settings : List Setting} {s : Setting} {t : Timing}

/-- A configuration is known by its root, its durations and its extension. -/
theorem ext_durations (hroot : c.root = c'.root) (hextension : c.extension = c'.extension)
    (hdurations : ∀ t, c.duration? t = c'.duration? t) : c = c' := by
  obtain ⟨root, poll, tick, timeout, extension⟩ := c
  obtain ⟨root', poll', tick', timeout', extension'⟩ := c'
  have hpoll : poll = poll' := Duration.ofMs_inj.1 (Option.some.inj (hdurations .poll))
  have htick : tick = tick' := Duration.ofMs_inj.1 (Option.some.inj (hdurations .tick))
  have htimeout : timeout = timeout' :=
    Option.map_injective (fun _ _ => Duration.ofMs_inj.1) (hdurations .timeout)
  cases hroot
  cases hextension
  rw [hpoll, htick, htimeout]

/-! ## One setting after another -/

theorem duration?_apply (c : Config) (s : Setting) (t : Timing) :
    (c.apply s).duration? t = ((s.duration? t).map fun d => .ofMs d.toMs).or (c.duration? t) := by
  cases s <;> cases t <;> rfl

theorem extension_apply (c : Config) (s : Setting) :
    (c.apply s).extension = s.extension?.getD c.extension := by
  cases s <;> rfl

theorem root_apply (c : Config) (s : Setting) : (c.apply s).root = c.root := by
  cases s <;> rfl

theorem duration?_foldl (c : Config) (settings : List Setting) (t : Timing) :
    (settings.foldl apply c).duration? t =
      ((lastGiven (Setting.duration? t) settings).map fun d => .ofMs d.toMs).or
        (c.duration? t) := by
  induction settings using List.reverseRecOn with
  | nil => rfl
  | append_singleton settings s ih =>
    rw [List.foldl_concat, duration?_apply, ih, lastGiven_concat, Option.map_or, Option.or_assoc]

theorem extension_foldl (c : Config) (settings : List Setting) :
    (settings.foldl apply c).extension =
      (lastGiven Setting.extension? settings).getD c.extension := by
  induction settings using List.reverseRecOn with
  | nil => rfl
  | append_singleton settings s ih =>
    rw [List.foldl_concat, extension_apply, ih, lastGiven_concat, Option.getD_or]

theorem root_foldl (c : Config) (settings : List Setting) :
    (settings.foldl apply c).root = c.root :=
  List.foldlRecOn (motive := fun c' => c'.root = c.root) settings apply rfl
    fun c' h s _ => (c'.root_apply s).trans h

theorem duration?_ofRoot (root : String) (t : Timing) : (ofRoot root).duration? t = t.default? := by
  cases t <;> simp [duration?, ofRoot, defaultPollMs, defaultTickMs, Duration.ofMs, Timing.default?]

theorem Valid.duration_pos (h : c.Valid) {d : Duration} (hd : c.duration? t = some d) :
    0 < d.length := by
  cases t with
  | poll =>
    cases hd
    rw [Duration.length_ofMs]
    exact Nat.mul_pos h.poll (Nat.succ_pos _)
  | tick =>
    cases hd
    rw [Duration.length_ofMs]
    exact Nat.mul_pos h.tick (Nat.succ_pos _)
  | timeout =>
    obtain ⟨ms, hms, rfl⟩ := Option.map_eq_some_iff.1 hd
    rw [Duration.length_ofMs]
    refine Nat.mul_pos (Nat.pos_of_ne_zero ?_) (Nat.succ_pos _)
    rintro rfl
    exact h.timeout hms

/-- What is built has what was given last of each, or the default, and it is valid. -/
theorem build_eq_ok_iff : build root settings = .ok c ↔
    c.Valid ∧ c.root = root ∧
      c.extension = (lastGiven Setting.extension? settings).getD defaultExtension ∧
      ∀ t, c.duration? t =
        ((lastGiven (Setting.duration? t) settings).map fun d => .ofMs d.toMs).or t.default? := by
  have hroot := root_foldl (ofRoot root) settings
  have hextension := extension_foldl (ofRoot root) settings
  have hdurations (t : Timing) := duration?_foldl (ofRoot root) settings t
  simp only [duration?_ofRoot] at hdurations
  rw [build, validate_eq_ok_iff]
  constructor
  · rintro ⟨rfl, hv⟩
    exact ⟨hv, hroot, hextension, hdurations⟩
  · rintro ⟨hv, hr, he, hd⟩
    exact ⟨ext_durations (hroot.trans hr.symm) (hextension.trans he.symm)
      fun t => (hdurations t).trans (hd t).symm, hv⟩

/-- A configuration that is built gives back the duration that was given last, truncated to whole
milliseconds, or else the default, exactly if these milliseconds are less than 2^64. Of a longer one
it gives back what is left over the full multiples of 2^64 milliseconds. -/
theorem build_durations (h : build root settings = .ok c) (t : Timing) :
    (c.duration? t = ((lastGiven (Setting.duration? t) settings).map .truncated).or t.default? ↔
      ∀ d, lastGiven (Setting.duration? t) settings = some d → d.wholeMs < Nat.pow 2 64) ∧
    ∀ d, lastGiven (Setting.duration? t) settings = some d →
      ∃ kept, c.duration? t = some kept ∧ 0 < kept.length ∧
        kept.length + d.wholeMs / Nat.pow 2 64 * (Nat.pow 2 64 * 1000000) =
          d.truncated.length := by
  obtain ⟨hv, -, -, hdurations⟩ := build_eq_ok_iff.1 h
  have hkept := hdurations t
  cases hd : lastGiven (Setting.duration? t) settings with
  | none =>
    rw [hd] at hkept
    exact ⟨iff_of_true hkept fun _ hd => (by cases hd), fun _ hd => by cases hd⟩
  | some d =>
    rw [hd, Option.map_some, Option.some_or] at hkept
    refine ⟨?_, ?_⟩
    · rw [hkept, Option.map_some, Option.some_or, Option.some.injEq, Duration.ofMs_toMs_eq_iff]
      exact ⟨fun h => by rintro _ ⟨⟩; exact h, fun h => h d rfl⟩
    · rintro _ ⟨⟩
      exact ⟨_, hkept, hv.duration_pos hkept, d.length_ofMs_toMs⟩

/-- One millisecond more than 2^64 is kept as one millisecond. -/
theorem vast_interval_wraps :
    ∃ c, build "/srv/world" [.pollInterval ⟨18446744073709551, 617000000⟩] = .ok c ∧
      c.duration? .poll = some ⟨0, 1000000⟩ ∧
      c.duration? .poll ≠ some (Duration.truncated ⟨18446744073709551, 617000000⟩) := by
  have h : build "/srv/world" [.pollInterval ⟨18446744073709551, 617000000⟩] =
      .ok { ofRoot "/srv/world" with pollIntervalMs := 1 } := by decide +kernel
  refine ⟨_, h, by decide, fun hkept => ?_⟩
  have hlt := (build_durations h .poll).1.1 hkept _ rfl
  revert hlt
  decide

end LiveModules.Config
