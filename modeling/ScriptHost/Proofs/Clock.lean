import ScriptHost.Clock
import ScriptHost.Proofs.CommandLine.Pairs
import ScriptHost.Proofs.Decimal.Value

/-!
# Clock — steps that are accepted and steps that run

A command line takes every positive finite number for the length of a step, and a clock counts whole nanoseconds in a
duration that ends.  So there are steps too short to move a clock, and steps too long for any.  Between the two a clock
counts its ticks exactly.
-/

namespace ScriptHost

/-! ## 1. Accepted steps -/

namespace Arguments

variable {value : String} {x : Float32}

/-- A command line with nothing but the length of a step. -/
theorem parse_step (program : String) (taken : timestep value = .ok x) :
    ∃ a, parse [program, "--dt", value] = .ok a ∧ a.overrides.step = some x := by
  have key : key? "--dt" = some "dt" := by decide +kernel
  have set : empty.set "dt" value = .ok ⟨none, { Overrides.empty with step := some x }⟩ := by
    simp only [Arguments.set, taken]
    rfl
  refine ⟨⟨none, { Overrides.empty with step := some x }⟩, ?_, rfl⟩
  change addAll .empty ["--dt", value] = _
  unfold addAll
  simp only [key, set]
  rfl

theorem timestep_of_written (written : Decimal.singleOf? value = some x) (step : IsStep x) :
    timestep value = .ok x := timestep_eq_ok_iff.mpr ⟨written, step⟩

end Arguments

/-! ## 2. Ticks -/

namespace Clock

variable {c : Clock} {k n : Nat}

/-- The clock after `n` ticks, one at a time. -/
def ticks? (c : Clock) : Nat → Option Clock
  | 0 => some c
  | n + 1 => (c.ticks? n).bind fun c => c.advance? 1

/-- The clock `n` ticks later. -/
def later (c : Clock) (n : Nat) : Clock := ⟨c.step, c.elapsed + n * c.step, c.frame + n⟩

/-- Whether `n` more ticks are within the durations and the frames. -/
def Fits (c : Clock) (n : Nat) : Prop := (c.later n).elapsed < Nanoseconds.limit ∧ (c.later n).frame < frameLimit

theorem later_zero (c : Clock) : c.later 0 = c := by
  rw [later, Nat.zero_mul]
  rfl

theorem later_succ (c : Clock) (n : Nat) : (c.later n).later 1 = c.later (n + 1) := by
  simp only [later, Nat.add_mul, Nat.one_mul, Nat.add_assoc]

theorem later_lt (step : 1 ≤ c.step) (before : k < n) : (c.later k).elapsed < (c.later n).elapsed :=
  Nat.add_lt_add_left (Nat.mul_lt_mul_of_pos_right before step) c.elapsed

theorem Fits.of_le (fits : c.Fits n) (before : k ≤ n) : c.Fits k :=
  ⟨(Nat.add_le_add_left (Nat.mul_le_mul_right c.step before) c.elapsed).trans_lt fits.1,
    (Nat.add_le_add_left before c.frame).trans_lt fits.2⟩

theorem advance?_of_fits (fits : c.Fits n) : c.advance? n = some (c.later n) := by
  rw [advance?]
  exact if_pos (by simpa [Fits, later] using fits)

/-- As long as there is room, every tick adds one step and one frame. -/
theorem ticks?_of_fits (fits : c.Fits n) : c.ticks? n = some (c.later n) := by
  induction n with
  | zero => rw [ticks?, later_zero]
  | succ n ih =>
    -- Room for all of the ticks is room for the last one behind the others.
    have room : (c.later n).Fits 1 := by rwa [Fits, later_succ]
    rw [ticks?, ih (fits.of_le n.le_succ), Option.bind_some, advance?_of_fits room, later_succ]

/-! ## 3. Clocks with accepted steps -/

variable {x : Float32} {m : Decimal.Magnitude}

theorem fixed?_of_finite (read : Decimal.ofFloat32 x = .finite false m) :
    fixed? x = if m.inUnits 9 < Nanoseconds.limit then some ⟨m.inUnits 9, 0, 0⟩ else none := by
  rw [fixed?, Nanoseconds.ofSeconds?, read]
  dsimp only
  split <;> rfl

theorem inUnits_lt_limit_iff (short : m.mantissa < 2 ^ 24) : m.inUnits 9 < Nanoseconds.limit ↔ m.value < 2 ^ 64 := by
  have limit : Nanoseconds.limit = 2 ^ 64 * Nat.pow 10 9 := by decide +kernel
  rw [limit, Decimal.Magnitude.inUnits_lt_iff (short.trans (by decide))]
  norm_num

/-- **What becomes of an accepted step.**  A step from a command line is a positive number of seconds.  A clock takes it
    if it is below 2^64 seconds, and counts its nanoseconds to the nearest; so the clock moves if the step is more than
    half a nanosecond.  After any number of ticks that the durations and the frames have room for, the time that has
    passed is as many steps and the frames are as many; and with a step that moves the clock it is more than after fewer
    ticks. -/
theorem accepted_step_runs {words : List String} {a : Arguments} (accepted : Arguments.parse words = .ok a)
    (given : a.overrides.step = some x) :
    ∃ m, Decimal.ofFloat32 x = .finite false m ∧ 0 < m.value ∧
      ((fixed? x).isSome = true ↔ m.value < 2 ^ 64) ∧
      ∀ c, fixed? x = some c →
        |(c.step : ℚ) - m.value * 10 ^ 9| ≤ 1 / 2 ∧ (1 ≤ c.step ↔ 1 / 2 < m.value * 10 ^ 9) ∧
        ∀ n, n * c.step < Nanoseconds.limit → n < frameLimit →
          ∃ c', c.ticks? n = some c' ∧ c'.step = c.step ∧ c'.elapsed = n * c.step ∧ c'.frame = n ∧
            (1 ≤ c.step → ∀ k < n, ∃ b, c.ticks? k = some b ∧ b.elapsed < c'.elapsed) := by
  obtain ⟨positive, finite⟩ := Arguments.isStep_of_parse accepted given
  obtain ⟨m, read, some, short⟩ := Decimal.exists_magnitude positive finite
  have starts := fixed?_of_finite read
  refine ⟨m, read, Decimal.Magnitude.value_pos some, ?_, fun c started => ?_⟩
  · rw [starts, ← inUnits_lt_limit_iff short]
    split <;> simp [*]
  · have fresh : c = ⟨m.inUnits 9, 0, 0⟩ := by
      rw [starts] at started
      split at started
      · exact (Option.some.inj started).symm
      · cases started
    subst fresh
    refine ⟨m.abs_inUnits_sub_le 9, m.inUnits_pos_iff 9, fun n time frames => ?_⟩
    have fits : Fits ⟨m.inUnits 9, 0, 0⟩ n := ⟨(Nat.zero_add _).trans_lt time, (Nat.zero_add n).trans_lt frames⟩
    refine ⟨_, ticks?_of_fits fits, rfl, Nat.zero_add _, Nat.zero_add n, fun step k before => ?_⟩
    exact ⟨_, ticks?_of_fits (fits.of_le before.le), later_lt step before⟩

/-- A quarter of a second. -/
def quarter : Float32 := .ofBits 0x3e800000

/-- Four steps of a quarter are a second. -/
theorem accepted_quarter_runs :
    ∃ a, Arguments.parse ["run", "--dt", "0.25"] = .ok a ∧ a.overrides.step = some quarter ∧
      ∃ c, fixed? quarter = some c ∧
        ∃ c', c.ticks? 4 = some c' ∧ c'.elapsed = Nanoseconds.perSecond ∧ c'.frame = 4 := by
  have step : Arguments.timestep "0.25" = .ok quarter :=
    Arguments.timestep_of_written (by decide +kernel) ⟨by decide +kernel, by decide +kernel⟩
  obtain ⟨a, accepted, given⟩ := Arguments.parse_step "run" step
  obtain ⟨m, -, -, -, runs⟩ := accepted_step_runs accepted given
  have started : fixed? quarter = some ⟨250000000, 0, 0⟩ := by decide +kernel
  obtain ⟨-, -, counts⟩ := runs _ started
  obtain ⟨c', ticks, -, elapsed, frame, -⟩ := counts 4 (by decide +kernel) (by decide +kernel)
  exact ⟨a, accepted, given, _, started, c', ticks, elapsed, frame⟩

/-- `1e20` seconds and a tenth of a nanosecond. -/
def endless : Float32 := .ofBits 0x60ad78ec

def momentary : Float32 := .ofBits 0x2edbe6ff

/-- Both are accepted; there is no clock for the first, and with the second a clock counts frames and no time. -/
theorem accepted_step_stands :
    (∃ a, Arguments.parse ["run", "--dt", "1e20"] = .ok a ∧ a.overrides.step = some endless ∧
      fixed? endless = none) ∧
    ∃ a, Arguments.parse ["run", "--dt", "1e-10"] = .ok a ∧ a.overrides.step = some momentary ∧
      ∃ c, fixed? momentary = some c ∧ ∀ n < frameLimit, c.ticks? n = some ⟨0, 0, n⟩ := by
  have long : Arguments.timestep "1e20" = .ok endless :=
    Arguments.timestep_of_written (by decide +kernel) ⟨by decide +kernel, by decide +kernel⟩
  have short : Arguments.timestep "1e-10" = .ok momentary :=
    Arguments.timestep_of_written (by decide +kernel) ⟨by decide +kernel, by decide +kernel⟩
  obtain ⟨a, accepted, given⟩ := Arguments.parse_step "run" long
  obtain ⟨b, accepted', given'⟩ := Arguments.parse_step "run" short
  refine ⟨⟨a, accepted, given, by decide +kernel⟩, b, accepted', given', ⟨0, 0, 0⟩, by decide +kernel, ?_⟩
  intro n few
  have stays : (⟨0, 0, 0⟩ : Clock).later n = ⟨0, 0, n⟩ := by simp [later]
  have room : 0 < Nanoseconds.limit := by decide +kernel
  have fits : (⟨0, 0, 0⟩ : Clock).Fits n := by
    rw [Fits, stays]
    exact ⟨room, few⟩
  rw [ticks?_of_fits fits, stays]

end Clock

end ScriptHost
