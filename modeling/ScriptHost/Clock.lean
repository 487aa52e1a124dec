import ScriptHost.Decimal.Fixed

/-!
# Clock — time in steps of equal length

Durations are whole nanoseconds, so that a run can be repeated exactly.
-/

namespace ScriptHost

/-- A duration in nanoseconds. -/
abbrev Nanoseconds := Nat

namespace Nanoseconds

def perSecond : Nat := 1000000000

/-- Durations end where their seconds no longer fit a word of 64 bits. -/
def limit : Nat := 1 <<< 64 * perSecond

/-- The duration of so many seconds, to the nearest nanosecond; nothing for what is no positive number,
    and no duration where it is too long. -/
def ofSeconds? (x : Float32) : Option Nanoseconds :=
  match Decimal.ofFloat32 x with
  | .nan | .infinite true | .finite true _ => some 0
  | .infinite false => none
  | .finite false m =>
    let n := m.inUnits 9
    if n < limit then some n else none

/-- A duration in seconds: whole seconds and their rest are rounded each by itself. -/
def seconds (n : Nanoseconds) : Float32 :=
  Float32.ofNat (n / perSecond) + Float32.ofNat (n % perSecond) / Float32.ofNat perSecond

end Nanoseconds

/-- A clock that advances by a constant step. -/
structure Clock where
  step : Nanoseconds
  elapsed : Nanoseconds
  frame : Nat
deriving DecidableEq, Inhabited

namespace Clock

/-- A clock that has not ticked yet. -/
def fixed? (step : Float32) : Option Clock :=
  (Nanoseconds.ofSeconds? step).map fun n => ⟨n, 0, 0⟩

/-- Frames are counted in a word of 64 bits. -/
def frameLimit : Nat := 1 <<< 64

/-- The clock after `n` ticks, unless the time that has passed is too long or the frames are too many. -/
def advance? (c : Clock) (n : Nat) : Option Clock :=
  let elapsed := c.elapsed + n * c.step
  let frame := c.frame + n
  if elapsed < Nanoseconds.limit && frame < frameLimit then some { c with elapsed := elapsed, frame := frame }
  else none

end Clock

end ScriptHost
