/-!
# Nearest — the number of a format next to a decimal

A decimal with any number of digits is rounded once, ties to even.
-/

namespace ScriptHost.Decimal

/-- `coefficient * 10 ^ exponent` as digits, whether the power divides them, and its size.  Exponents far
    outside the range of every format are cut down to where the result is the same. -/
def clamped (coefficient : Nat) (exponent : Int) : Nat × Bool × Nat :=
  if coefficient == 0 then (0, false, 0)
  else if 400 < exponent then (1, false, 400)
  else if exponent < -(400 + (Nat.toDigits 10 coefficient).length : Int) then (0, false, 0)
  else (coefficient, exponent < 0, exponent.natAbs)

/-- The double nearest to `coefficient * 10 ^ exponent`. -/
def nearest (coefficient : Nat) (exponent : Int) : Float :=
  let (digits, divided, size) := clamped coefficient exponent
  Float.ofScientific digits divided size

/-- The single-precision number nearest to `coefficient * 10 ^ exponent`. -/
def nearestSingle (coefficient : Nat) (exponent : Int) : Float32 :=
  let (digits, divided, size) := clamped coefficient exponent
  Float32.ofScientific digits divided size

/-- The value of decimal digits; other characters count for nothing. -/
def natOfDigits (digits : List Char) : Nat :=
  digits.foldl (fun n c => if c.isDigit then 10 * n + (c.toNat - '0'.toNat) else n) 0

end ScriptHost.Decimal
