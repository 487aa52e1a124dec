import ScriptHost.Decimal.Binary

/-!
# Fixed — numbers with a fixed count of decimal places

The exact value is rounded once; an exact tie goes to the even neighbour.
-/

namespace ScriptHost.Decimal

/-- `num / den` rounded to the nearest whole number, ties to even. -/
def roundDiv (num den : Nat) : Nat :=
  let q := num / den
  let r := num % den
  if 2 * r < den then q
  else if den < 2 * r then q + 1
  else q + q % 2

/-- The magnitude in units of `10 ^ -places`, rounded. -/
def Magnitude.inUnits (v : Magnitude) (places : Nat) : Nat :=
  roundDiv ((v.mantissa * Nat.pow 10 places) <<< v.exponent.toNat) (1 <<< (-v.exponent).toNat)

/-- `n` units of `10 ^ -places` with a decimal point. -/
def pointed (n places : Nat) : List Char :=
  let digits := Nat.toDigits 10 n
  let padded := List.replicate (places + 1 - digits.length) '0' ++ digits
  let whole := padded.take (padded.length - places)
  if places == 0 then whole else whole ++ '.' :: padded.drop (padded.length - places)

/-- A reading with so many decimal places. -/
def fixed (places : Nat) : Reading → String
  | .nan => "NaN"
  | .infinite negative => if negative then "-inf" else "inf"
  | .finite negative v =>
    String.ofList ((if negative then ['-'] else []) ++ pointed (v.inUnits places) places)

/-- Rounding is within half a unit. -/
theorem roundDiv_bounds (num den : Nat) (h : 0 < den) :
    2 * (roundDiv num den * den) ≤ 2 * num + den ∧ 2 * num ≤ 2 * (roundDiv num den * den) + den := by
  have hd := Nat.div_add_mod num den
  have hm := Nat.mod_lt num h
  have hc : den * (num / den) = num / den * den := Nat.mul_comm _ _
  unfold roundDiv
  dsimp only
  split
  · constructor <;> omega
  · split
    · rw [Nat.add_mul]; constructor <;> omega
    · rcases Nat.mod_two_eq_zero_or_one (num / den) with h0 | h0 <;> simp only [h0, Nat.add_zero]
      · constructor <;> omega
      · rw [Nat.add_mul]; constructor <;> omega

end ScriptHost.Decimal
