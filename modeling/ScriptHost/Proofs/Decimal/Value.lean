import Mathlib
import ScriptHost.Decimal.Fixed

/-!
# Value — what the bits of a number are worth

A reading of a number has a value, and counting it in decimal units rounds this value to the nearest whole number of
them.  The single-precision numbers that compare as positive and finite are those with a positive value.
-/

namespace ScriptHost.Decimal

/-! ## 1. Rounded quotients -/

section Rounding

variable {num den : Nat}

theorem roundDiv_one (n : Nat) : roundDiv n 1 = n := by
  simp [roundDiv, Nat.mod_one]

/-- What rounds to no unit at all is at most a half. -/
theorem roundDiv_pos_iff (positive : 0 < den) : 0 < roundDiv num den ↔ den < 2 * num := by
  have split := Nat.div_add_mod num den
  have rest := Nat.mod_lt num positive
  -- With a whole unit in the quotient it stays; without one the remainder is all there is to round.
  rcases Nat.eq_zero_or_pos (num / den) with none | some
  · have whole : num % den = num := by rw [none, Nat.mul_zero, Nat.zero_add] at split; exact split
    simp only [roundDiv, none, whole]
    split_ifs <;> omega
  · have enough : den ≤ num := by
      calc den = den * 1 := (Nat.mul_one den).symm
        _ ≤ den * (num / den) := Nat.mul_le_mul_left den some
        _ ≤ num := Nat.mul_div_le num den
    have kept : 0 < roundDiv num den := by
      simp only [roundDiv]
      split_ifs <;> omega
    exact iff_of_true kept (by omega)

/-- A quotient that reaches a whole number is rounded to nothing below it. -/
theorem le_roundDiv {n : Nat} (positive : 0 < den) (reached : n * den ≤ num) : n ≤ roundDiv num den := by
  obtain ⟨-, near⟩ := roundDiv_bounds num den positive
  by_contra below
  have step : (roundDiv num den + 1) * den ≤ n * den := Nat.mul_le_mul_right den (Nat.not_le.mp below)
  rw [Nat.add_mul] at step
  omega

theorem roundDiv_le (positive : 0 < den) : roundDiv num den ≤ num := by
  obtain ⟨near, -⟩ := roundDiv_bounds num den positive
  by_contra above
  have step : (num + 1) * den ≤ roundDiv num den * den := Nat.mul_le_mul_right den (Nat.not_le.mp above)
  have grow : num ≤ num * den := Nat.le_mul_of_pos_right num positive
  rw [Nat.add_mul] at step
  omega

theorem abs_roundDiv_sub_le (positive : 0 < den) : |(roundDiv num den : ℚ) - num / den| ≤ 1 / 2 := by
  obtain ⟨above, below⟩ := roundDiv_bounds num den positive
  have den_pos : (0 : ℚ) < den := Nat.cast_pos.mpr positive
  have above' : 2 * ((roundDiv num den : ℚ) * den) ≤ 2 * num + den := by exact_mod_cast above
  have below' : 2 * (num : ℚ) ≤ 2 * (roundDiv num den * den) + den := by exact_mod_cast below
  have quotient : (num : ℚ) / den * den = num := div_mul_cancel₀ _ den_pos.ne'
  rw [abs_le]
  constructor
  · by_contra far
    nlinarith
  · by_contra far
    nlinarith

end Rounding

/-! ## 2. Magnitudes -/

namespace Magnitude

variable {m : Magnitude} {places : Nat}

/-- The exact number that a magnitude is. -/
def value (m : Magnitude) : ℚ := m.mantissa * 2 ^ m.exponent

theorem value_pos (positive : 0 < m.mantissa) : 0 < m.value :=
  mul_pos (Nat.cast_pos.mpr positive) (zpow_pos two_pos _)

/-- What is rounded to count the units in a magnitude, and what it is divided by. -/
def unitsNum (m : Magnitude) (places : Nat) : Nat := (m.mantissa * Nat.pow 10 places) <<< m.exponent.toNat

def unitsDen (m : Magnitude) : Nat := 1 <<< (-m.exponent).toNat

theorem inUnits_eq (m : Magnitude) (places : Nat) : m.inUnits places = roundDiv (m.unitsNum places) m.unitsDen := rfl

theorem unitsDen_pos (m : Magnitude) : 0 < m.unitsDen := by
  simp [unitsDen, Nat.shiftLeft_eq]

theorem value_eq_div (m : Magnitude) (places : Nat) :
    m.value * (10 : ℚ) ^ places = m.unitsNum places / m.unitsDen := by
  have power : (2 : ℚ) ^ m.exponent = 2 ^ m.exponent.toNat / 2 ^ (-m.exponent).toNat := by
    rw [← zpow_natCast, ← zpow_natCast, ← zpow_sub₀ two_ne_zero]
    congr 1
    omega
  rw [value, power, unitsNum, unitsDen, Nat.shiftLeft_eq, Nat.shiftLeft_eq, Nat.pow_eq]
  push_cast
  field_simp

theorem abs_inUnits_sub_le (m : Magnitude) (places : Nat) :
    |(m.inUnits places : ℚ) - m.value * (10 : ℚ) ^ places| ≤ 1 / 2 := by
  rw [value_eq_div, inUnits_eq]
  exact abs_roundDiv_sub_le m.unitsDen_pos

theorem inUnits_pos_iff (m : Magnitude) (places : Nat) :
    0 < m.inUnits places ↔ 1 / 2 < m.value * (10 : ℚ) ^ places := by
  rw [inUnits_eq, roundDiv_pos_iff m.unitsDen_pos, value_eq_div,
    div_lt_div_iff₀ two_pos (Nat.cast_pos.mpr m.unitsDen_pos), one_mul, mul_comm _ (2 : ℚ)]
  exact_mod_cast Iff.rfl

/-- Where the mantissa alone is below a whole number, rounding does not take the units to that number: either they are
    not rounded at all, or they are fewer by far. -/
theorem inUnits_lt_iff {whole : Nat} (short : m.mantissa < whole) :
    m.inUnits places < whole * Nat.pow 10 places ↔ m.value < whole := by
  have ten : (0 : ℚ) < (10 : ℚ) ^ places := by positivity
  have den : (0 : ℚ) < m.unitsDen := Nat.cast_pos.mpr m.unitsDen_pos
  have reaches : m.value < whole ↔ m.unitsNum places < whole * Nat.pow 10 places * m.unitsDen := by
    rw [← mul_lt_mul_iff_left₀ ten, value_eq_div, div_lt_iff₀ den, Nat.pow_eq]
    exact_mod_cast Iff.rfl
  rw [inUnits_eq, reaches]
  constructor
  · intro below
    by_contra reached
    exact absurd (le_roundDiv m.unitsDen_pos (Nat.not_lt.mp reached)) (Nat.not_le.mpr below)
  · intro below
    rcases Int.le_total 0 m.exponent with up | down
    · have one : m.unitsDen = 1 := by
        rw [unitsDen, Int.toNat_eq_zero.mpr (Int.neg_nonpos_of_nonneg up)]
        rfl
      rwa [one, roundDiv_one, ← Nat.mul_one (whole * _), ← one]
    · have plain : m.unitsNum places = m.mantissa * Nat.pow 10 places := by
        rw [unitsNum, Int.toNat_eq_zero.mpr down]
        rfl
      calc roundDiv (m.unitsNum places) m.unitsDen
        _ ≤ m.mantissa * Nat.pow 10 places := plain ▸ roundDiv_le m.unitsDen_pos
        _ < whole * Nat.pow 10 places := Nat.mul_lt_mul_of_pos_right short (Nat.pow_pos (by decide))

end Magnitude

/-! ## 3. Positive numbers -/

/-- A word whose exponent is not that of the infinite ones is read as finite. -/
theorem Format.exists_of_read (f : Format) {word : Nat}
    (usual : word >>> f.fractionBits % 1 <<< f.exponentBits ≠ 1 <<< f.exponentBits - 1) :
    ∃ m, f.read word = .finite (word >>> (f.fractionBits + f.exponentBits) % 2 == 1) m ∧
      m.mantissa < 2 ^ (f.fractionBits + 1) ∧
      (0 < m.mantissa ↔
        word >>> f.fractionBits % 1 <<< f.exponentBits ≠ 0 ∨ 0 < word % 1 <<< f.fractionBits) := by
  have unit : 0 < 1 <<< f.fractionBits := by simp [Nat.shiftLeft_eq]
  have fraction : word % 1 <<< f.fractionBits < 1 <<< f.fractionBits := Nat.mod_lt _ unit
  have double : 2 ^ (f.fractionBits + 1) = 1 <<< f.fractionBits + 1 <<< f.fractionBits := by
    rw [Nat.one_shiftLeft, Nat.pow_succ, Nat.mul_two]
  rw [read]
  simp only [beq_iff_eq, if_neg usual, double]
  by_cases small : word >>> f.fractionBits % 1 <<< f.exponentBits = 0
  · rw [if_pos small]
    exact ⟨_, rfl, Nat.lt_add_right _ fraction, by simp [small]⟩
  · rw [if_neg small]
    exact ⟨_, rfl, Nat.add_lt_add_left fraction _, iff_of_true (Nat.add_pos_left unit _) (.inl small)⟩

section Positive

open Float.Model

variable {x : Float32} {b : BitVec 32}

theorem unpack_of_positive (positive : 0 < x) (finite : x.isFinite = true) :
    ∃ m e h, x.toModel.unpack = .finite .positive m e h := by
  have compares : Float32.lt 0 x = true := positive
  have less : (0 : Float32).toModel.unpack.lt x.toModel.unpack = true := of_decide_eq_true compares
  have zero : (0 : Float32).toModel.unpack = .zero .positive := by
    rw [show (0 : Float32) = Float32.ofBits 0 by decide +kernel]
    rfl
  have finite' : x.toModel.unpack.isFinite = true := finite
  rw [zero] at less
  cases parts : x.toModel.unpack with
  | infinity s =>
    rw [parts] at finite'
    cases finite'
  | notANumber =>
    rw [parts] at finite'
    cases finite'
  | zero s =>
    rw [parts] at less
    cases less
  | finite s m e h =>
    cases s with
    | positive => exact ⟨m, e, h, rfl⟩
    | negative =>
      rw [parts] at less
      cases less

theorem toNat_unpackExponent (b : BitVec 32) :
    (@UnpackedFloat.unpackExponent .binary32 b).toNat = b.toNat >>> 23 % 1 <<< 8 := by
  simp [UnpackedFloat.unpackExponent]

theorem toNat_unpackMantissa (b : BitVec 32) :
    (@UnpackedFloat.unpackMantissa .binary32 b).toNat = b.toNat % 1 <<< 23 := by
  simp [UnpackedFloat.unpackMantissa]

theorem toNat_unpackSign (b : BitVec 32) :
    (@UnpackedFloat.unpackSign .binary32 b).toNat = b.toNat >>> 31 % 2 := by
  simp [UnpackedFloat.unpackSign]

theorem toNat_of_positive {v : BitVec 1} (positive : UnpackedFloat.Sign.ofBitVec v = .positive) : v.toNat = 0 := by
  have bit : ∀ v : BitVec 1, v = 0#1 ∨ v = 1#1 := by decide
  rcases bit v with rfl | rfl
  · rfl
  · cases positive

/-- The bits of a positive finite number: no sign, not the exponent of the infinite ones, and not all zero. -/
theorem bits_of_positive (positive : 0 < x) (finite : x.isFinite = true) :
    x.toBits.toNat >>> 31 % 2 = 0 ∧ x.toBits.toNat >>> 23 % 1 <<< 8 ≠ 255 ∧
      (x.toBits.toNat >>> 23 % 1 <<< 8 = 0 → 0 < x.toBits.toNat % 1 <<< 23) := by
  obtain ⟨m, e, h, parts⟩ := unpack_of_positive positive finite
  have bits : x.toModel.toBits.toBitVec.toNat = x.toBits.toNat := rfl
  rw [← bits, ← toNat_unpackSign, ← toNat_unpackExponent, ← toNat_unpackMantissa]
  -- Each branch of the unpacking gives one shape of number, and only two give a finite one.
  rw [Float32.Model.unpack, UnpackedFloat.unpack] at parts
  dsimp only at parts
  split at parts
  · split at parts <;> cases parts
  next usual =>
    have usual' : (@UnpackedFloat.unpackExponent .binary32 x.toModel.toBits.toBitVec).toNat ≠ 255 :=
      fun same => usual (BitVec.eq_of_toNat_eq same)
    split at parts
    · next small =>
      split at parts
      · cases parts
      next some =>
        injection parts with sign
        refine ⟨toNat_of_positive sign, usual', fun _ => Nat.pos_of_ne_zero fun none => ?_⟩
        exact some (BitVec.eq_of_toNat_eq none)
    next large =>
      injection parts with sign
      exact ⟨toNat_of_positive sign, usual', fun none => absurd (BitVec.eq_of_toNat_eq none) large⟩

/-- A number that compares as positive and finite is read as a positive magnitude. -/
theorem exists_magnitude (positive : 0 < x) (finite : x.isFinite = true) :
    ∃ m, ofFloat32 x = .finite false m ∧ 0 < m.mantissa ∧ m.mantissa < 2 ^ 24 := by
  obtain ⟨sign, usual, some⟩ := bits_of_positive positive finite
  obtain ⟨m, read, short, positive_iff⟩ := single.exists_of_read usual
  refine ⟨m, ?_, positive_iff.mpr ?_, short⟩
  · rw [ofFloat32, read]
    exact congrArg (fun n => Reading.finite (n == 1) m) sign
  · by_cases small : x.toBits.toNat >>> 23 % 1 <<< 8 = 0
    · exact .inr (some small)
    · exact .inl small

end Positive

end ScriptHost.Decimal
