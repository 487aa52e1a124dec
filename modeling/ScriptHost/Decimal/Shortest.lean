import ScriptHost.Decimal.Binary

/-!
# Shortest — the fewest decimal digits that read back

Among all decimals that round to a given binary number the one with the fewest digits is chosen, and
of several such the nearest; an exact tie between two goes as the caller says.  All comparisons are
exact, between natural numbers.
-/

namespace ScriptHost.Decimal

/-- Where an exact tie between two decimals of equal length goes. -/
inductive Tie where
  | up
  | toEven
deriving DecidableEq

/-- The decimal `coefficient * 10 ^ exponent`. -/
structure Scaled where
  coefficient : Nat
  exponent : Int
deriving DecidableEq, Inhabited

/-- Drops trailing zeros of the coefficient; `fuel` bounds their number. -/
def Scaled.stripZeros : Nat → Scaled → Scaled
  | 0, d => d
  | fuel + 1, d =>
    if d.coefficient != 0 && d.coefficient % 10 == 0 then
      stripZeros fuel ⟨d.coefficient / 10, d.exponent + 1⟩
    else d

/-- The power of `base` with exponent `e`, or one where `e` is negative. -/
def powPart (base : Nat) (e : Int) : Nat := Nat.pow base e.toNat

/-- How many decimal digits `n` has. -/
def digitCount (n : Nat) : Nat := (Nat.toDigits 10 n).length

/-- The position of the decimal point of `num / den`: the least `p` with `num / den < 10 ^ p`. -/
def pointPosition (num den : Nat) : Int :=
  if den ≤ num then digitCount (num / den)
  else
    let d := digitCount (den / num)
    if num * Nat.pow 10 (d - 1) == den then 2 - d else 1 - d

/-- The neighbours of `v` on the grid of multiples of `10 ^ k` that read back as `v`, the better one
    if there are two.  Quarters of the last binary place serve as the unit. -/
def Magnitude.onGrid? (v : Magnitude) (tie : Tie) (k : Int) : Option Scaled :=
  let e := v.exponent - 2
  let one := powPart 10 k * powPart 2 (-e)
  let quarter := powPart 2 e * powPart 10 (-k)
  let centre := 4 * v.mantissa * quarter
  let low := (4 * v.mantissa - if v.tight then 1 else 2) * quarter
  let high := (4 * v.mantissa + 2) * quarter
  let closed := v.mantissa % 2 == 0
  let inside (c : Nat) : Bool :=
    if closed then low ≤ c * one && c * one ≤ high else low < c * one && c * one < high
  let c := centre / one
  match inside c && c != 0, inside (c + 1) with
  | true, true =>
    let below := centre - c * one
    let above := (c + 1) * one - centre
    let takeUpper := above < below ||
      (above == below && match tie with
        | .up => true
        | .toEven => c % 2 == 1)
    some ⟨if takeUpper then c + 1 else c, k⟩
  | true, false => some ⟨c, k⟩
  | false, true => some ⟨c + 1, k⟩
  | false, false => none

/-- Tries grids of one digit, two digits and so on. -/
def Magnitude.firstGrid (v : Magnitude) (tie : Tie) (point : Int) : Nat → Nat → Option Scaled
  | 0, _ => none
  | fuel + 1, digits =>
    match v.onGrid? tie (point - digits) with
    | some d => some d
    | none => v.firstGrid tie point fuel (digits + 1)

/-- The shortest decimal that reads back as `v`, without trailing zeros. -/
def Magnitude.shortest (v : Magnitude) (tie : Tie) : Scaled :=
  if v.mantissa == 0 then ⟨0, 0⟩
  else
    let num := v.mantissa * powPart 2 v.exponent
    let den := powPart 2 (-v.exponent)
    match v.firstGrid tie (pointPosition num den) 20 1 with
    | some d => d.stripZeros 20
    | none => ⟨v.mantissa, v.exponent⟩

end ScriptHost.Decimal
