/-!
# Binary — the exact value behind a floating-point word

A finite word of either width is `± mantissa * 2 ^ exponent` with natural `mantissa`.  Everything that
prints a number starts from this reading of its bits, never from a rounded text.
-/

namespace ScriptHost.Decimal

/-- The magnitude `mantissa * 2 ^ exponent`; `tight` says that the next smaller number of the format is
    only half as far away as the next larger one. -/
structure Magnitude where
  mantissa : Nat
  exponent : Int
  tight : Bool
deriving DecidableEq, Inhabited

/-- What a floating-point word stands for. -/
inductive Reading where
  | nan
  | infinite (negative : Bool)
  | finite (negative : Bool) (magnitude : Magnitude)
deriving DecidableEq, Inhabited

/-- A binary interchange format: widths of the stored fraction and of the exponent. -/
structure Format where
  fractionBits : Nat
  exponentBits : Nat

def double : Format := ⟨52, 11⟩

def single : Format := ⟨23, 8⟩

/-- The reading of a word of format `f`. -/
def Format.read (f : Format) (word : Nat) : Reading :=
  let fraction := word % (1 <<< f.fractionBits)
  let biased := word >>> f.fractionBits % (1 <<< f.exponentBits)
  let negative := word >>> (f.fractionBits + f.exponentBits) % 2 == 1
  let bias : Int := 1 <<< (f.exponentBits - 1) - 1
  if biased == 1 <<< f.exponentBits - 1 then
    if fraction == 0 then .infinite negative else .nan
  else if biased == 0 then
    .finite negative ⟨fraction, 1 - bias - f.fractionBits, false⟩
  else
    .finite negative ⟨1 <<< f.fractionBits + fraction, biased - bias - f.fractionBits,
      fraction == 0 && biased > 1⟩

/-- The reading of a double-precision number. -/
def ofFloat (x : Float) : Reading := double.read x.toBits.toNat

/-- The reading of a single-precision number. -/
def ofFloat32 (x : Float32) : Reading := single.read x.toBits.toNat

end ScriptHost.Decimal
