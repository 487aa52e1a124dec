import ScriptHost.Decimal.Layout
import ScriptHost.Decimal.Nearest

/-!
# Numeral — the numbers of a JSON text

A number keeps its digits as written, since what it is worth depends on the type that asks for it: a
whole number has to be written without fraction and exponent, while a floating-point number is read
through a 64-bit significand and one exact scaling.
-/

namespace ScriptHost.Json

/-- A number as written: `whole` is never empty, `fraction` and the digits of `power` are empty only
    where the part is missing. -/
structure Numeral where
  negative : Bool
  whole : List Char
  fraction : List Char
  /-- Whether the power of ten is negative, and its digits. -/
  power : Option (Bool × List Char)
deriving DecidableEq, Inhabited

namespace Numeral

/-! ## 1. Reading and writing -/

/-- The whole part: a lone zero, or digits that do not start with zero. -/
def readWhole? : List Char → Option (List Char × List Char)
  | '0' :: rest => some (['0'], rest)
  | cs =>
    let digits := cs.takeWhile Char.isDigit
    if digits.isEmpty then none else some (digits, cs.dropWhile Char.isDigit)

/-- The digits after a point, if there is one. -/
def readFraction? : List Char → Option (List Char × List Char)
  | '.' :: rest =>
    let digits := rest.takeWhile Char.isDigit
    if digits.isEmpty then none else some (digits, rest.dropWhile Char.isDigit)
  | cs => some ([], cs)

/-- The sign of a power of ten, with what follows it. -/
def readSign : List Char → Bool × List Char
  | '-' :: rest => (true, rest)
  | '+' :: rest => (false, rest)
  | cs => (false, cs)

/-- The power of ten, if there is one. -/
def readPower? : List Char → Option (Option (Bool × List Char) × List Char)
  | [] => some (none, [])
  | c :: rest =>
    if c == 'e' || c == 'E' then
      let (negative, cs) := readSign rest
      let digits := cs.takeWhile Char.isDigit
      if digits.isEmpty then none else some (some (negative, digits), cs.dropWhile Char.isDigit)
    else some (none, c :: rest)

/-- The longest number at the front of a text. -/
def read? (cs : List Char) : Option (Numeral × List Char) := do
  let negative := cs.head? == some '-'
  let (whole, cs) ← readWhole? (if negative then cs.drop 1 else cs)
  let (fraction, cs) ← readFraction? cs
  let (power, cs) ← readPower? cs
  some (⟨negative, whole, fraction, power⟩, cs)

/-- The written form. -/
def write (n : Numeral) : List Char :=
  (if n.negative then ['-'] else []) ++ n.whole ++
  (if n.fraction.isEmpty then [] else '.' :: n.fraction) ++
  match n.power with
  | none => []
  | some (negative, digits) => 'e' :: (if negative then '-' else '+') :: digits

/-! ## 2. Whole numbers -/

def ofInt (n : Int) : Numeral := ⟨n < 0, Nat.toDigits 10 n.natAbs, [], none⟩

/-- The whole number between `low` and `high`; a negative zero is none. -/
def toInt? (low high : Int) (n : Numeral) : Option Int :=
  if n.fraction.isEmpty && n.power.isNone then
    let magnitude : Int := Decimal.natOfDigits n.whole
    if n.negative && magnitude == 0 then none
    else
      let value := if n.negative then -magnitude else magnitude
      if low ≤ value && value ≤ high then some value else none
  else none

/-! ## 3. Floating-point numbers -/

/-- JSON numbers: powers of ten below `0.00001` and from `1e+16`, whole numbers keep `.0`. -/
def double : Decimal.Layout := ⟨-4, 16, true, true, .toEven⟩

/-- JSON numbers of single precision. -/
def single : Decimal.Layout := ⟨-5, 13, true, true, .toEven⟩

/-- The written form of a reading; a value without digits has none. -/
def ofReading? (l : Decimal.Layout) (r : Decimal.Reading) : Option Numeral :=
  match r with
  | .finite .. => (read? (l.write r).toList).map (·.1)
  | _ => none

/-- The significand of the first digits that fit 64 bits, with the number of digits left over. -/
def significand : Nat → List Char → Nat × Nat
  | n, [] => (n, 0)
  | n, c :: rest =>
    let next := 10 * n + (c.toNat - '0'.toNat)
    if next < 1 <<< 64 then significand next rest else (n, rest.length + 1)

/-- `x * 10 ^ power`, scaled by at most `10 ^ 308` at a time; `none` beyond the largest double.
    `fuel` bounds the number of scalings. -/
def scale? : Nat → Float → Int → Option Float
  | 0, x, _ => some x
  | fuel + 1, x, power =>
    if power.natAbs ≤ 308 then
      let step := Float.ofScientific (Nat.pow 10 power.natAbs) false 0
      if 0 ≤ power then
        let y := x * step
        if y.isInf then none else some y
      else some (x / step)
    else if x == 0 then some x
    else if 0 ≤ power then none
    else scale? fuel (x / Float.ofScientific (Nat.pow 10 308) false 0) (power + 308)

/-- The double of a number: digits that do not fit a 64-bit significand are dropped, and the
    significand, rounded once, is scaled by the power of ten. -/
def toFloat? (n : Numeral) : Option Float := do
  let (whole, dropped) := significand 0 n.whole
  let (digits, unread) := significand whole n.fraction
  let written : Int := match n.power with
    | none => 0
    | some (negative, ds) => if negative then -(Decimal.natOfDigits ds : Int) else Decimal.natOfDigits ds
  let power : Int := written + dropped - (n.fraction.length - unread : Nat)
  let magnitude ←
    if 1 <<< 31 ≤ written.natAbs then
      if digits != 0 && 0 ≤ written then none else some 0
    else scale? 8 (Float.ofNat digits) power
  some (if n.negative then -magnitude else magnitude)

end Numeral

end ScriptHost.Json
