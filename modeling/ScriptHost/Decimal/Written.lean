import ScriptHost.Decimal.Nearest

/-!
# Written — numbers as they are given outside a program

A number is a sign, digits with a point before, among or behind them, and a power of ten; or it is a
name of infinity or of what is no number, in capitals or not.
-/

namespace ScriptHost.Decimal

/-- The sign in front, if it is negative, and what follows it. -/
def splitSign : List Char → Bool × List Char
  | '-' :: rest => (true, rest)
  | '+' :: rest => (false, rest)
  | cs => (false, cs)

/-- A whole power of ten. -/
def powerOf? (cs : List Char) : Option Int :=
  let (negative, digits) := splitSign cs
  if digits.isEmpty || !digits.all Char.isDigit then none
  else some (if negative then -(natOfDigits digits : Int) else natOfDigits digits)

/-- The digits of an unsigned number and the power of ten of the last one. -/
def digitsOf? (cs : List Char) : Option (List Char × Int) := do
  let whole := cs.takeWhile Char.isDigit
  let rest := cs.dropWhile Char.isDigit
  let (fraction, rest) := match rest with
    | '.' :: rest => (rest.takeWhile Char.isDigit, rest.dropWhile Char.isDigit)
    | rest => ([], rest)
  if whole.isEmpty && fraction.isEmpty then none
  else
    let power ← match rest with
      | [] => some 0
      | c :: rest => if c == 'e' || c == 'E' then powerOf? rest else none
    some (whole ++ fraction, power - fraction.length)

/-- What a text writes: behind a sign, a decimal or the name of a number that no decimal writes. -/
inductive Spelled where
  | infinite
  | undefined
  | decimal (coefficient : Nat) (power : Int)

/-- The sign and the number without it that a text writes. -/
def spelled? (s : String) : Option (Bool × Spelled) :=
  let (negative, cs) := splitSign s.toList
  let name := String.ofList (cs.map Char.toLower)
  if name == "inf" || name == "infinity" then some (negative, .infinite)
  else if name == "nan" then some (negative, .undefined)
  else (digitsOf? cs).map fun (digits, power) => (negative, .decimal (natOfDigits digits) power)

/-- The single-precision number that a text writes. -/
def singleOf? (s : String) : Option Float32 :=
  (spelled? s).map fun (negative, m) =>
    let x : Float32 := match m with
      | .infinite => 1 / 0
      | .undefined => 0 / 0
      | .decimal coefficient power => nearestSingle coefficient power
    if negative then -x else x

/-- The double that a text writes. -/
def doubleOf? (s : String) : Option Float :=
  (spelled? s).map fun (negative, m) =>
    let x : Float := match m with
      | .infinite => 1 / 0
      | .undefined => 0 / 0
      | .decimal coefficient power => nearest coefficient power
    if negative then -x else x

/-- The natural number below `bound` that a text writes, with or without a plus sign. -/
def natOf? (bound : Nat) (s : String) : Option Nat :=
  let digits := match s.toList with
    | '+' :: rest => rest
    | cs => cs
  let n := natOfDigits digits
  if !digits.isEmpty && digits.all Char.isDigit && n < bound then some n else none

end ScriptHost.Decimal
