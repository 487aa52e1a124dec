import ScriptHost.Decimal.Shortest

/-!
# Layout — how a number is written out

The digits come from the shortest decimal; a `Layout` says where positional notation ends, whether a
whole number keeps a fraction, and how ties fall.  The texts of the values without digits are the same
everywhere.
-/

namespace ScriptHost.Decimal

/-- The decisions of one written form of numbers. -/
structure Layout where
  /-- Positional notation is used when the decimal point stands at least here (0 = just before the
      first digit). -/
  lowest : Int
  /-- Positional notation is used when the decimal point stands at most here. -/
  highest : Int
  /-- A whole number in positional notation ends in `.0`. -/
  keepsFraction : Bool
  /-- A power of ten that is not negative carries a plus sign. -/
  plusSign : Bool
  tie : Tie
deriving DecidableEq

/-- Digits around a decimal point at `point`. -/
def positional (digits : List Char) (point : Int) (keepsFraction : Bool) : List Char :=
  if point ≤ 0 then
    ['0', '.'] ++ List.replicate (-point).toNat '0' ++ digits
  else if digits.length ≤ point.toNat then
    digits ++ List.replicate (point.toNat - digits.length) '0' ++
      (if keepsFraction then ['.', '0'] else [])
  else digits.take point.toNat ++ ['.'] ++ digits.drop point.toNat

/-- One digit, the others after the point, and a power of ten. -/
def scientific (digits : List Char) (point : Int) (plusSign : Bool) : List Char :=
  let sign := if point < 1 then ['-'] else if plusSign then ['+'] else []
  let power := sign ++ Nat.toDigits 10 (point - 1).natAbs
  match digits with
  | [] => []
  | [d] => d :: 'e' :: power
  | d :: rest => d :: '.' :: rest ++ 'e' :: power

/-- The digits of a non-negative decimal in the given layout. -/
def Layout.writeScaled (l : Layout) (d : Scaled) : List Char :=
  if d.coefficient == 0 then
    if l.highest < 1 then ['0', 'e', '0'] else if l.keepsFraction then ['0', '.', '0'] else ['0']
  else
    let digits := Nat.toDigits 10 d.coefficient
    let point := digits.length + d.exponent
    if l.lowest ≤ point && point ≤ l.highest then positional digits point l.keepsFraction
    else scientific digits point l.plusSign

/-- A reading in the given layout. -/
def Layout.write (l : Layout) : Reading → String
  | .nan => "NaN"
  | .infinite negative => if negative then "-inf" else "inf"
  | .finite negative v =>
    String.ofList ((if negative then ['-'] else []) ++ l.writeScaled (v.shortest l.tie))

/-- Plain numbers: never a power of ten, no `.0`. -/
def plain : Layout := ⟨-1100, 1100, false, false, .up⟩

/-- Structured text: `.0` is kept, powers of ten below `0.00001` and from `1e16`. -/
def structured : Layout := ⟨-4, 16, true, false, .up⟩

/-- Always a power of ten. -/
def powered : Layout := ⟨1, 0, false, false, .up⟩

end ScriptHost.Decimal
