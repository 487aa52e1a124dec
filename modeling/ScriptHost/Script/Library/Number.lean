import ScriptHost.Decimal.Binary
import ScriptHost.Decimal.Written
import ScriptHost.Script.Arithmetic
import ScriptHost.Script.Library.Basic
import ScriptHost.Text.Space

/-!
# Number — library functions on numbers

Functions of analysis take floats alone; integers are checked where a result may not fit.  A text is read
as a number without the blanks around it.
-/

namespace ScriptHost.Script

/-! ## 1. Conversions -/

/-- The float as an integer, cut off toward zero.  A NaN is zero, and the first float that is too large
    gives the largest integer. -/
def truncated (x : Float) : Except Trouble Answer :=
  if x > 9223372036854775808 || x < -9223372036854775808 then
    .error (.arithmetic s!"Integer overflow: to_int({Decimal.plain.write (Decimal.ofFloat x)})")
  else
    match Decimal.ofFloat x with
    | .finite negative m =>
      let k : Int := if 0 ≤ m.exponent then m.mantissa <<< m.exponent.toNat
        else m.mantissa >>> m.exponent.natAbs
      .ok (.pure (.int (if negative then -k else min k (1 <<< 63 - 1))))
    | _ => .ok (.pure (.int 0))

/-- A number as a float. -/
def float? : Value → Option Float
  | .int n => some (Float.ofInt n)
  | .float x => some x
  | _ => none

/-- The value of a digit to a base of up to thirty-six. -/
def digitValue? (base : Nat) (c : Char) : Option Nat :=
  let v? : Option Nat :=
    if c.isDigit then some (c.toNat - '0'.toNat)
    else if c.isAlpha then some (c.toLower.toNat - 'a'.toNat + 10)
    else none
  v?.filter (· < base)

/-- What is wrong with the text of an integer. -/
inductive IntegerFault where
  | empty
  | digit
  | large
  | small

def IntegerFault.message : IntegerFault → String
  | empty => "cannot parse integer from empty string"
  | digit => "invalid digit found in string"
  | large => "number too large to fit in target type"
  | small => "number too small to fit in target type"

/-- The magnitude of digits behind those of `n`, which must stay below `bound`. -/
def magnitudeFrom (base bound : Nat) (beyond : IntegerFault) :
    (n : Nat) → List Char → Except IntegerFault Nat
  | n, [] => .ok n
  | n, c :: cs =>
    match digitValue? base c with
    | none => .error .digit
    | some d =>
      if base * n + d < bound then magnitudeFrom base bound beyond (base * n + d) cs
      else .error beyond

/-- The integer that a text writes to some base. -/
def integerOf (base : Nat) (cs : List Char) : Except IntegerFault Int :=
  match cs with
  | [] => .error .empty
  | ['+'] | ['-'] => .error .digit
  | '-' :: cs => (magnitudeFrom base (1 <<< 63 + 1) .small 0 cs).map fun n => -(n : Int)
  | '+' :: cs => (magnitudeFrom base (1 <<< 63) .large 0 cs).map Int.ofNat
  | cs => (magnitudeFrom base (1 <<< 63) .large 0 cs).map Int.ofNat

/-- The integer in a text of a script. -/
def readInteger (base : Int) (s : String) : Except Trouble Answer :=
  if base < 2 || 36 < base then .error (.arithmetic s!"Invalid radix: '{base}'")
  else
    match integerOf base.toNat (Text.trim s.toList) with
    | .ok n => .ok (.pure (.int n))
    | .error f => .error (.arithmetic s!"Error parsing integer number '{s}': {f.message}")

/-- The float in a text of a script. -/
def readFloat (s : String) : Except Trouble Answer :=
  let cs := Text.trim s.toList
  match Decimal.doubleOf? (String.ofList cs) with
  | some x => .ok (.pure (.float x))
  | none =>
    let fault := if cs.isEmpty then "cannot parse float from empty string" else "invalid float literal"
    .error (.arithmetic s!"Error parsing floating-point number '{s}': {fault}")

/-- The bits of an integer as digits to a base. -/
def bitText (base : Nat) (n : Int) : Value :=
  .text (String.ofList (Nat.toDigits base (n % (1 <<< 64)).toNat))

/-! ## 2. Comparison -/

/-- The lesser of two values that compare. -/
def least (a b : Value) : Called :=
  match a, b with
  | .int x, .int y => .value (.int (if x ≤ y then x else y))
  | .char x, .char y => .value (.char (if x ≤ y then x else y))
  | .text x, .text y => .value (.text (if x ≤ y then x else y))
  | a, b => do
    let x ← float? a
    let y ← float? b
    Called.value (.float (if x ≤ y then x else y))

/-- The greater of two values that compare. -/
def greatest (a b : Value) : Called :=
  match a, b with
  | .int x, .int y => .value (.int (if x ≥ y then x else y))
  | .char x, .char y => .value (.char (if x ≥ y then x else y))
  | .text x, .text y => .value (.text (if x ≥ y then x else y))
  | a, b => do
    let x ← float? a
    let y ← float? b
    Called.value (.float (if x ≥ y then x else y))

/-- The sign of a number as an integer. -/
def signOf (x : Float) : Except Trouble Answer :=
  if x.isNaN then .error (.arithmetic "Sign of NaN is undefined")
  else .ok (.pure (.int (if x == 0 then 0 else if x < 0 then -1 else 1)))

/-! ## 3. Analysis -/

def pi : Float := 3.14159265358979323846

def euler : Float := 2.71828182845904523536

/-- An angle in degrees, given in radians. -/
def degrees (x : Float) : Float := x * (180 / pi)

/-- An angle in radians, given in degrees. -/
def radians (x : Float) : Float := x * (pi / 180)

/-- Functions of one float. -/
def analytic? : String → Option (Float → Float)
  | "sqrt" => some Float.sqrt
  | "exp" => some Float.exp
  | "ln" => some Float.log
  | "log" => some Float.log10
  | "sin" => some Float.sin
  | "cos" => some Float.cos
  | "tan" => some Float.tan
  | "asin" => some Float.asin
  | "acos" => some Float.acos
  | "atan" => some Float.atan
  | "sinh" => some Float.sinh
  | "cosh" => some Float.cosh
  | "tanh" => some Float.tanh
  | "asinh" => some Float.asinh
  | "acosh" => some Float.acosh
  | "atanh" => some Float.atanh
  | "to_degrees" => some degrees
  | "to_radians" => some radians
  | _ => none

/-- Functions on numbers. -/
def numberFunction (name : String) (args : List Value) : Called :=
  match name, args with
  | "to_float", [.int n] => .value (.float (Float.ofInt n))
  | "to_int", [.int n] => .value (.int n)
  | "to_int", [.float x] => some (truncated x)
  | "to_int", [.char c] => .value (.int c.toNat)
  | "abs", [.int n] => some ((checked n.natAbs s!"Negation overflow: -{n}").map .pure)
  | "abs", [.float x] => .value (.float x.abs)
  | "sign", [.int n] => .value (.int n.sign)
  | "sign", [.float x] => some (signOf x)
  | "min", [a, b] => least a b
  | "max", [a, b] => greatest a b
  | "parse_int", [.text s] => some (readInteger 10 s)
  | "parse_int", [.text s, .int base] => some (readInteger base s)
  | "parse_float", [.text s] => some (readFloat s)
  | "to_hex", [.int n] => .value (bitText 16 n)
  | "to_octal", [.int n] => .value (bitText 8 n)
  | "to_binary", [.int n] => .value (bitText 2 n)
  | "PI", [] => .value (.float pi)
  | "E", [] => .value (.float euler)
  | "atan", [.float x, .float y] => .value (.float (Float.atan2 x y))
  | "log", [.float x, .float base] => .value (.float (x.log / base.log))
  | name, [.float x] => (analytic? name).bind fun f => Called.value (.float (f x))
  | _, _ => none

end ScriptHost.Script
