import ScriptHost.Decimal.Binary
import ScriptHost.Script.Failure
import ScriptHost.Script.Tree

/-!
# Arithmetic — operators on values

Integer arithmetic is checked, integers and floats mix freely, and values of different types differ.
An operator that nothing is known about is answered with `none`.
-/

namespace ScriptHost.Script

/-! ## 1. Integers -/

/-- The integer `n` if it fits, and else the trouble described by `what`. -/
def checked (n : Int) (what : String) : Except Trouble Value :=
  if Value.fits n then .ok (.int n) else .error (.arithmetic what)

/-- The integer whose 64 bits are those of `n`. -/
def wrapped (n : Int) : Value := .int (Int.bmod n (1 <<< 64))

/-- Shifts to the left, or to the right by a negative amount. -/
def shiftLeft (a b : Int) : Value :=
  if 0 ≤ b then if b < 64 then wrapped (a <<< b.toNat) else .int 0
  else if b.natAbs < 64 then .int (a >>> b.natAbs) else .int (if a < 0 then -1 else 0)

/-- Combines the bits of two integers. -/
def bitwise (f : Nat → Nat → Nat) (a b : Int) : Value :=
  wrapped (f (a % (1 <<< 64)).toNat (b % (1 <<< 64)).toNat)

/-- An operator on two integers. -/
def Operator.onInts (op : Operator) (a b : Int) : Except Trouble Value :=
  match op with
  | add => checked (a + b) s!"Addition overflow: {a} + {b}"
  | sub => checked (a - b) s!"Subtraction overflow: {a} - {b}"
  | mul => checked (a * b) s!"Multiplication overflow: {a} * {b}"
  | div =>
    if b == 0 then .error (.arithmetic s!"Division by zero: {a} / {b}")
    else checked (a.tdiv b) s!"Division overflow: {a} / {b}"
  | rem =>
    if b == 0 || !Value.fits (a.tdiv b) then
      .error (.arithmetic s!"Modulo division by zero or overflow: {a} % {b}")
    else .ok (.int (a.tmod b))
  | pow =>
    if 1 <<< 32 ≤ b then .error (.arithmetic s!"Exponential overflow: {a} ** {b}")
    else if b < 0 then .error (.arithmetic s!"Integer raised to a negative power: {a} ** {b}")
    else if a == 0 || a == 1 || a == -1 then
      .ok (.int (if b == 0 then 1 else if a == -1 && b % 2 == 0 then 1 else a))
    else if 64 ≤ b then .error (.arithmetic s!"Exponential overflow: {a} ** {b}")
    else checked (Int.pow a b.toNat) s!"Exponential overflow: {a} ** {b}"
  | shl => .ok (shiftLeft a b)
  | shr => .ok (shiftLeft a (-b))
  | conj => .ok (bitwise Nat.land a b)
  | disj => .ok (bitwise Nat.lor a b)
  | excl => .ok (bitwise Nat.xor a b)
  | eq => .ok (.bool (a == b))
  | ne => .ok (.bool (a != b))
  | lt => .ok (.bool (a < b))
  | le => .ok (.bool (a ≤ b))
  | gt => .ok (.bool (b < a))
  | ge => .ok (.bool (b ≤ a))
  | range => .ok (.range a b false)
  | closedRange => .ok (.range a b true)

/-! ## 2. Floats -/

/-- The exact number `mantissa * 2 ^ exponent` as a float; the mantissa has at most 53 significant
    bits. -/
def floatOf (mantissa : Nat) (exponent : Int) : Float :=
  let extra := Nat.log2 mantissa - 53
  (Float.ofNat (mantissa >>> extra)).scaleB (exponent + extra)

/-- The exact remainder of a division that is rounded toward zero. -/
def remainder (x y : Float) : Float :=
  match Decimal.ofFloat x, Decimal.ofFloat y with
  | .finite negative a, .finite _ b =>
    if b.mantissa == 0 then 0 / 0
    else
      let e := min a.exponent b.exponent
      let m := a.mantissa <<< (a.exponent - e).toNat % (b.mantissa <<< (b.exponent - e).toNat)
      let r := floatOf m e
      if negative then -r else r
  | .finite .., .infinite _ => x
  | _, _ => 0 / 0

/-- An operator on two floats. -/
def Operator.onFloats (op : Operator) (a b : Float) : Option Value :=
  match op with
  | add => some (.float (a + b))
  | sub => some (.float (a - b))
  | mul => some (.float (a * b))
  | div => some (.float (a / b))
  | rem => some (.float (remainder a b))
  | pow => some (.float (a ^ b))
  | eq => some (.bool (a == b))
  | ne => some (.bool (a != b))
  | lt => some (.bool (a < b))
  | le => some (.bool (a ≤ b))
  | gt => some (.bool (b < a))
  | ge => some (.bool (b ≤ a))
  | _ => none

/-! ## 3. Other values -/

/-- A comparison of two things that are ordered. -/
def Operator.compare {α : Type} [BEq α] [LT α] [DecidableLT α] (op : Operator) (a b : α) :
    Option Value :=
  match op with
  | eq => some (.bool (a == b))
  | ne => some (.bool (a != b))
  | lt => some (.bool (a < b))
  | le => some (.bool (!(b < a)))
  | gt => some (.bool (b < a))
  | ge => some (.bool (!(a < b)))
  | _ => none

/-- An operator on two texts. -/
def Operator.onTexts (op : Operator) (a b : String) : Option Value :=
  match op with
  | add => some (.text (a ++ b))
  | sub => some (.text (a.replace b ""))
  | op => op.compare a b

/-- An operator on a character and a text; nothing is taken away from a character. -/
def Operator.onCharText (op : Operator) (c : Char) (s : String) : Option Value :=
  match op with
  | sub => none
  | op => op.onTexts (String.singleton c) s

/-- An operator on two truth values. -/
def Operator.onBools (op : Operator) (a b : Bool) : Option Value :=
  match op with
  | conj => some (.bool (a && b))
  | disj => some (.bool (a || b))
  | excl => some (.bool (a != b))
  | op => op.compare a.toNat b.toNat

/-- An operator on two units, which are equal but not ordered. -/
def Operator.onUnits : Operator → Option Value
  | eq => some (.bool true)
  | ne | lt | le | gt | ge => some (.bool false)
  | _ => none

/-- An operator on two vectors of one size. -/
def Operator.onVectors (op : Operator) (v w : Vector) : Option Value :=
  match op with
  | add => some (.vector (v.add w))
  | sub => some (.vector (v.sub w))
  | eq => some (.bool (v.equal w))
  | _ => none

/-- The answer to a comparison of values of different types. -/
def Operator.acrossTypes : Operator → Option Value
  | ne => some (.bool true)
  | eq | lt | le | gt | ge => some (.bool false)
  | _ => none

/-- The signature of a call, for a message. -/
def signature (function : String) (args : List Value) : String :=
  function ++ " (" ++ String.intercalate ", " (args.map Value.argumentName) ++ ")"

/-- Nothing is known about the operator on these operands. -/
def Operator.unknown (op : Operator) (a b : Value) : Except Trouble Value :=
  .error (.functionNotFound (signature op.sign [a, b]))

mutual

/-- Whether two values are equal; comparing values of one type that has no equality is an error. -/
def equals : Value → Value → Except Trouble Bool
  | .array as, .array bs => equalItems as bs
  | .map as, .map bs => equalEntries as bs
  | .unit, .unit => .ok true
  | .bool a, .bool b => .ok (a == b)
  | .int a, .int b => .ok (a == b)
  | .float a, .float b => .ok (a == b)
  | .int a, .float b => .ok (Float.ofInt a == b)
  | .float a, .int b => .ok (a == Float.ofInt b)
  | .char a, .char b => .ok (a == b)
  | .text a, .text b => .ok (a == b)
  | .char a, .text b => .ok (String.singleton a == b)
  | .text a, .char b => .ok (a == String.singleton b)
  | .vector a, .vector b => .ok (a.equal b)
  | .range a b c, .range d e f => .ok (a == d && b == e && c == f)
  | .context a, .context b =>
    .error (.functionNotFound (signature "==" [.context a, .context b]))
  | .pointer a i, .pointer b j =>
    .error (.functionNotFound (signature "==" [.pointer a i, .pointer b j]))
  | _, _ => .ok false

def equalItems : List Value → List Value → Except Trouble Bool
  | [], [] => .ok true
  | a :: as, b :: bs => do if ← equals a b then equalItems as bs else .ok false
  | _, _ => .ok false

def equalEntries : List (String × Value) → List (String × Value) → Except Trouble Bool
  | [], [] => .ok true
  | (k, a) :: as, (l, b) :: bs => do
    if k != l then .ok false else if ← equals a b then equalEntries as bs else .ok false
  | _, _ => .ok false

end

/-- Equality or its opposite. -/
def Operator.byEquality (op : Operator) (a b : Value) : Except Trouble Value :=
  match op with
  | eq => return .bool (← equals a b)
  | ne => return .bool (!(← equals a b))
  | op => op.unknown a b

/-- Entries of the second map replace those of the first. -/
def mixin (as bs : Entries Value) : Entries Value := bs.foldl (fun m e => Entries.insert e.1 e.2 m) as

/-- An operator on two values. -/
def Operator.apply (op : Operator) (a b : Value) : Except Trouble Value :=
  let orUnknown : Option Value → Except Trouble Value
    | some v => .ok v
    | none => op.unknown a b
  match a, b with
  | .int x, .int y => op.onInts x y
  | .float x, .float y => orUnknown (op.onFloats x y)
  | .int x, .float y => orUnknown (op.onFloats (Float.ofInt x) y)
  | .float x, .int y => orUnknown (op.onFloats x (Float.ofInt y))
  | .bool x, .bool y => orUnknown (op.onBools x y)
  | .char x, .char y => orUnknown (op.onCharText x (String.singleton y))
  | .text x, .text y => orUnknown (op.onTexts x y)
  | .char x, .text y => orUnknown (op.onCharText x y)
  | .text x, .char y => orUnknown (op.onTexts x (String.singleton y))
  | .unit, .unit => orUnknown op.onUnits
  | .vector v, .vector w =>
    if List.length v == List.length w then orUnknown (op.onVectors v w)
    else orUnknown op.acrossTypes
  | .vector v, .float s =>
    if op == .mul then .ok (.vector (v.scale s.toFloat32)) else orUnknown op.acrossTypes
  | .array as, .array bs =>
    if op == .add then .ok (.array (as ++ bs)) else op.byEquality a b
  | .map as, .map bs => if op == .add then .ok (.map (mixin as bs)) else op.byEquality a b
  | .range _ _ c, .range _ _ d =>
    if c == d then op.byEquality a b
    else if op == .ne then .ok (.bool true)
    else op.unknown a b
  | .context _, .context _ | .pointer .., .pointer .. => op.unknown a b
  | .text s, v =>
    if op == .add then .ok (.text (s ++ v.printed)) else orUnknown op.acrossTypes
  | v, .text s =>
    if op == .add then .ok (.text (v.printed ++ s)) else orUnknown op.acrossTypes
  | _, _ => orUnknown op.acrossTypes

/-- Whether the operator calls a function on these operands; on all others it is computed at once. -/
def Operator.isCalled (op : Operator) : Value → Value → Bool
  | .array _, .array _ | .map _, .map _ | .context _, .context _ | .pointer .., .pointer .. => true
  | .vector v, .vector w => List.length v == List.length w
  | .vector _, .float _ => op == .mul
  | .text _, .text _ | .text _, .char _ | .char _, .text _ | .text _, .unit | .unit, .text _ => false
  | .text _, _ | _, .text _ => op == .add
  | _, _ => false

/-- An operator combined with an assignment; an array takes a value that is no array as its next item. -/
def Operator.combine (op : Operator) (old new : Value) : Except Trouble Value :=
  match op, old, new with
  | .add, .array _, .array _ => op.apply old new
  | .add, .array as, v => .ok (.array (as ++ [v]))
  | op, old, new => op.apply old new

/-- The functions that an operator combined with an assignment calls on these operands: none where it is
    computed at once, one that changes the old value, or such a one in vain and then the operator's own. -/
def Operator.assigningCalls (op : Operator) (old new : Value) : Nat :=
  match old, new with
  | .int _, .int _ | .float _, .int _ | .float _, .float _ | .bool _, .bool _ | .array _, _ => 0
  | .char _, .char _ | .char _, .text _ => if op == .add then 0 else 2
  | .text _, .text _ | .text _, .char _ => if op == .add || op == .sub then 0 else 2
  | .text _, _ | .map _, .map _ => if op == .add then 1 else 2
  | _, _ => 2

/-- A sign in front of a value. -/
def applySign (sign : String) (v : Value) : Except Trouble Value :=
  match sign, v with
  | "!", .bool b => .ok (.bool (!b))
  | "-", .int n => checked (-n) "integer overflow"
  | "-", .float x => .ok (.float (-x))
  | "+", .int n => .ok (.int n)
  | "+", .float x => .ok (.float x)
  | sign, v => .error (.functionNotFound (signature sign [v]))

end ScriptHost.Script
