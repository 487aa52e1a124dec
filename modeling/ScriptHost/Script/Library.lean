import ScriptHost.Script.Library.Host
import ScriptHost.Script.Library.Sequence
import ScriptHost.Script.Library.Text

/-!
# Library — functions and properties that scripts find ready

The functions of all families, and those on values of any type.  What deals with single bits, blobs, time stamps,
tags and JSON texts is left out: a call of it finds no function.
-/

namespace ScriptHost.Script

open Text (Position)

/-! ## 1. Properties -/

/-- The float without its fraction. -/
def wholePart (x : Float) : Float := if x < 0 then x.ceil else x.floor

/-- What scripts ask of a value by a name alone, be it as a property or as a function. -/
def trait? (name : String) : Value → Option Value
  | .int n =>
    match name with
    | "is_zero" => some (.bool (n == 0))
    | "is_odd" => some (.bool (n % 2 == 1))
    | "is_even" => some (.bool (n % 2 == 0))
    | _ => none
  | .float x =>
    match name with
    | "is_zero" => some (.bool (x == 0))
    | "floor" => some (.float x.floor)
    | "ceiling" => some (.float x.ceil)
    | "round" => some (.float x.round)
    | "int" => some (.float (wholePart x))
    | "fraction" => some (.float (x - wholePart x))
    | "is_nan" => some (.bool x.isNaN)
    | "is_finite" => some (.bool x.isFinite)
    | "is_infinite" => some (.bool x.isInf)
    | _ => none
  | .text s =>
    match name with
    | "len" => some (.int s.length)
    | "is_empty" => some (.bool s.isEmpty)
    | "bytes" => some (.int s.utf8ByteSize)
    | _ => none
  | .array items =>
    match name with
    | "len" => some (.int items.length)
    | "is_empty" => some (.bool items.isEmpty)
    | _ => none
  | .range a b closed =>
    match name with
    | "start" => some (.int a)
    | "end" => some (.int b)
    | "is_inclusive" => some (.bool closed)
    | "is_exclusive" => some (.bool !closed)
    | "is_empty" => some (.bool (if closed then b < a else b ≤ a))
    | _ => none
  | .pointer f _ =>
    match name with
    | "name" => some (.text f)
    | "is_anonymous" => some (.bool (f.startsWith "anon$"))
    | _ => none
  | _ => none

/-- The value of a property that is no entry of a map. -/
def property? (name : String) : Value → Option Value
  | .vector v => (v.axis? name).bind fun i => v[i]?.map fun x => .float x.toFloat
  | .context c =>
    match name with
    | "entity" => some (.int c.entity.signedBits)
    | "type_name" => some (.text c.typeName)
    | _ => none
  | v => trait? name v

/-- The target with a property set that is no entry of a map. -/
def setProperty? (name : String) (new : Value) : Value → Option Value
  | .vector v =>
    match new with
    | .float x => (v.axis? name).map fun i => .vector (List.set v i x.toFloat32)
    | _ => none
  | _ => none

/-! ## 2. Functions of every script -/

/-- Functions on values of any type. -/
def generalFunction (name : String) (args : List Value) (p : Position) : Called :=
  match name, args with
  | "to_string", [v] => .value (.text v.printed)
  | "to_debug", [v] => .value (.text v.inspected)
  | "type_of", [v] => .value (.text v.typeName)
  | "print", [] => some (.ok (.log "[print] "))
  | "print", [v] => some (.ok (.log s!"[print] {v.printed}"))
  | "debug", [] => some (.ok (.log s!"[debug] script @ {p.line}:{p.column}: "))
  | "debug", [v] => some (.ok (.log s!"[debug] script @ {p.line}:{p.column}: {v.inspected}"))
  | "range", [.int a, .int b] => .value (.range a b false)
  | "contains", [.range a b closed, .int n] =>
    .value (.bool (a ≤ n && (if closed then n ≤ b else n < b)))
  | name, [v] => (trait? name v).map fun w => .ok (.pure w)
  | _, _ => none

/-- The functions that may change the value in front of them, and so are refused to a constant. -/
def mutators : List String := [
  "append", "chop", "clear", "crop", "dedup", "drain", "fill_with", "for_each", "insert", "make_lower",
  "make_upper", "mixin", "pad", "pop", "push", "remove", "replace", "retain", "reverse", "set", "shift", "sort",
  "splice", "trim", "truncate"]

/-- Whether a library function may change a value. -/
def mayChange (name : String) : Value → Bool
  | .array _ => mutators.contains name || name == "split"
  | _ => mutators.contains name

/-- Calls a library function from the place `p`. -/
def callLibrary (name : String) (args : List Value) (p : Position) : Called :=
  hostFunction name args <|> numberFunction name args <|> textFunction name args <|>
    arrayFunction name args <|> mapFunction name args <|> generalFunction name args p

end ScriptHost.Script
