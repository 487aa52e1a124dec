import ScriptHost.Json.Numeral

/-!
# Json — structured text as a value

Members of an object keep their order and their repetitions, numbers their digits: which repetition
counts and what a number is worth is for the reader of a record to say.
-/

namespace ScriptHost

/-- A JSON value.  `broken` is a string literal that does not spell characters, or an object with such
    a name. -/
inductive Json where
  | null
  | bool (value : Bool)
  | number (numeral : Json.Numeral)
  | string (text : String)
  | broken
  | array (items : List Json)
  | object (members : List (String × Json))
deriving Inhabited

namespace Json

def ofInt (n : Int) : Json := .number (Numeral.ofInt n)

def ofNat (n : Nat) : Json := ofInt n

/-- A double, or null where it has no digits. -/
def ofFloat (x : Float) : Json :=
  ((Numeral.ofReading? Numeral.double (Decimal.ofFloat x)).map Json.number).getD .null

/-- A single-precision number, or null where it has no digits. -/
def ofFloat32 (x : Float32) : Json :=
  ((Numeral.ofReading? Numeral.single (Decimal.ofFloat32 x)).map Json.number).getD .null

/-- Null for nothing. -/
def ofOption {α : Type} (f : α → Json) : Option α → Json
  | none => .null
  | some a => f a

/-- The items of a list in order. -/
def ofList {α : Type} (f : α → Json) (as : List α) : Json := .array (as.map f)

/-! ## Reading one value -/

def bool? : Json → Option Bool
  | .bool b => some b
  | _ => none

def string? : Json → Option String
  | .string s => some s
  | _ => none

def array? : Json → Option (List Json)
  | .array items => some items
  | _ => none

def isNull : Json → Bool
  | .null => true
  | _ => false

/-- A whole number from `low` to `high`. -/
def int? (low high : Int) : Json → Option Int
  | .number n => n.toInt? low high
  | _ => none

/-- A natural number below `bound`. -/
def nat? (bound : Nat) (j : Json) : Option Nat := (j.int? 0 (bound - 1)).map Int.toNat

def float? : Json → Option Float
  | .number n => n.toFloat?
  | _ => none

/-- A single-precision number; a whole one of 64 bits is rounded only once. -/
def float32? (j : Json) : Option Float32 :=
  match j.int? (-(1 <<< 63)) (1 <<< 64 - 1) with
  | some n =>
    let magnitude := n.natAbs.toUInt64.toFloat32
    some (if n < 0 then -magnitude else magnitude)
  | none => j.float?.map Float.toFloat32

/-- The first member of that name. -/
def get? (j : Json) (name : String) : Option Json :=
  match j with
  | .object members => (members.find? (·.1 == name)).map (·.2)
  | _ => none

end Json

end ScriptHost
