import ScriptHost.Field.Kind
import ScriptHost.Json.Record
import ScriptHost.Script.Value

/-!
# Value — what an inspector reads from a field and writes to it

A field value has a kind, and it goes over to a script value of that kind and back.  Whole numbers
widen to floats; every other kind has to match exactly.
-/

namespace ScriptHost.Field

/-- A value of a kind that an inspector can edit; a vector has two to four components. -/
inductive Value where
  | int (value : Int)
  | float (value : Float)
  | bool (value : Bool)
  | text (value : String)
  | vector2 (x y : Float32)
  | vector3 (x y z : Float32)
  | vector4 (x y z w : Float32)
deriving DecidableEq, Inhabited

/-- The value that a field of a kind starts with. -/
def Kind.zero : Kind → Script.Value
  | int => .int 0
  | float => .float 0
  | bool => .bool false
  | text => .text ""
  | vec2 => .vector (Vector.zero 2)
  | vec3 => .vector (Vector.zero 3)
  | vec4 => .vector (Vector.zero 4)
  | array => .array []
  | map => .map []

namespace Value

def kind : Value → Kind
  | int _ => .int
  | float _ => .float
  | bool _ => .bool
  | text _ => .text
  | vector2 .. => .vec2
  | vector3 .. => .vec3
  | vector4 .. => .vec4

/-- The value as one of the given kind. -/
def coerce? (v : Value) (k : Kind) : Option Value :=
  match v, k with
  | int n, .float => some (float (Float.ofInt n))
  | v, k => if v.kind = k then some v else none

def toScript : Value → Script.Value
  | int n => .int n
  | float x => .float x
  | bool b => .bool b
  | text s => .text s
  | vector2 x y => .vector [x, y]
  | vector3 x y z => .vector [x, y, z]
  | vector4 x y z w => .vector [x, y, z, w]

/-- What a script value is worth as a field of the given kind. -/
def ofScript? (k : Kind) (v : Script.Value) : Option Value :=
  match k, v with
  | .int, .int n => some (int n)
  | .float, .float x => some (float x)
  | .float, .int n => some (float (Float.ofInt n))
  | .bool, .bool b => some (bool b)
  | .text, .text s => some (text s)
  | .vec2, .vector [x, y] => some (vector2 x y)
  | .vec3, .vector [x, y, z] => some (vector3 x y z)
  | .vec4, .vector [x, y, z, w] => some (vector4 x y z w)
  | _, _ => none

theorem kind_of_coerce? {v w : Value} {k : Kind} (h : v.coerce? k = some w) : w.kind = k := by
  cases v <;> cases k <;> simp_all [coerce?, kind] <;> (subst h; rfl)

theorem kind_of_ofScript? {k : Kind} {v : Script.Value} {w : Value} (h : ofScript? k v = some w) :
    w.kind = k := by
  unfold ofScript? at h
  split at h <;> simp_all <;> (subst h; rfl)

theorem ofScript?_toScript (v : Value) : ofScript? v.kind v.toScript = some v := by
  cases v <;> rfl

/-! ## Written forms -/

/-- A vector's component in a message. -/
def component (x : Float32) : String := Decimal.plain.write (Decimal.ofFloat32 x)

def describe : Value → String
  | int n => toString n
  | float x => Decimal.plain.write (Decimal.ofFloat x)
  | bool b => toString b
  | text s => Text.quoted s
  | vector2 x y => s!"vec2({component x}, {component y})"
  | vector3 x y z => s!"vec3({component x}, {component y}, {component z})"
  | vector4 x y z w => s!"vec4({component x}, {component y}, {component z}, {component w})"

/-- The components of a vector, and nothing of another value. -/
def components : Value → List Float32
  | vector2 x y => [x, y]
  | vector3 x y z => [x, y, z]
  | vector4 x y z w => [x, y, z, w]
  | _ => []

/-- The value as structured text, behind the tag of its kind. -/
def toJson (v : Value) : Json :=
  let content := match v with
    | int n => Json.ofInt n
    | float x => .ofFloat x
    | bool b => .bool b
    | text s => .string s
    | v => .ofList Json.ofFloat32 v.components
  .object [("kind", .string v.kind.tag), ("value", content)]

/-- The vector of so many components. -/
def ofComponents? : List Float32 → Option Value
  | [x, y] => some (vector2 x y)
  | [x, y, z] => some (vector3 x y z)
  | [x, y, z, w] => some (vector4 x y z w)
  | _ => none

/-- Reads a value of the given kind. -/
def ofContent? (k : Kind) (j : Json) : Option Value :=
  match k with
  | .int => (j.int? (-(1 <<< 63)) (1 <<< 63 - 1)).map int
  | .float => j.float?.map float
  | .bool => j.bool?.map bool
  | .text => j.string?.map text
  | .array | .map => none
  | k => do
    let v ← ofComponents? (← Json.listOf Json.float32? j)
    if v.kind = k then some v else none

/-- Reads a tagged value. -/
def ofJson? (j : Json) : Option Value := do
  let r ← j.record? ["kind", "value"]
  let k ← r.required 0 fun t => t.word?.bind Kind.ofTag?
  r.required 1 (ofContent? k)

end Value

end ScriptHost.Field
