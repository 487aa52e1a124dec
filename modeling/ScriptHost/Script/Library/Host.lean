import ScriptHost.HostModule
import ScriptHost.Script.Library.Number

/-!
# Host — what the host adds to the library

Vectors, the context of a hook, and the modules that scripts may use.
-/

namespace ScriptHost.Script

/-! ## 1. Functions on the host's own types -/

/-- Functions on the host's own types. -/
def hostFunction (name : String) (args : List Value) : Called :=
  match name, args with
  | "vec2", [.float x, .float y] => .value (.vector (.ofFloats [x, y]))
  | "vec3", [.float x, .float y, .float z] => .value (.vector (.ofFloats [x, y, z]))
  | "vec4", [.float x, .float y, .float z, .float w] => .value (.vector (.ofFloats [x, y, z, w]))
  | "length", [.vector v] => .value (.float v.length.toFloat)
  | "log", [.context c, v] => some (.ok (.log s!"[{c.typeName}#{c.entity.index}] {v.logged}"))
  | _, _ => none

/-! ## 2. Functions of the host's modules -/

/-- The larger number; a NaN gives way. -/
def larger (a b : Float) : Float := if a.isNaN then b else if a < b then b else a

/-- The smaller number; a NaN gives way. -/
def smaller (a b : Float) : Float := if a.isNaN then b else if b < a then b else a

/-- A number from `low` up to and without `high`, picked by `noise` between zero and one. -/
def between (low high noise : Float) : Float :=
  if low >= high then low
  else
    let x := low + (high - low) * noise
    if x < high then x else low

/-- Functions of the module `math`. -/
def mathFunction (noise : Float) (name : String) (args : List Value) : Called :=
  match name, args with
  | "lerp", [.float a, .float b, .float t] => .value (.float (a + (b - a) * t))
  | "clamp", [.float x, .float low, .float high] => .value (.float (smaller (larger x low) high))
  | "deg_to_rad", [.float x] => .value (.float (radians x))
  | "rad_to_deg", [.float x] => .value (.float (degrees x))
  | "pi", [] => .value (.float pi)
  | "rand", [.float a, .float b] => .value (.float (between a b noise))
  | "length", [.vector v] =>
    if List.length v < 4 then .value (.float v.length.toFloat) else none
  | "normalize", [.vector v] => if List.length v < 4 then .value (.vector v.normalize) else none
  | "dot", [.vector v, .vector w] =>
    if List.length v < 4 && List.length v == List.length w then .value (.float (v.dot w).toFloat)
    else none
  | _, _ => none

/-- Calls a function of a host module. -/
def callModule (noise : Float) (module : HostModule) (name : String) (args : List Value) : Called :=
  match module, name, args with
  | .entity, "set_translation", [.context c, .vector [x, y]] =>
    .command c.entity (.setTranslation [x, y])
  | .entity, "set_rotation", [.context c, .float degrees] =>
    .command c.entity (.setRotation degrees.toFloat32)
  | .entity, "despawn", [.context c] => .command c.entity .despawn
  | .entity, "id", [.context c] => .value (.int c.entity.signedBits)
  | .physics, "set_velocity", [.context c, .vector [x, y]] => .command c.entity (.setVelocity [x, y])
  | .physics, "apply_impulse", [.context c, .vector [x, y]] =>
    .command c.entity (.applyImpulse [x, y])
  | .audio, "play", [.context c, .text clip] => .command c.entity (.playSound clip)
  | .input, "is_down", [.context c, .text key] => .value (.bool (c.held.contains key))
  | .math, name, args => mathFunction noise name args
  | _, _, _ => none

end ScriptHost.Script
