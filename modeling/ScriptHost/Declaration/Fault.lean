import ScriptHost.Declaration.Token

/-!
# Fault — what can be wrong with the declarations of a module
-/

namespace ScriptHost.Declaration

/-- The cause of a syntax error. -/
inductive Cause where
  | expected (what : String) (found : Token)
  | duplicateParameter (name : String)
  | unclosedBody
  | unclosedType (name : String)
  | unknownKind (word : String)
  | componentKind (found : String)
  | componentCount (arity found : Nat)
deriving DecidableEq, Inhabited

def Cause.message : Cause → String
  | expected what found => s!"expected {what}, found {found.describe}"
  | duplicateParameter name => s!"duplicate parameter `{name}`"
  | unclosedBody => "method body is missing its closing `\x7d`"
  | unclosedType name => s!"type `{name}` is missing its closing `\x7d`"
  | unknownKind word =>
    s!"unknown field kind `{word}` (expected int, float, bool, string, vec2, vec3, vec4, array or map)"
  | componentKind found => s!"vector components must be numbers, found {found}"
  | componentCount arity found => s!"vec{arity} takes {arity} components, found {found}"

/-- A syntax error and the place that it is reported at. -/
structure Fault where
  cause : Cause
  position : Text.Position
deriving DecidableEq, Inhabited

end ScriptHost.Declaration
