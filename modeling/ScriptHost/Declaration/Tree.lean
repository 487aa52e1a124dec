import ScriptHost.Declaration.Body
import ScriptHost.Field.Kind

/-!
# Tree — what a module declares
-/

namespace ScriptHost.Declaration

open Text (Position)

/-- The value after `=` in a field declaration. -/
inductive Literal where
  | int (value : Int)
  | float (value : Float)
  | bool (value : Bool)
  | text (value : String)
  | vector (components : List Float)
  | array (items : List Literal)
  | map (entries : List (String × Literal))
deriving Inhabited

/-- What a message calls a literal. -/
def Literal.describe : Literal → String
  | int _ => "integer"
  | float _ => "float"
  | bool _ => "bool"
  | text _ => "string"
  | vector components => s!"vec{components.length}"
  | array _ => "array"
  | map _ => "map"

/-- A field of a type; a public one is open to inspection. -/
structure FieldDecl where
  name : String
  kind : Field.Kind
  isPublic : Bool
  default : Option Literal
  position : Position
deriving Inhabited

/-- A free function or a method. -/
structure FnDecl where
  name : String
  params : List String
  body : Body
  position : Position
deriving Inhabited

/-- A type with the base it extends. -/
structure TypeDecl where
  name : String
  base : Option (String × Position)
  isAbstract : Bool
  fields : List FieldDecl
  methods : List FnDecl
  position : Position
deriving Inhabited

structure UseDecl where
  module : String
  position : Position
deriving DecidableEq, Inhabited

/-- The declarations of one file, each sort in source order. -/
structure Tree where
  uses : List UseDecl
  functions : List FnDecl
  types : List TypeDecl
deriving Inhabited

/-- The bodies of a module: free functions first, then methods type by type. -/
def Tree.bodies (t : Tree) : List Body :=
  t.functions.map (·.body) ++ t.types.flatMap fun type => type.methods.map (·.body)

end ScriptHost.Declaration
