import ScriptHost.Corpus.Ancestry
import ScriptHost.Field.Value

/-!
# Field — the fields of a type, its own and those it inherits

A field starts with its declared default, or else with the zero of its kind.  A type has the fields of
its chain, those of the root first; a name that is taken is not taken again.
-/

namespace ScriptHost.Corpus

open Declaration (Literal FieldDecl)
open Script (Value Entries)

/-! ## 1. Defaults -/

mutual

/-- A literal as a script value. -/
def literalValue : Literal → Value
  | .int n => .int n
  | .float x => .float x
  | .bool b => .bool b
  | .text s => .text s
  | .vector xs => if 2 ≤ xs.length && xs.length ≤ 4 then .vector (Vector.ofFloats xs) else .unit
  | .array items => .array (literalValues items)
  | .map entries => .map (Entries.ofList (literalEntries entries))

def literalValues : List Literal → List Value
  | [] => []
  | l :: ls => literalValue l :: literalValues ls

def literalEntries : List (String × Literal) → List (String × Value)
  | [] => []
  | (k, l) :: es => (k, literalValue l) :: literalEntries es

end

/-- A literal as the default of a field; a whole number may stand for a float. -/
def defaultValue? (kind : Field.Kind) (l : Literal) : Option Value :=
  match kind, l with
  | .float, .int n => some (.float (Float.ofInt n))
  | .int, .int _ | .float, .float _ | .bool, .bool _ | .text, .text _ | .array, .array _
  | .map, .map _ => some (literalValue l)
  | .vec2, .vector [_, _] | .vec3, .vector [_, _, _] | .vec4, .vector [_, _, _, _] =>
    some (literalValue l)
  | _, _ => none

/-! ## 2. Own fields -/

/-- A field of a compiled type and the name of the type that declares it. -/
structure FieldSpec where
  name : String
  kind : Field.Kind
  isPublic : Bool
  default : Value
  declaredIn : String
deriving Inhabited

namespace FieldSpec

/-- A declared field of a type. -/
def ofDecl (type : String) (f : FieldDecl) : FieldSpec :=
  let written := f.default.bind (defaultValue? f.kind)
  ⟨f.name, f.kind, f.isPublic, written.getD f.kind.zero, type⟩

/-- The finding about a default of another kind. -/
def mismatch? (n : Node) (f : FieldDecl) : Option Diagnostic := do
  let l ← f.default
  if (defaultValue? f.kind l).isSome then none
  else some ⟨.defaultKind f.name l.describe f.kind, .atPosition n.path f.position⟩

/-- The fields that a type declares itself, each name once, with the findings about them. -/
def own (n : Node) : List FieldSpec × List Diagnostic :=
  n.decl.fields.foldl (fun (specs, found) f =>
    if specs.any (·.name == f.name) then
      (specs, found ++ [⟨.duplicateField f.name n.name, .atPosition n.path f.position⟩])
    else (specs ++ [ofDecl n.name f], found ++ (mismatch? n f).toList)) ([], [])

/-! ## 3. Inherited fields -/

/-- Adds the fields whose names are free. -/
def extend (fields more : List FieldSpec) : List FieldSpec :=
  more.foldl (fun fs f => if fs.any (·.name == f.name) then fs else fs ++ [f]) fields

/-- The fields of a chain of types, given the own fields of each. -/
def ofChain (own : Nat → List FieldSpec) (chain : List Nat) : List FieldSpec :=
  chain.foldl (fun fs i => extend fs (own i)) []

/-- The findings about own fields of a type whose names are inherited ones. -/
def shadowed (n : Node) (inherited own : List FieldSpec) : List Diagnostic :=
  own.filterMap fun f =>
    (inherited.find? (·.name == f.name)).map fun taken =>
      let place := (n.decl.fields.find? (·.name == f.name)).map fun d =>
        Location.atPosition n.path d.position
      ⟨.shadowedField f.name taken.declaredIn, place.getD n.location⟩

end FieldSpec

end ScriptHost.Corpus
