import ScriptHost.Declaration.Fault
import ScriptHost.Field.Kind
import ScriptHost.Hook
import ScriptHost.HostModule

/-!
# Diagnostic — what the compiler has to say about a corpus

A finding is a cause; its code, its severity and its wording follow from it.  A corpus passes when no
finding about it is an error.
-/

namespace ScriptHost

/-- A place in a file. -/
structure Location where
  path : String
  line : Nat
  column : Nat
deriving DecidableEq, Inhabited

namespace Location

def atPosition (path : String) (p : Text.Position) : Location := ⟨path, p.line, p.column⟩

def fileStart (path : String) : Location := ⟨path, 1, 1⟩

def describe (l : Location) : String := s!"{l.path}:{l.line}:{l.column}"

end Location

inductive Severity where
  | info
  | warning
  | error
deriving DecidableEq, Inhabited

def Severity.name : Severity → String
  | info => "info"
  | warning => "warning"
  | error => "error"

/-! ## 1. Codes -/

/-- The sort of a finding. -/
inductive Code where
  | sourceVanished
  | sourceUnreadable
  | declarationSyntax
  | bodySyntax
  | unknownModule
  | undeclaredModule
  | unusedModule
  | unknownBaseType
  | inheritanceCycle
  | ambiguousBaseType
  | shadowedField
  | reservedTypeName
  | duplicateMethod
  | duplicateField
  | defaultKindMismatch
  | hookSignature
  | noHooks
  | notABehaviour
  | emitFailure
  | unitSummary
deriving DecidableEq, Inhabited

namespace Code

def all : List Code :=
  [sourceVanished, sourceUnreadable, declarationSyntax, bodySyntax, unknownModule, undeclaredModule,
    unusedModule, unknownBaseType, inheritanceCycle, ambiguousBaseType, shadowedField,
    reservedTypeName, duplicateMethod, duplicateField, defaultKindMismatch, hookSignature, noHooks,
    notABehaviour, emitFailure, unitSummary]

/-- The code in messages and in structured text. -/
def idAndName : Code → String × String
  | sourceVanished => ("KS0001", "SourceVanished")
  | sourceUnreadable => ("KS0002", "SourceUnreadable")
  | declarationSyntax => ("KS0101", "DeclarationSyntax")
  | bodySyntax => ("KS0102", "BodySyntax")
  | unknownModule => ("KS0201", "UnknownModule")
  | undeclaredModule => ("KS0202", "UndeclaredModule")
  | unusedModule => ("KS0203", "UnusedModule")
  | unknownBaseType => ("KS0301", "UnknownBaseType")
  | inheritanceCycle => ("KS0302", "InheritanceCycle")
  | ambiguousBaseType => ("KS0303", "AmbiguousBaseType")
  | shadowedField => ("KS0304", "ShadowedField")
  | reservedTypeName => ("KS0305", "ReservedTypeName")
  | duplicateMethod => ("KS0306", "DuplicateMethod")
  | duplicateField => ("KS0307", "DuplicateField")
  | defaultKindMismatch => ("KS0308", "DefaultKindMismatch")
  | hookSignature => ("KS0401", "HookSignature")
  | noHooks => ("KS0402", "NoHooks")
  | notABehaviour => ("KS0403", "NotABehaviour")
  | emitFailure => ("KS0501", "EmitFailure")
  | unitSummary => ("KS0900", "UnitSummary")

def id (c : Code) : String := c.idAndName.1

def name (c : Code) : String := c.idAndName.2

def severity : Code → Severity
  | sourceVanished | notABehaviour | unitSummary => .info
  | unusedModule | noHooks | ambiguousBaseType => .warning
  | _ => .error

end Code

/-! ## 2. Summaries -/

/-- How many findings of each severity there are. -/
structure Tally where
  errors : Nat
  warnings : Nat
  infos : Nat
deriving DecidableEq, Inhabited

def Tally.describe (t : Tally) : String :=
  s!"{t.errors} error(s), {t.warnings} warning(s), {t.infos} info"

/-! ## 3. Findings -/

/-- The built-in base that every behaviour type derives from. -/
def behaviourBase : String := "Behaviour"

/-- What was found. -/
inductive Finding where
  | sourceVanished
  | sourceUnreadable (reason : String)
  | declarationSyntax (cause : Declaration.Cause)
  | bodySyntax (function complaint : String)
  | unknownModule (name : String)
  | undeclaredModule (name : String)
  | unusedModule (name : String)
  | unknownBase (base : String)
  | inheritanceCycle (names : List String)
  /-- `direct` says that the type itself names the ambiguous base. -/
  | ambiguousBase (direct : Bool) (base : String) (places : List Location) (type : String)
  | shadowedField (field owner : String)
  | reservedTypeName
  | duplicateFunction (name : String) (arity : Nat) (first : Location)
  | duplicateMethod (method type : String)
  | duplicateField (field type : String)
  | defaultKind (field found : String) (kind : Field.Kind)
  | hookSignature (hook : Hook) (found : Nat)
  | noHooks (type : String)
  | notABehaviour (type : String)
  /-- Paths that are no text cannot be written into a unit. -/
  | emitFailure
  | unitSummary (unit : String) (files types : Nat) (tally : Tally)
  /-- A remark from outside the compiler. -/
  | remark (code : Code) (message : String)
deriving DecidableEq, Inhabited

namespace Finding

def code : Finding → Code
  | sourceVanished => .sourceVanished
  | sourceUnreadable _ => .sourceUnreadable
  | declarationSyntax _ => .declarationSyntax
  | bodySyntax .. => .bodySyntax
  | unknownModule _ => .unknownModule
  | undeclaredModule _ => .undeclaredModule
  | unusedModule _ => .unusedModule
  | unknownBase _ => .unknownBaseType
  | inheritanceCycle _ => .inheritanceCycle
  | ambiguousBase .. => .ambiguousBaseType
  | shadowedField .. => .shadowedField
  | reservedTypeName => .reservedTypeName
  | duplicateFunction .. => .duplicateMethod
  | duplicateMethod .. => .duplicateMethod
  | duplicateField .. => .duplicateField
  | defaultKind .. => .defaultKindMismatch
  | hookSignature .. => .hookSignature
  | noHooks _ => .noHooks
  | notABehaviour _ => .notABehaviour
  | emitFailure => .emitFailure
  | unitSummary .. => .unitSummary
  | remark code _ => code

def message : Finding → String
  | sourceVanished => "file disappeared before it could be read; compiled as an empty module"
  | sourceUnreadable reason => s!"file could not be read: {reason}"
  | declarationSyntax cause => cause.message
  | bodySyntax function complaint => s!"in `{function}`: {complaint}"
  | unknownModule name => s!"unknown module `{name}`; available: {HostModule.available}"
  | undeclaredModule name => s!"module `{name}` is used without `use {name};`"
  | unusedModule name => s!"`use {name};` is never referenced"
  | unknownBase base => s!"unknown base type `{base}`"
  | inheritanceCycle names => "inheritance cycle: " ++ String.intercalate " -> " names
  | ambiguousBase direct base places type =>
    let role := if direct then "base type" else "ancestor"
    let listed := String.intercalate ", " (places.map Location.describe)
    s!"{role} `{base}` is declared more than once ({listed}); `{type}` is not registered"
  | shadowedField field owner => s!"field `{field}` shadows the one inherited from `{owner}`"
  | reservedTypeName => s!"`{behaviourBase}` is the built-in base type and cannot be redeclared"
  | duplicateFunction name arity first =>
    s!"function `{name}` with {arity} parameter(s) is already defined at {first.describe}"
  | duplicateMethod method type => s!"method `{method}` is defined twice in `{type}`"
  | duplicateField field type => s!"field `{field}` is declared twice in `{type}`"
  | defaultKind field found kind =>
    s!"default for `{field}` is a {found} but the field is declared {kind.keyword}"
  | hookSignature hook found =>
    s!"hook `{hook.name}` takes {hook.arity} parameter(s), found {found}; " ++
      s!"expected `{hook.signature}`"
  | noHooks type => s!"`{type}` defines no lifecycle hook and will never run"
  | notABehaviour type =>
    s!"`{type}` does not derive from `{behaviourBase}` and will not be registered"
  | emitFailure =>
    "failed to emit unit: encode unit image: path contains invalid UTF-8 characters"
  | unitSummary unit files types tally =>
    s!"unit {unit}: {files} file(s), {types} type(s), {tally.describe}"
  | remark _ message => message

end Finding

/-! ## 4. Diagnostics -/

/-- A finding and the place it is about. -/
structure Diagnostic where
  finding : Finding
  location : Location
deriving DecidableEq, Inhabited

namespace Diagnostic

def code (d : Diagnostic) : Code := d.finding.code

def severity (d : Diagnostic) : Severity := d.code.severity

def message (d : Diagnostic) : String := d.finding.message

def isError (d : Diagnostic) : Bool := d.severity == .error

def describe (d : Diagnostic) : String :=
  s!"{d.location.describe}: {d.severity.name}[{d.code.id}]: {d.message}"

/-- Nothing in the list is an error. -/
def passes (ds : List Diagnostic) : Bool := !ds.any isError

/-- How many of each severity a list holds. -/
def tally (ds : List Diagnostic) : Tally where
  errors := ds.countP fun d => d.severity == .error
  warnings := ds.countP fun d => d.severity == .warning
  infos := ds.countP fun d => d.severity == .info

theorem passes_append (ds es : List Diagnostic) : passes (ds ++ es) = (passes ds && passes es) := by
  simp [passes]

end Diagnostic

end ScriptHost
