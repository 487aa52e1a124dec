import ScriptHost.Script.Fault
import ScriptHost.Script.Value

/-!
# Failure — how a running script goes wrong

A failure is a cause at a place; one that leaves a function is wrapped with the function's name.  The
two failures of exhausted limits are never caught, and no function of a script wraps them.
-/

namespace ScriptHost.Script

open Text (Position)

/-- Why a script failed. -/
inductive Trouble where
  | thrown (value : Value)
  | functionNotFound (signature : String)
  | unreadableProperty (name type : String)
  | unwritableProperty (name type valueType : String)
  | mismatch (found expected : String)
  | arrayBounds (length : Nat) (index : Int)
  | textBounds (length : Nat) (index : Int)
  | bitBounds (index : Int)
  /-- `valueType` is there where a value was to be put. -/
  | notIndexable (type keyType : String) (valueType : Option String)
  | notIterable
  | arithmetic (text : String)
  | variableNotFound (name : String)
  | moduleNotFound (name : String)
  | constantTarget (name : String)
  | constantMethod (name : String)
  | constantProperty (name : String)
  | unboundThis
  /-- A text that was to be run is no script. -/
  | unparsed (cause : Cause)
  | tooManyOperations
  | stackOverflow
deriving Inhabited

namespace Trouble

/-- A value of another type is wanted. -/
def unfit (v : Value) (expected : String) : Trouble := mismatch v.hostTypeName expected

/-- The text about an index outside a sequence of `length` things. -/
def boundsText (sort one many : String) (length : Nat) (index : Int) : String :=
  let held := match length with
    | 0 => s!"{sort.toLower} is empty"
    | 1 => s!"only 1 {one} in {sort.toLower}"
    | n => s!"only {n} {many} in {sort.toLower}"
  s!"{sort} index {index} out of bounds: {held}"

/-- What an indexer would have to take. -/
def indexing (type keyType : String) (valueType : Option String) : String :=
  s!"{type} [{keyType}]" ++ (valueType.map (" = " ++ ·)).getD ""

def message : Trouble → String
  | thrown .unit => "Runtime error"
  | thrown (.text "") => "Runtime error"
  | thrown v => s!"Runtime error: {v.logged}"
  | functionNotFound signature => s!"Function not found: {signature}"
  | unreadableProperty name type =>
    s!"Unknown property '{name}' - a getter is not registered for type '{type}'"
  | unwritableProperty name type valueType =>
    s!"No writable property '{name}' - a setter is not registered for type '{type}' " ++
      s!"to handle '{valueType}'"
  | mismatch found expected => s!"Data type incorrect: {found} (expecting {expected})"
  | arrayBounds length index => boundsText "Array" "element" "elements" length index
  | textBounds length index => boundsText "String" "character" "characters" length index
  | bitBounds index => s!"Bit-field index {index} out of bounds: only 64 bits in bit-field"
  | notIndexable type keyType valueType =>
    "Indexer unavailable: " ++ indexing type keyType valueType
  | notIterable => "For loop expects iterable type"
  | arithmetic text => text
  | variableNotFound name => s!"Variable not found: {name}"
  | moduleNotFound name => s!"Module not found: {name}"
  | constantTarget name => s!"Cannot modify constant {name}"
  | constantMethod name => s!"Non-pure method '{name}' cannot be called on constant"
  | constantProperty name => s!"Cannot modify property '{name}' of constant"
  | unboundThis => "'this' not bound"
  | unparsed cause => s!"Syntax error: {cause.message}"
  | tooManyOperations => "Too many operations"
  | stackOverflow => "Stack overflow"

/-- A limit of the host is exhausted. -/
def isLimit : Trouble → Bool
  | tooManyOperations | stackOverflow => true
  | _ => false

/-- The name of the sort of trouble, for a script that catches it. -/
def sort : Trouble → String
  | thrown _ => "ErrorRuntime"
  | functionNotFound _ => "ErrorFunctionNotFound"
  | unreadableProperty .. | unwritableProperty .. => "ErrorDotExpr"
  | mismatch .. => "ErrorMismatchDataType"
  | arrayBounds .. => "ErrorArrayBounds"
  | textBounds .. => "ErrorStringBounds"
  | bitBounds _ => "ErrorBitFieldBounds"
  | notIndexable .. => "ErrorIndexingType"
  | notIterable => "ErrorFor"
  | arithmetic _ => "ErrorArithmetic"
  | variableNotFound _ => "ErrorVariableNotFound"
  | moduleNotFound _ => "ErrorModuleNotFound"
  | constantTarget _ => "ErrorAssignmentToConstant"
  | constantMethod _ | constantProperty _ => "ErrorNonPureMethodCallOnConstant"
  | unboundThis => "ErrorUnboundThis"
  | unparsed _ => "ErrorParsing"
  | tooManyOperations => "ErrorTooManyOperations"
  | stackOverflow => "ErrorStackOverflow"

/-- What else a script that catches it is told. -/
def details : Trouble → List (String × Value)
  | functionNotFound signature => [("function", .text signature)]
  | mismatch found expected => [("requested", .text expected), ("actual", .text found)]
  | arrayBounds length index | textBounds length index =>
    [("length", .int length), ("index", .int index)]
  | bitBounds index => [("length", .int 64), ("index", .int index)]
  | constantMethod name => [("function", .text name)]
  | constantProperty name => [("function", .text s!"set${name}")]
  | variableNotFound name | constantTarget name => [("variable", .text name)]
  | moduleNotFound name => [("module", .text name)]
  | unreadableProperty name type =>
    [("property", .text (unreadableProperty name type).message)]
  | unwritableProperty name type valueType =>
    [("property", .text (unwritableProperty name type valueType).message)]
  | notIndexable type keyType valueType => [("type", .text (indexing type keyType valueType))]
  | _ => []

end Trouble

/-- What a failure has left: a function of the script by its name, the closure that starts at a place, or a
    function of the library that had called one or had run a text. -/
inductive Callee where
  | function (name : String)
  | closure (position : Position)
  | library (name : String)
deriving DecidableEq, Inhabited

def Callee.name : Callee → String
  | function name | library name => name
  | closure p => closureName p

/-- A failure: a trouble and its place, or one that has left a function, with the place of the call. -/
inductive Failure where
  | raised (trouble : Trouble) (position : Option Position)
  | inFunction (callee : Callee) (inner : Failure) (position : Option Position)
deriving Inhabited

namespace Failure

def position : Failure → Option Position
  | raised _ p | inFunction _ _ p => p

/-- The failure at another place. -/
def moveTo (p : Option Position) : Failure → Failure
  | raised t _ => raised t p
  | inFunction callee inner _ => inFunction callee inner p

/-- The trouble in the innermost function. -/
def trouble : Failure → Trouble
  | raised t _ => t
  | inFunction _ inner _ => inner.trouble

/-- The name of the function in which the trouble arose, if it has left one. -/
def function? : Failure → Option String
  | raised .. => none
  | inFunction callee inner _ => some (inner.function?.getD callee.name)

/-- The place of the trouble itself. -/
def innermost : Failure → Option Position
  | raised _ p => p
  | inFunction _ inner _ => inner.innermost

/-- The message with all places. -/
def describe : Failure → String
  | raised t p => t.message ++ Position.note p
  | inFunction callee inner p =>
    inner.describe ++ s!"\nin call to function '{callee.name}'" ++ Position.note p

def isLimit : Failure → Bool
  | raised t _ => t.isLimit
  | inFunction .. => false

/-- The value that a script catches: what was thrown, or a description. -/
def caught (f : Failure) : Value :=
  match f.trouble with
  | .thrown v => v
  | _ =>
    let place := match f.position with
      | some p => [("line", Value.int p.line), ("position", Value.int p.column)]
      | none => []
    let told := match f with
      | raised t _ => ("error", Value.text t.sort) :: t.details
      | inFunction callee _ _ =>
        [("error", .text "ErrorInFunctionCall"), ("function", .text callee.name), ("source", .text "")]
    .map (Entries.ofList ([("message", .text (f.moveTo none).describe)] ++ place ++ told))

end Failure

end ScriptHost.Script
