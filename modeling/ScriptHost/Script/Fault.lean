import ScriptHost.Script.Token

/-!
# Fault — what can be wrong with the text of a script
-/

namespace ScriptHost.Script

/-- The cause of a syntax error in a script. -/
inductive Cause where
  | lexical (cause : LexFault)
  | missing (token purpose : String)
  | endOfText
  | nameExpected
  | propertyExpected
  | functionNameExpected
  | parametersExpected (function : String)
  | bodyExpected (function : String)
  | expressionExpected (what : String)
  | mismatch (expected found : String)
  | undefinedVariable (name : String)
  | undefinedModule (name : String)
  | reserved (word : String)
  | unknownOperator (sign : String)
  | outsideLoop
  | nestedFunction
  | innerExport
  | duplicateFunction (name : String) (arity : Nat)
  | duplicateParameter (function name : String)
  | duplicateVariable (name : String)
  | duplicateProperty (name : String)
  | constantTarget (name : String)
  | noTarget
  | defaultNotLast
  | guardedDefault
  | numberBehindRange
  | badIndex (advice : String)
  /-- The mark of a call in the caller's scope stands behind the name of a method. -/
  | methodMark
  | tooComplex
deriving DecidableEq, Inhabited

def Cause.message : Cause → String
  | lexical cause => cause.message
  | missing token purpose => s!"Expecting '{token}' {purpose}"
  | endOfText => "Script is incomplete"
  | nameExpected => "Expecting name of a variable"
  | propertyExpected => "Expecting name of a property"
  | functionNameExpected => "Expecting function name in function declaration"
  | parametersExpected function => s!"Expecting parameters for function '{function}'"
  | bodyExpected function => s!"Expecting body statement block for function '{function}'"
  | expressionExpected what => s!"Expecting {what} expression"
  | mismatch expected found => s!"Expecting {expected}, not {found}"
  | undefinedVariable name => s!"Undefined variable: {name}"
  | undefinedModule name => s!"Undefined module: {name}"
  | reserved word =>
    if isName word then s!"'{word}' is a reserved keyword" else s!"'{word}' is a reserved symbol"
  | unknownOperator sign => s!"Unknown operator: '{sign}'"
  | outsideLoop => "Break statement should only be used inside a loop"
  | nestedFunction =>
    "Function definitions must be at global level and cannot be inside a block or another function"
  | innerExport => "Export statement can only appear at global level"
  | duplicateFunction name arity =>
    match arity with
    | 0 => s!"Function {name} with no parameters already exists"
    | 1 => s!"Function {name} with 1 parameter already exists"
    | n => s!"Function {name} with {n} parameters already exists"
  | duplicateParameter function name => s!"Duplicated parameter {name} for function '{function}'"
  | duplicateVariable name => s!"Duplicated variable name: {name}"
  | duplicateProperty name => s!"Duplicated property for object map literal: {name}"
  | constantTarget name =>
    if name.isEmpty then "Cannot assign to a constant value" else s!"Cannot assign to constant {name}"
  | noTarget => "Expression cannot be assigned to"
  | defaultNotLast => "Default switch case must be the last"
  | guardedDefault => "This switch case cannot have a condition"
  | numberBehindRange => "Numeric switch case cannot follow a range case"
  | badIndex advice => advice
  | methodMark => "method-call style does not support running within the caller's scope"
  | tooComplex => "Expression exceeds maximum complexity"

/-- Whether a place is known for the cause. -/
def Cause.isPlaced : Cause → Bool
  | lexical .openTail => false
  | _ => true

/-- A syntax error and the place it is reported at, if it has one. -/
structure Fault where
  cause : Cause
  position : Option Text.Position
deriving DecidableEq, Inhabited

/-- The message of a script that could not be read. -/
def Fault.describe (f : Fault) : String :=
  s!"Syntax error: {f.cause.message}" ++ Text.Position.note f.position

end ScriptHost.Script
