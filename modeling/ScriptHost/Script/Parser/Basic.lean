import ScriptHost.Script.Fault
import ScriptHost.Script.Lexer
import ScriptHost.Script.Tree

/-!
# Basic — the state of the parser and its steps over tokens

A step of the parser takes tokens from the front or fails; the first failure ends the reading.
-/

namespace ScriptHost.Script

open Text (Position)

/-- A declared variable. -/
structure Declared where
  name : String
  isConstant : Bool

/-- The tokens that are left, the variables and the obtained modules in scope, the innermost one first, the
    functions read so far, the variables around the innermost closure that it holds on to, and whether there
    has been a closure. -/
structure ParseState where
  rest : List Lexeme
  scope : List Declared := []
  modules : List String := []
  functions : List Function := []
  held : List Ident := []
  hasClosures : Bool := false

/-- Names that a script may use without declaring them. -/
structure Known where
  names : List String
  modules : List String

/-- Where the parser stands: how deep inside expressions, inside a loop, inside a function, at the top
    of the script, whether `|` separates patterns, and inside a closure. -/
structure Place where
  known : Known
  depth : Nat
  inLoop : Bool
  inFunction : Bool
  atTop : Bool
  inPattern : Bool
  inClosure : Bool

/-- The place of the body of a closure in a place. -/
def Place.ofClosure (place : Place) : Place :=
  { place with inLoop := false, inFunction := true, atTop := false, inPattern := false, inClosure := true }

/-- A step of the parser. -/
abbrev Parse := ExceptT Fault (StateM ParseState)

/-- How deep expressions may be nested at the top of a script and in a function. -/
def maxDepth (inFunction : Bool) : Nat := if inFunction then 16 else 32

namespace Parse

/-! ## 1. Failures -/

def failAt {α : Type} (p : Position) (cause : Cause) : Parse α :=
  throw ⟨cause, if cause.isPlaced then some p else none⟩

/-- Fails at a token that is not the one wanted, with the fault of the token itself if it has one. -/
def failInstead {α : Type} (l : Lexeme) (cause : Cause) : Parse α :=
  match l.token with
  | .fault f => failAt l.position (.lexical f)
  | _ => failAt l.position cause

/-- One level deeper; `p` is blamed if that is too deep. -/
def deeper (p : Position) (place : Place) : Parse Place := do
  if maxDepth place.inFunction ≤ place.depth then failAt p .tooComplex
  else return { place with depth := place.depth + 1 }

/-! ## 2. Tokens -/

/-- The next token, left where it is. -/
def peek : Parse Lexeme := return ((← get).rest.head?).getD ⟨.eof, .start⟩

/-- The token behind the next one. -/
def peekBehind : Parse (Option Lexeme) := return (← get).rest[1]?

/-- The next token, passed; the last one stays. -/
def next : Parse Lexeme := do
  let lexeme ← peek
  modify fun s => match s.rest with
    | _ :: l :: ls => { s with rest := l :: ls }
    | _ => s
  return lexeme

def accept (t : Token) : Parse Bool := do
  if (← peek).token == t then
    discard next
    return true
  else return false

def acceptSign (sign : String) : Parse Bool := accept (.symbol sign)

def isSign (l : Lexeme) (sign : String) : Bool := l.token == .symbol sign

/-- Whether a token opens the arguments of a call. -/
def opensCall (l : Lexeme) : Bool := isSign l "(" || isSign l "()"

/-- Passes the sign wanted. -/
def expect (sign purpose : String) : Parse Position := do
  let l ← next
  if isSign l sign then return l.position else failInstead l (.missing sign purpose)

/-- Passes the sign wanted, without regard to what is wrong with another token. -/
def require (sign purpose : String) : Parse Unit := do
  let l ← peek
  if !(← acceptSign sign) then failAt l.position (.missing sign purpose)

/-- Passes the name of a variable. -/
def variableName : Parse Ident := do
  let l ← next
  match l.token with
  | .name word => return ⟨word, l.position⟩
  | .reserved word =>
    if isName word then failAt l.position (.reserved word) else failAt l.position .nameExpected
  | _ => failInstead l .nameExpected

/-! ## 3. Scopes -/

/-- Runs a step whose declarations end with it. -/
def inScope {α : Type} (step : Parse α) : Parse α := do
  let outer ← get
  let a ← step
  modify fun s => { s with
    scope := s.scope.drop (s.scope.length - outer.scope.length), modules := outer.modules }
  return a

def declare (name : String) (isConstant : Bool) : Parse Unit :=
  modify fun s => { s with scope := ⟨name, isConstant⟩ :: s.scope }

/-- A variable that is read must have been declared.  A closure holds on to one that it does not declare
    itself. -/
def ensureVariable (place : Place) (x : Ident) : Parse Unit := do
  let s ← get
  if s.scope.any (·.name == x.name) then return ()
  else if place.inClosure then
    if !s.held.any (·.name == x.name) then set { s with held := s.held ++ [x] }
  else if !place.known.names.contains x.name then failAt x.position (.undefinedVariable x.name)

end Parse

end ScriptHost.Script
