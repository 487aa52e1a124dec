import ScriptHost.Script.Token
import ScriptHost.Script.Value

/-!
# Tree — expressions and statements of a script

A chain is a root with the links behind it: properties, method calls and indices, from left to right.
Every part keeps the place that a fault in it is reported at.
-/

namespace ScriptHost.Script

open Text (Position)

/-- An operator between two operands. -/
inductive Operator where
  | add | sub | mul | div | rem | pow
  | shl | shr
  | conj | disj | excl
  | eq | ne | lt | le | gt | ge
  | range | closedRange
deriving DecidableEq, Inhabited

namespace Operator

def all : List Operator :=
  [add, sub, mul, div, rem, pow, shl, shr, conj, disj, excl, eq, ne, lt, le, gt, ge, range, closedRange]

def sign : Operator → String
  | add => "+"
  | sub => "-"
  | mul => "*"
  | div => "/"
  | rem => "%"
  | pow => "**"
  | shl => "<<"
  | shr => ">>"
  | conj => "&"
  | disj => "|"
  | excl => "^"
  | eq => "=="
  | ne => "!="
  | lt => "<"
  | le => "<="
  | gt => ">"
  | ge => ">="
  | range => ".."
  | closedRange => "..="

def ofSign? (sign : String) : Option Operator := all.find? (·.sign == sign)

/-- Whether the operator can be combined with an assignment. -/
def mayAssign : Operator → Bool
  | eq | ne | lt | le | gt | ge | range | closedRange => false
  | _ => true

end Operator

/-- How tightly the sign of an operator binds; zero for every other token. -/
def precedence : Token → Nat
  | .symbol sign =>
    match sign with
    | "||" | "^" | "|" => 30
    | "&&" | "&" => 60
    | "==" | "!=" => 90
    | "!in" => 110
    | "<" | "<=" | ">" | ">=" => 130
    | "??" => 135
    | ".." | "..=" => 140
    | "+" | "-" => 150
    | "*" | "/" | "%" => 180
    | "**" => 190
    | "<<" | ">>" => 210
    | _ => 0
  | .keyword "in" => 110
  | _ => 0

/-- A word and its place. -/
structure Ident where
  name : String
  position : Position
deriving DecidableEq, Inhabited

/-- A variable around a closure that the closure holds on to; a constant may be known from the text. -/
structure Capture where
  name : Ident
  known : Option Value
deriving Inhabited

/-- A pattern of a switch. -/
inductive Pattern where
  | value (v : Value)
  | range (first last : Int) (closed : Bool)
deriving Inhabited

namespace Pattern

def isRange : Pattern → Bool
  | range .. => true
  | value _ => false

/-- Whether the pattern is a range with numbers in it. -/
def isOpen : Pattern → Bool
  | range a b closed => if closed then a ≤ b else a < b
  | value _ => false

/-- Whether a value is one that the pattern names. -/
def selects (v : Value) : Pattern → Bool
  | value w => v.same w
  | range a b closed =>
    match v with
    | .int n => a ≤ n && (if closed then n ≤ b else n < b)
    | .float x =>
      let low := Float.ofInt a
      let high := Float.ofInt b
      low ≤ x && (if closed then x ≤ high else x < high)
    | _ => false

end Pattern

/-- The sign that joins a link to what stands in front of it: its place, and whether it leaves a unit as
    it is. -/
structure Joint where
  position : Position
  optional : Bool
deriving DecidableEq, Inhabited

mutual

inductive Expr where
  | constant (value : Value) (position : Position)
  /-- The pieces of a template. -/
  | template (parts : List Expr) (position : Position)
  | array (items : List Expr) (position : Position)
  | map (entries : List (String × Expr)) (position : Position)
  | var (name : String) (position : Position)
  | this (position : Position)
  /-- A sign in front of an operand. -/
  | prefixed (sign : String) (operand : Expr) (position : Position)
  | binary (op : Operator) (left right : Expr) (position : Position)
  | and (parts : List Expr) (position : Position)
  | or (parts : List Expr) (position : Position)
  /-- The first part that is not the unit. -/
  | coalesce (parts : List Expr) (position : Position)
  /-- Whether the second operand contains the first. -/
  | contains (container item : Expr) (position : Position)
  | call (function : String) (args : List Expr) (position : Position)
  | moduleCall (path : List Ident) (function : String) (args : List Expr) (position : Position)
  | moduleVariable (path : List Ident) (name : String) (position : Position)
  /-- A root with the links behind it, at least one. -/
  | chain (root : Expr) (links : List Link)
  | block (body : List Stmt) (position : Position)
  /-- A function without a name. -/
  | closure (params : List String) (captures : List Capture) (body : List Stmt) (position : Position)

/-- A step behind the root of a chain. -/
inductive Link where
  | property (name : String) (position : Position) (joint : Joint)
  | method (name : String) (args : List Expr) (position : Position) (joint : Joint)
  | index (key : Expr) (joint : Joint)

inductive Stmt where
  /-- A statement that does nothing. -/
  | skip (position : Position)
  | expr (value : Expr)
  | define (name : String) (isConstant : Bool) (value : Option Expr) (position : Position)
  /-- `op` is there for an assignment that first combines the old value with the new one. -/
  | assign (target : Expr) (op : Option Operator) (value : Expr) (position : Position)
  | block (body : List Stmt) (position : Position)
  | branch (guard : Expr) (yes no : List Stmt) (position : Position)
  | select (subject : Expr) (cases : List Case) (position : Position)
  /-- A loop without a guard goes on until it is left. -/
  | loop (guard : Option Expr) (body : List Stmt) (bodyPosition position : Position)
  /-- A loop whose guard stands behind its body; it goes on while the guard is `goal`. -/
  | loopThen (body : List Stmt) (guard : Expr) (goal : Bool) (bodyPosition position : Position)
  | each (name : Ident) (counter : Option Ident) (source : Expr) (body : List Stmt)
      (bodyPosition position : Position)
  | leave (value : Option Expr) (position : Position)
  | proceed (position : Position)
  | ret (value : Option Expr) (position : Position)
  | throw (value : Option Expr) (position : Position)
  | attempt (body : List Stmt) (name : Option Ident) (handler : List Stmt) (position : Position)
  /-- Asks for a module that the host does not have. -/
  | obtain (path : Expr) (position : Position)
  /-- Offers a variable to other scripts. -/
  | offer (name : Ident) (position : Position)

/-- A case of a switch; without patterns it is the default. -/
inductive Case where
  | mk (patterns : List Pattern) (guard : Option Expr) (action : Expr)

end

instance : Inhabited Expr := ⟨.constant .unit .start⟩

instance : Inhabited Stmt := ⟨.expr default⟩

/-- The sign in front of a link. -/
def Link.joint : Link → Joint
  | property _ _ j | method _ _ _ j | index _ j => j

namespace Expr

/-- The place that a fault in the whole expression is reported at. -/
def position : Expr → Position
  | constant _ p | template _ p | array _ p | map _ p | var _ p | this p | prefixed _ _ p
  | binary _ _ _ p | and _ p | or _ p | coalesce _ p | contains _ _ p | call _ _ p
  | moduleCall _ _ _ p | moduleVariable _ _ p | block _ p | closure _ _ _ p => p
  | chain root links => (links.head?.map fun l => l.joint.position).getD root.position

mutual

/-- The place that a fault in the operand of another expression is reported at. -/
def startPosition : Expr → Position
  | and parts p | or parts p | coalesce parts p => (headPosition? parts).getD p
  | chain root _ => root.startPosition
  | moduleCall path _ _ p | moduleVariable path _ p => (path.head?.map Ident.position).getD p
  | e => e.position

def headPosition? : List Expr → Option Position
  | [] => none
  | e :: _ => some e.startPosition

end

/-- The value of an expression that is a value by itself. -/
def value? : Expr → Option Value
  | constant v _ => some v
  | _ => none

/-- Whether the expression is a call of a function, by its name or by a sign. -/
def isCall : Expr → Bool
  | prefixed .. | binary .. | contains .. | call .. | moduleCall .. => true
  | _ => false

mutual

/-- The value of a literal. -/
def literal? : Expr → Option Value
  | constant v _ => some v
  | array items _ => (literals? items).map .array
  | map entries _ => (literalEntries? entries).map fun es => .map (Entries.ofList es)
  | binary op (constant (.int a) _) (constant (.int b) _) _ =>
    match op with
    | .range => some (.range a b false)
    | .closedRange => some (.range a b true)
    | _ => none
  | _ => none

def literals? : List Expr → Option (List Value)
  | [] => some []
  | e :: es => do some ((← literal? e) :: (← literals? es))

def literalEntries? : List (String × Expr) → Option (List (String × Value))
  | [] => some []
  | (k, e) :: es => do some ((k, ← literal? e) :: (← literalEntries? es))

end

end Expr

namespace Link

/-- The place of a link: that of its name, or of its key. -/
def position : Link → Position
  | property _ p _ | method _ _ p _ => p
  | index key _ => key.position

/-- Whether there is nothing to compute in a link. -/
def isPlain : Link → Bool
  | property .. | method _ [] _ _ => true
  | index (.constant (.int _) _) _ | index (.constant (.float _) _) _
  | index (.constant (.char _) _) _ | index (.constant (.text _) _) _ => true
  | _ => false

end Link

namespace Stmt

def position : Stmt → Position
  | expr e => e.position
  | skip p | define _ _ _ p | assign _ _ _ p | block _ p | branch _ _ _ p | select _ _ p
  | loop _ _ _ p | loopThen _ _ _ _ p | each _ _ _ _ _ p | leave _ p | proceed p | ret _ p
  | throw _ p | attempt _ _ _ p | obtain _ p | offer _ p => p

/-- A statement that ends with a brace needs no semicolon. -/
def isSelfTerminated : Stmt → Bool
  | block .. | branch .. | select .. | loop .. | each .. | attempt .. => true
  | _ => false

end Stmt

/-- A function of a script. -/
structure Function where
  name : String
  params : List String
  body : List Stmt
deriving Inhabited

/-- A closure, told by its place from others.  What it holds on to comes in front of its parameters. -/
structure Closure where
  params : List String
  body : List Stmt
  position : Position
deriving Inhabited

def Closure.function (c : Closure) : Function := ⟨closureName c.position, c.params, c.body⟩

/-- A script: its functions, the first one first, and the statements outside them. -/
structure Program where
  functions : List Function
  statements : List Stmt
deriving Inhabited

/-- The function of that name that takes so many arguments. -/
def Program.function? (p : Program) (name : String) (arity : Nat) : Option Function :=
  p.functions.find? fun f => f.name == name && f.params.length == arity

end ScriptHost.Script
