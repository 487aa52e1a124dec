import ScriptHost.Script.Parser.Basic

/-!
# Check — what the parser refuses although its grammar allows it

Only what is plain from the text is refused: a literal where a truth value is wanted, a call on the left
of an assignment, a pattern that is no literal.
-/

namespace ScriptHost.Script.Parse

open Text (Position)

/-! ## 1. Conditions and sources of loops -/

/-- What an expression is for all to see. -/
inductive PlainKind where
  | unit
  | boolean
  | number
  | float
  | character
  | text
  | array
  | map
  | function
deriving DecidableEq, Inhabited

def PlainKind.describe : PlainKind → String
  | unit => "()"
  | boolean => "a boolean"
  | number => "a number"
  | float => "a floating-point number"
  | character => "a character"
  | text => "a string"
  | array => "an array"
  | map => "an object map"
  | function => "Fn"

/-- The plain kind of an expression, if it has one. -/
def plainKind? : Expr → Option PlainKind
  | .constant v _ =>
    match v with
    | .unit => some .unit
    | .bool _ => some .boolean
    | .int _ => some .number
    | .float _ => some .float
    | .char _ => some .character
    | .text _ => some .text
    | _ => none
  | .template .. => some .text
  | .and .. | .or .. => some .boolean
  | .array .. => some .array
  | .map .. => some .map
  | .closure _ [] _ _ => some .function
  | _ => none

/-- Refuses an expression whose plain kind is none of those allowed. -/
def ensureKind (allowed : List PlainKind) (expected : String) (e : Expr) : Parse Expr :=
  match plainKind? e with
  | some k =>
    if allowed.contains k then return e else failAt e.startPosition (.mismatch expected k.describe)
  | none => return e

def ensureBoolean : Expr → Parse Expr := ensureKind [.boolean] "a boolean expression"

def ensureIterable : Expr → Parse Expr := ensureKind [.array, .text, .function] "an iterable value"

/-- A block cannot stand where a condition is wanted. -/
def ensureNoBlock : Parse Unit := do
  let l ← peek
  if isSign l "\x7b" then failAt l.position (.expressionExpected "a boolean")

/-- An assignment cannot stand where a condition is wanted. -/
def ensureNoAssignment : Parse Unit := do
  let l ← peek
  if isSign l "=" then failAt l.position (.lexical (.foreign "Possibly a typo of '=='?"))

/-! ## 2. Names -/

/-- The root of a module path must be a module of the host, one obtained before, or the global
    namespace. -/
def ensureModule (place : Place) (path : List Ident) : Parse Unit :=
  match path with
  | [] => pure ()
  | root :: _ => do
    let modules := "global" :: (← get).modules ++ place.known.modules
    if !modules.contains root.name then failAt root.position (.undefinedModule root.name)

/-- The precedence of the next token as an operator behind an operand. -/
def nextPrecedence (place : Place) : Parse Nat := do
  let l ← peek
  match l.token with
  | .symbol "|" => return if place.inPattern then 0 else precedence l.token
  | .reserved word =>
    if isName word then return 0 else failAt l.position (.unknownOperator word)
  | t => return precedence t

/-- What the closing parenthesis of a call is wanted for. -/
def closingPurpose (function : String) : String :=
  s!"to close the arguments list of this function call '{function}'"

/-! ## 3. Links -/

/-- Links, last first, in front of a point: an index directly in front of it leaves no unit alone. -/
def obligatory : List Link → List Link
  | .index key joint :: links => .index key { joint with optional := false } :: links
  | links => links

/-- The plain kinds that never are the key of a map, as the message names them. -/
def badKey? : PlainKind → Option String
  | .number => some "a number"
  | .float => some "a float"
  | .text | .array | .map | .function => none
  | k => some k.describe

/-- The plain kinds that never are an index of a sequence or of bits, with the index wanted instead. -/
def badNumber? : PlainKind → Option (String × String)
  | .text => some ("numeric", "a string")
  | .float => some ("integer", "a float")
  | .number | .array | .map | .function => none
  | k => some ("integer", k.describe)

/-- What is wrong with an index behind a literal, if it can never be one. -/
def badIndex? (root key : Expr) : Option String :=
  let ofNumber : Option String := (plainKind? key).bind badNumber? |>.map fun (wanted, found) =>
    s!"Array, string or bit-field expects {wanted} index, not {found}"
  match plainKind? root with
  | some .map =>
    (plainKind? key).bind badKey? |>.map fun found => s!"Object map expects string index, not {found}"
  | some .array | some .text | some .number => ofNumber
  | _ => none

/-! ## 4. Assignments -/

/-- The place of the link, if any, that keeps a chain from being assigned to: a call. -/
def callLink? (links : List Link) : Option Position :=
  links.findSome? fun
    | .method _ _ p _ => some p
    | _ => none

/-- The statement `target op value`, if its target can be assigned to. -/
def assignment (target : Expr) (op : Option Operator) (value : Expr) (p : Position) : Parse Stmt := do
  match target with
  | .this _ | .moduleVariable .. => return .assign target op value p
  | .var name q =>
    match (← get).scope.find? (·.name == name) with
    | some d =>
      if d.isConstant then failAt q (.constantTarget name) else return .assign target op value p
    | none => return .assign target op value p
  | .chain root links =>
    match callLink? links with
    | some q => failAt q .noTarget
    | none =>
      match root with
      | .var .. | .this _ => return .assign target op value p
      | e => failAt e.position .noTarget
  | .and .. | .or .. | .coalesce .. =>
    if op.isNone then failAt p (.lexical (.foreign "Possibly a typo of '=='?"))
    else failAt target.position .noTarget
  | e =>
    if e.literal?.isSome then failAt e.startPosition (.constantTarget "")
    else failAt e.position .noTarget

/-! ## 5. Patterns -/

/-- The pattern of a literal in a switch. -/
def pattern (e : Expr) : Parse Pattern :=
  match e.literal? with
  | some (.range a b closed) => return .range a b closed
  | some v => return .value v
  | none => failAt e.startPosition (.expressionExpected "a literal")

/-- Whether a pattern is a number, which no range may precede. -/
def isNumeric : Pattern → Bool
  | .value (.int _) | .value (.float _) => true
  | _ => false

/-- The patterns of a case; `ranged` says whether a range has been met, and then is given back. -/
def patterns (ranged : Bool) : List Expr → Parse (List Pattern × Bool)
  | [] => return ([], ranged)
  | e :: es => do
    let p ← pattern e
    if ranged && isNumeric p then failAt e.startPosition .numberBehindRange
    let (ps, ranged) ← patterns (ranged || p.isOpen) es
    return (p :: ps, ranged)

/-! ## 6. Operators -/

/-- The expression `left op right`; a run of one logical operator is a single expression. -/
def combine (sign : String) (left right : Expr) (p : Position) : Parse Expr := do
  match sign with
  | "||" =>
    match ← ensureBoolean left, ← ensureBoolean right with
    | .or parts q, e => return .or (parts ++ [e]) q
    | a, b => return .or [a, b] p
  | "&&" =>
    match ← ensureBoolean left, ← ensureBoolean right with
    | .and parts q, e => return .and (parts ++ [e]) q
    | a, b => return .and [a, b] p
  | "??" =>
    match left with
    | .coalesce parts q => return .coalesce (parts ++ [right]) q
    | a => return .coalesce [a, right] p
  | "in" => return .contains right left p
  | "!in" => return .prefixed "!" (.contains right left p) p
  | _ =>
    match Operator.ofSign? sign with
    | some op => return .binary op left right p
    | none => failAt p (.unknownOperator sign)

/-- A sign in front of an operand; in front of a number it becomes a part of it. -/
def prefixedBy (sign : String) (operand : Expr) (p : Position) : Expr :=
  match sign, operand with
  | "-", .constant (.int n) _ =>
    if Value.fits (-n) then .constant (.int (-n)) p else .constant (.float (-Float.ofInt n)) p
  | "-", .constant (.float x) _ => .constant (.float (-x)) p
  | "+", .constant (.int n) q => .constant (.int n) q
  | "+", .constant (.float x) q => .constant (.float x) q
  | sign, e => .prefixed sign e p

end ScriptHost.Script.Parse
