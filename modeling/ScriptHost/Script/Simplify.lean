import ScriptHost.Script.Arithmetic
import ScriptHost.Script.Parser
import ScriptHost.Script.Purity

/-!
# Simplify — a script without its plain detours

Before a script runs, operators on literals are computed, though not operators on what has been computed
so, constants take the place of their names, branches that are decided are taken, and pure statements
that nobody waits for are left out.  A script does the same afterwards, but for less: a condition that
decides nothing is no longer asked for a truth value, and there are fewer operations to count.
-/

namespace ScriptHost.Script

open Text (Position)

/-! ## 1. Expressions whose parts are simple -/

/-- The constants in scope, the innermost one first; a variable hides a constant of its name. -/
abbrev Constants := List (String × Option Value)

def Constants.get? (constants : Constants) (name : String) : Option Value :=
  (constants.lookup name).join

/-- The items up to the first one that `stop` holds of, that one included. -/
def through {α : Type} (stop : α → Bool) : List α → List α
  | [] => []
  | a :: as => if stop a then [a] else a :: through stop as

namespace Expr

def isTruth (b : Bool) : Expr → Bool
  | constant (.bool c) _ => b == c
  | _ => false

/-- The values of expressions that are all constant. -/
def values? (es : List Expr) : Option (List Value) := es.mapM value?

/-- A run of `&&` or `||`: parts equal to `neutral` go, and nothing follows its opposite. -/
def junction (make : List Expr → Position → Expr) (neutral : Bool) (parts : List Expr) (p : Position) :
    Expr :=
  match through (isTruth !neutral) (parts.filter fun e => !e.isTruth neutral) with
  | [] => constant (.bool neutral) p
  | [e] => e
  | es => make es p

/-- A run of `??`: units go, and nothing follows a constant.  A run of units alone is false. -/
def firstPart (parts : List Expr) (p : Position) : Expr :=
  let isUnit (e : Expr) : Bool := e.value?.any Value.isUnit
  match through (·.value?.isSome) (parts.filter fun e => !isUnit e) with
  | [] => constant (.bool false) p
  | [e] => e
  | es => coalesce es p

/-- An operator on literals is computed, unless that calls a function or fails. -/
def operation (op : Operator) (x y : Value) (q r p : Position) : Expr :=
  match op.isCalled x y, op.apply x y with
  | false, .ok v => constant v p
  | _, _ => binary op (constant x q) (constant y r) p

/-- Pieces of a template, of which `e` is the first: texts side by side become one, and what has no text
    goes. -/
def mergePieces (e : Expr) : List Expr → List Expr
  | [] => [e]
  | d :: ds =>
    match e, d with
    | constant (.text s) p, constant (.text t) _ => mergePieces (constant (.text (s ++ t)) p) ds
    | e, constant .unit _ | e, constant (.text "") _ => mergePieces e ds
    | constant .unit _, d | constant (.text "") _, d => mergePieces d ds
    | e, d => e :: mergePieces d ds

/-- A template of constants is the text that the host sees of them. -/
def joined (parts : List Expr) (p : Position) : Expr :=
  match values? parts, parts with
  | some vs, _ => constant (.text (String.join (vs.map Value.logged))) p
  | none, [] => template [] p
  | none, e :: es => template (mergePieces e es) p

def collected (items : List Expr) (p : Position) : Expr :=
  match values? items with
  | some vs => constant (.array vs) p
  | none => array items p

def keyed (entries : List (String × Expr)) (p : Position) : Expr :=
  match values? (entries.map (·.2)) with
  | some vs => constant (.map (Entries.ofList ((entries.map (·.1)).zip vs))) p
  | none => map entries p

def called (function : String) (args : List Expr) (p : Position) : Expr :=
  match function, args with
  | "type_of", [constant v _] => constant (.text v.typeName) p
  | "is_shared", [constant ..] => constant (.bool false) p
  | "Fn", [constant (.text name) _] =>
    if Token.ofWord name == .name name then constant (.pointer name none) p else call function args p
  | _, _ => call function args p

/-- A variable, or the constant of that name. -/
def ofName (constants : Constants) (name : String) (p : Position) : Expr :=
  match constants.get? name with
  | some v => constant v p
  | none => var name p

/-- The part of a constant that a single link leads to, if it is there to be seen. -/
def partOf? (v : Value) : Link → Option Value
  | .property name _ joint =>
    match v with
    | .map es => some ((Entries.get? name es).getD .unit)
    | .unit => if joint.optional then some .unit else none
    | _ => none
  | .method "type_of" [] _ _ => some (.text v.typeName)
  | .index (constant key _) joint =>
    match v, key with
    | .unit, _ => if joint.optional then some .unit else none
    | .map es, .text k => some ((Entries.get? k es).getD .unit)
    | .array items, .int i =>
      if 0 ≤ i then items[i.toNat]? else if items.length < i.natAbs then none
      else items[items.length - i.natAbs]?
    | _, _ => none
  | _ => none

/-- A chain behind anything but a variable. -/
def linked (root : Expr) (links : List Link) : Expr :=
  match root, links with
  | constant v p, [link] =>
    match partOf? v link with
    | some w => constant w p
    | none => chain root links
  | _, _ => chain root links

/-- A chain behind a variable; only a property of a constant map is looked up. -/
def linkedTo (constants : Constants) (name : String) (p : Position) (links : List Link) : Expr :=
  match constants.get? name, links with
  | some (.map es), [.property key _ _] => constant ((Entries.get? key es).getD .unit) p
  | _, _ => chain (var name p) links

/-- A block as an expression. -/
def ofBlock (body : List Stmt) (p : Position) : Expr :=
  match body with
  | [] => constant .unit p
  | [.expr e] => e
  | body => block body p

end Expr

/-! ## 2. Statements that nobody waits for -/

/-- Which statements of a block can go: `wanted` says that somebody waits for its value, `inner` that its
    variables end with it, and `last` that a function or script ends with it. -/
structure Pruning where
  wanted : Bool
  inner : Bool
  last : Bool

namespace Pruning

def idle (p : Pruning) (s : Stmt) : Bool := if p.inner then s.isIdle else s.isPure

/-- Whether statements in front of this one may still be waited for. -/
def anchors (p : Pruning) (s : Stmt) : Bool :=
  !p.idle s ||
    match s with
    | .define _ _ value _ => value.all fun e => e.value?.isSome
    | .obtain path _ => path.value?.isNone
    | .expr e => e.value?.isNone
    | _ => false

/-- Leaves out pure statements, but for the one that a value is wanted of. -/
def dropPure (p : Pruning) (ss : List Stmt) : List Stmt :=
  let anchor := (ss.length - 1) - (ss.reverse.findIdx? p.anchors).getD (ss.length - 1)
  (ss.zipIdx.filter fun (s, i) =>
    (p.wanted && i + 1 == ss.length) || !(s.isPure || (p.idle s && anchor ≤ i))).map (·.1)

/-- The end of a block whose value is wanted, last statement first: what returns at the end of a function
    is its value, and pure statements without a value go. -/
def trimWanted (p : Pruning) : Nat → List Stmt → List Stmt
  | 0, ss => ss
  | fuel + 1, ss =>
    match ss with
    | .ret none q :: rest =>
      if p.last then
        match rest with
        | [] => []
        | s :: _ => if s.hasValue then .skip q :: rest else trimWanted p fuel rest
      else ss
    | .ret (some e) _ :: rest => if p.last then trimWanted p fuel (.expr e :: rest) else ss
    | [s] => if !s.hasValue && p.idle s then [] else ss
    | s :: t :: rest =>
      if s.hasValue || !p.idle s then ss
      else if t.hasValue then .skip s.position :: t :: rest
      else trimWanted p fuel (t :: rest)
    | [] => []

def trim (p : Pruning) (ss : List Stmt) : List Stmt :=
  let reversed := ss.reverse
  (if p.wanted then p.trimWanted (2 * ss.length + 2) reversed else reversed.dropWhile p.idle).reverse

/-- One round of pruning. -/
def round (p : Pruning) (ss : List Stmt) : List Stmt :=
  p.trim (p.dropPure (through Stmt.goesElsewhere ss))

/-- Prunes until nothing more goes. -/
def prune (p : Pruning) (ss : List Stmt) : List Stmt :=
  let rec go : Nat → List Stmt → List Stmt
    | 0, ss => ss
    | fuel + 1, ss => go fuel (p.round ss)
  go (ss.length + 1) ss

end Pruning

/-- A block inside another, pruned. -/
def pruned (wanted : Bool) (body : List Stmt) : List Stmt := Pruning.prune ⟨wanted, true, false⟩ body

/-- Statements that take the place of one.  At the end of a function or script a block of several stays
    together; elsewhere a block that declares nothing is dissolved. -/
def Stmt.dissolved (atEnd : Bool) : Stmt → List Stmt
  | block [] p => [skip p]
  | block [s] p => if s.declares then [block [s] p] else [s]
  | block body p => if atEnd || bodyDeclares body then [block body p] else body
  | s => [s]

/-! ## 3. Whole scripts -/

/-- The case of a switch on a constant, if it is plain which one it is. -/
def decided? (v : Value) (cases : List Case) : Option Expr :=
  let matching (ofRange : Bool) : List Case := cases.filter fun
    | .mk ps _ _ => ps.any fun p => p.isRange == ofRange && p.selects v
  let default := cases.filter fun
    | .mk ps _ _ => ps.isEmpty
  match matching false ++ matching true ++ default with
  | .mk _ none action :: _ => some action
  | _ => none

mutual

def Expr.simplify (constants : Constants) : Expr → Expr
  | .constant v p => .constant v p
  | .template parts p => .joined (simplifyAll constants parts) p
  | .array items p => .collected (simplifyAll constants items) p
  | .map entries p => .keyed (simplifyEntries constants entries) p
  | .var name p => .ofName constants name p
  | .this p => .this p
  | .prefixed "!" (.constant (.bool b) _) p => .constant (.bool !b) p
  | .prefixed sign e p => .prefixed sign (e.simplify constants) p
  | .binary op (.constant x q) (.constant y r) p => .operation op x y q r p
  | .binary op a b p => .binary op (a.simplify constants) (b.simplify constants) p
  | .and parts p => .junction .and true (simplifyAll constants parts) p
  | .or parts p => .junction .or false (simplifyAll constants parts) p
  | .coalesce parts p => .firstPart (simplifyAll constants parts) p
  | .contains a b p => .contains (a.simplify constants) (b.simplify constants) p
  | .call function args p => .called function (simplifyAll constants args) p
  | .moduleCall path function args p => .moduleCall path function (simplifyAll constants args) p
  | .moduleVariable path name p => .moduleVariable path name p
  | .chain (.var name p) links => .linkedTo constants name p (simplifyLinks constants links)
  | .chain root links => .linked (root.simplify constants) (simplifyLinks constants links)
  | .block body p => .ofBlock (pruned true (simplifyAllIn constants true false body)) p
  -- The body of a closure stays as it is written; only what it holds on to may be known.
  | .closure params captures body p =>
    .closure params (captures.map fun c => { c with known := constants.get? c.name.name }) body p

def simplifyAll (constants : Constants) : List Expr → List Expr
  | [] => []
  | e :: es => e.simplify constants :: simplifyAll constants es

def simplifyEntries (constants : Constants) : List (String × Expr) → List (String × Expr)
  | [] => []
  | (k, e) :: es => (k, e.simplify constants) :: simplifyEntries constants es

def simplifyOption (constants : Constants) : Option Expr → Option Expr
  | none => none
  | some e => some (e.simplify constants)

def simplifyLinks (constants : Constants) : List Link → List Link
  | [] => []
  | .property name p joint :: ls => .property name p joint :: simplifyLinks constants ls
  | .method name args p joint :: ls =>
    .method name (simplifyAll constants args) p joint :: simplifyLinks constants ls
  | .index key joint :: ls => .index (key.simplify constants) joint :: simplifyLinks constants ls

/-- A statement in a block; `wanted` says whether somebody waits for the value of the block. -/
def Stmt.simplify (constants : Constants) (wanted : Bool) : Stmt → Stmt
  | .skip p => .skip p
  | .expr (.block body p) => .block (pruned true (simplifyAllIn constants true false body)) p
  | .expr e => .expr (e.simplify constants)
  | .define name isConstant value p => .define name isConstant (simplifyOption constants value) p
  | .assign (.var x q) none (.binary op (.var y r) e s) p =>
    if x == y && op.mayAssign then .assign (.var x q) (some op) (e.simplify constants) s
    else .assign (.var x q) none (.binary op (.ofName constants y r) (e.simplify constants) s) p
  | .assign (.chain (.var name q) links) op value p =>
    .assign (.linkedTo constants name q (simplifyLinks constants links)) op
      (value.simplify constants) p
  | .assign (.chain root links) op value p =>
    .assign (.chain root (simplifyLinks constants links)) op (value.simplify constants) p
  | .assign target op value p => .assign target op (value.simplify constants) p
  | .block body p => .block (pruned wanted (simplifyAllIn constants wanted false body)) p
  | .branch guard yes no p =>
    let guard := guard.simplify constants
    let yes := pruned wanted (simplifyAllIn constants wanted false yes)
    let no := pruned wanted (simplifyAllIn constants wanted false no)
    match guard with
    | .constant (.bool b) _ => .block (if b then yes else no) p
    | guard =>
      if yes.isEmpty && no.isEmpty then
        let asked := if wanted then [.expr guard, .skip p] else [.expr guard]
        .block (pruned wanted asked) p
      else .branch guard yes no p
  | .select subject cases p =>
    let subject := subject.simplify constants
    let cases := simplifyCases constants cases
    match subject.value?.bind fun v => decided? v cases with
    | some (.block body _) => .block body p
    | some action => .expr action
    | none => .select subject cases p
  | .loop none body q p => .loop none (pruned false (simplifyAllIn constants false false body)) q p
  | .loop (some guard) body q p =>
    let body := pruned false (simplifyAllIn constants false false body)
    match guard.simplify constants with
    | .constant (.bool true) _ => .loop none body q p
    | .constant (.bool false) _ => .skip p
    | guard => .loop (some guard) body q p
  | .loopThen body guard goal q p =>
    let body := pruned false (simplifyAllIn constants false false body)
    .loopThen body (guard.simplify constants) goal q p
  | .each name counter source body q p =>
    let hidden := (name.name, none) :: (counter.toList.map fun c => (c.name, none)) ++ constants
    let body := pruned false (simplifyAllIn hidden false false body)
    .each name counter (source.simplify constants) body q p
  | .leave value p => .leave (simplifyOption constants value) p
  | .proceed p => .proceed p
  | .ret value p => .ret (simplifyOption constants value) p
  | .throw value p => .throw (simplifyOption constants value) p
  | .obtain path p => .obtain (path.simplify constants) p
  | .offer name p => .offer name p
  | .attempt body name handler p =>
    let body := pruned false (simplifyAllIn constants false false body)
    let hidden := (name.toList.map fun x => (x.name, none)) ++ constants
    if bodyPure body then .block body p
    else .attempt body name (pruned false (simplifyAllIn hidden false false handler)) p

def simplifyCases (constants : Constants) : List Case → List Case
  | [] => []
  | .mk patterns guard action :: cs =>
    .mk patterns (simplifyGuard constants guard) (action.simplify constants) ::
      simplifyCases constants cs

/-- A guard that always holds is none. -/
def simplifyGuard (constants : Constants) : Option Expr → Option Expr
  | none => none
  | some e =>
    match e.simplify constants with
    | .constant (.bool true) _ => none
    | e => some e

/-- Statements one after the other, of which each sees the constants before it. -/
def simplifyAllIn (constants : Constants) (wanted atEnd : Bool) : List Stmt → List Stmt
  | [] => []
  | .block body p :: ss =>
    let rest := simplifyAllIn constants wanted atEnd ss
    if bodyDeclares body then
      (Stmt.block (pruned wanted (simplifyAllIn constants wanted false body)) p).dissolved true ++ rest
    else simplifyAllIn constants wanted atEnd body ++ rest
  | .define name isConstant value p :: ss =>
    let value := simplifyOption constants value
    let known := if isConstant then (value.getD (.constant .unit p)).value? else none
    .define name isConstant value p :: simplifyAllIn ((name, known) :: constants) wanted atEnd ss
  | s :: ss =>
    (s.simplify constants wanted).dissolved atEnd ++ simplifyAllIn constants wanted atEnd ss

end

/-- The statements of a function or a script. -/
def simplifyWhole (body : List Stmt) : List Stmt :=
  Pruning.prune ⟨true, false, true⟩ (simplifyAllIn [] true true body)

def Function.simplify (f : Function) : Function := { f with body := simplifyWhole f.body }

def Program.simplify (p : Program) : Program :=
  ⟨p.functions.map Function.simplify, simplifyWhole p.statements⟩

/-- Reads a script and makes it ready to run. -/
def compile (known : Known) (source : String) : Except Fault Program :=
  (parse known source).map Program.simplify

end ScriptHost.Script
