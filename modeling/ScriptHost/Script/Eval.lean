import ScriptHost.Script.Chain
import ScriptHost.Script.Parser
import ScriptHost.Text.Space

/-!
# Eval — running a script

Expressions and statements are run on a machine.  Fuel bounds the number of nested steps; it is
computed from the limits, so that a script runs out of operations before it runs out of fuel.
-/

namespace ScriptHost.Script

open Text (Position)

namespace Run

/-- What a function gives: its value, or its interruption as the caller sees it. -/
def leaveFunction (callee : Callee) (p : Option Position) : Except Signal Value → Except Signal Value
  | .ok v => .ok v
  | .error (.returned v) => .ok v
  | .error (.failed f) =>
    .error (.failed (if f.isLimit then f.moveTo p else .inFunction callee f p))
  | .error s => .error s

/-- What a library function gives that has called a function or run a text: it wraps every failure. -/
def leaveLibrary (name : String) (p : Position) : Except Signal Value → Except Signal Value
  | .error (.returned v) => .ok v
  | .error (.failed f) => .error (.failed (.inFunction (.library name) f (some p)))
  | r => r

/-- What the body of a loop tells the loop: whether to leave it, and with which value. -/
def afterBody : Except Signal Value → Run (Option Value)
  | .ok _ => return none
  | .error .continued => return none
  | .error (.left v) => return some v
  | .error s => throw s

/-- What a loop still has to run over: values, or so many integers from one on. -/
inductive Course where
  | values (rest : List Value)
  | integers (first : Int) (count : Nat)

/-- The next value of a course, and the course behind it. -/
def Course.next? : Course → Option (Value × Course)
  | values [] => none
  | values (v :: vs) => some (v, values vs)
  | integers _ 0 => none
  | integers n (k + 1) => some (.int n, integers (n + 1) k)

/-- The course of a loop over a value. -/
def course (v : Value) (p : Position) : Run Course :=
  match v with
  | .array vs => return .values vs
  | .range a b closed => return .integers a (if closed then b + 1 - a else b - a).toNat
  | .text s => return .values (s.toList.map .char)
  | _ => failAt .notIterable p

/-- A variable of a module.  There are none but the constants outside functions, which a script that has
    functions keeps in the module `global`. -/
def moduleVariable (env : Env) (path : List Ident) (name : String) (p : Position) : Run Value := do
  let m ← get
  let isGlobal := env.hasFunctions && path.map Ident.name == ["global"]
  match (m.outer.getD m.scope).find? fun x => isGlobal && x.isConstant && x.name == name with
  | some x => return m.heap.value x.slot
  | none =>
    let written := String.intercalate "::" (path.map Ident.name ++ [name])
    failAt (.variableNotFound written) ((path.head?.map Ident.position).getD p)

/-- Whether a call asks about the script itself. -/
def isQuestion (name : String) (arity : Nat) : Bool :=
  [("is_def_var", 1), ("is_def_fn", 2)].contains (name, arity)

/-- Answers a question about the script: whether it has a variable or a function.  The arguments come
    with their places. -/
def ask (env : Env) (name : String) (args : List (Value × Position)) : Run Value := do
  match name, args with
  | "is_def_var", [(.text x, _)] => return .bool ((← get).scope.any (·.name == x))
  | "is_def_var", [(v, p)] => failAt (.unfit v "string") p
  | "is_def_fn", [(.text f, _), (.int n, _)] =>
    return .bool (0 ≤ n && (env.functions f n.toNat).isSome)
  | "is_def_fn", [(.text _, _), (v, p)] => failAt (.unfit v "i64") p
  | "is_def_fn", (v, p) :: _ => failAt (.unfit v "string") p
  | _, _ => return .bool false

/-- Words that are called like functions, but whose arguments are more than values, or that run what no
    library function may run. -/
inductive Word where
  | pointer
  | curry
  | call
  | eval
  | isShared

/-- The word that a call with so many arguments is of. -/
def Word.of? (name : String) (arity : Nat) : Option Word :=
  match name, arity with
  | "Fn", 1 => some pointer
  | "eval", 1 => some eval
  | "is_shared", 1 => some isShared
  | "curry", _ + 2 => some curry
  | "call", _ + 1 => some call
  | _, _ => none

/-- The pointer to the function of a name. -/
def pointTo (v : Value) (p : Position) : Run Value :=
  match v with
  | .text name =>
    if Token.ofWord name == .name name then return .pointer name none else failAt (.functionNotFound name) p
  | v => failAt (.unfit v "string") p

/-- A pointer to the same function that holds more arguments. -/
def curry (f : Pointer) (more : List Slot) : Run Value := do
  let pointed := (← get).heap.pointed f.key
  modifyGet (Machine.point f.name { pointed with held := pointed.held ++ more })

/-- What a closure keeps of a variable that it holds on to: its cell, or its value if that is known. -/
def hold (env : Env) (x : Capture) : Run Slot := do
  match x.known with
  | some v => return .own v
  | none => do
    count env (some x.name.position)
    return (← find x.name).slot

/-- Makes a closure.  The variables that it holds on to are shared from now on. -/
def close (env : Env) (c : Closure) (captures : List Capture) : Run Value := do
  match captures with
  | [] => modifyGet (Machine.point c.function.name ⟨some c, []⟩)
  | x :: xs => do
    count env (some x.name.position)
    (x :: xs).forM fun x => do modify (Machine.share (← find x.name))
    count env (some c.position)
    let held ← (x :: xs).mapM (hold env)
    modifyGet (Machine.point c.function.name ⟨some c, held⟩)

/-- The closure behind a pointer, if it takes these arguments. -/
def fitting? (pointed : Pointed) (w : Way) : Option Closure :=
  pointed.closure.filter fun c => c.params.length == pointed.held.length + w.args.length

/-- The pointer that a map has for a method of that name. -/
def pointerAt? (name : String) : Value → Option Pointer
  | .map es =>
    match Entries.get? name es with
    | some (.pointer f key) => some ⟨f, key⟩
    | _ => none
  | _ => none

/-- Whether a call failed because there is no function of that name. -/
def isUnknown (name : String) : Except Signal Value → Bool
  | .error (.failed (.raised (.functionNotFound signature) _)) => signature.startsWith name
  | _ => false

/-- Makes a call in the first way for which there is a function. -/
def firstKnown {α : Type} (name : String) (call : Way → Run (Except Signal Value × α)) (w : Way) :
    List Way → Run (Except Signal Value × α)
  | [] => call w
  | v :: ws => do
    let (r, left) ← call w
    if isUnknown name r then firstKnown name call v ws else return (r, left)

/-- Makes a call for the library function `name`: of a closure in the first way that suits it, and otherwise
    in the first way for which there is a function.  A closure fails by itself, any other function in the
    library function. -/
def serve (call : Way → Run (Except Signal Value × Option Value)) (name : String) (pointed : Pointed)
    (r : Request) (p : Position) : Run (Except Signal Value × Option Value) :=
  match r.ways.find? fun w => (fitting? pointed w).isSome, r.ways with
  | some w, _ => call w
  | none, [] => return (.ok .unit, none)
  | none, w :: ws => do
    let (result, left) ← firstKnown r.pointer.name call w ws
    return (leaveLibrary name p result, left)

/-- What a library function learns from a call: a failure of one that may fail is the unit. -/
def learn (r : Request) (result : Except Signal Value) : Run Value :=
  match result, r.mayFail with
  | .error (.failed _), true => return .unit
  | result, _ => resume result

/-- Does an errand with the calls that it wants. -/
def errand (call : Request → Run (Value × Value)) : Errand → Run Answer
  | .done answer => return answer
  | .ask request next => do
    let (v, left) ← call request
    errand call (next v left)

/-- Whether the steps behind a variable ask if it is shared. -/
def asksSharing : List Step → Bool
  | [.method "is_shared" [] _ _] => true
  | _ => false

mutual

/-- The value of an expression; computing it is an operation. -/
def expr (env : Env) : Nat → Expr → Run Value
  | 0, _ => throw .exhausted
  | fuel + 1, e => do
    count env (some e.position)
    compute env fuel e

/-- The value of an expression that has been counted. -/
def compute (env : Env) : Nat → Expr → Run Value
  | 0, _ => throw .exhausted
  | fuel + 1, e => do
    match e with
    | .constant v _ => return v
    | .template parts _ => return .text (String.join ((← exprs env fuel parts).map Value.printed))
    | .array es _ => return .array (← exprs env fuel es)
    | .map es _ => return .map (Entries.ofList (← entries env fuel es))
    | .var name p => return (← lookup name p).value
    | .this p =>
      match (← get).this with
      | some v => return v
      | none => failAt .unboundThis p
    | .prefixed sign e p => do
      let v ← expr env fuel e
      check p (applySign sign v)
    | .binary op a b p => do
      let x ← expr env fuel a
      let y ← expr env fuel b
      if op.isCalled x y then count env (some p)
      check p (op.apply x y)
    | .and parts _ => return .bool (← every env fuel true parts)
    | .or parts _ => return .bool (← every env fuel false parts)
    | .coalesce parts _ => firstOf env fuel parts
    | .contains container item p => do
      let c ← expr env fuel container
      let v ← expr env fuel item
      match env.functions "contains" 2 with
      | some f => enter env fuel f [c, v] (some p)
      | none => return (← library env "contains" [c, v] p).value
    | .call name args p => call env fuel name args p
    | .moduleCall path name args p => do
      let vs ← exprs env fuel args
      return (← module path name vs p).value
    | .moduleVariable path name _ => moduleVariable env path name e.position
    | .chain root links => chain env fuel root links .read
    | .block body _ => block env fuel body
    | .closure params captures body p =>
      close env ⟨captures.map (·.name.name) ++ params, body, p⟩ captures

/-- The values of expressions from left to right. -/
def exprs (env : Env) : Nat → List Expr → Run (List Value)
  | _, [] => return []
  | 0, _ => throw .exhausted
  | fuel + 1, e :: es => do
    let v ← expr env fuel e
    return v :: (← exprs env fuel es)

/-- The values of the entries of a map. -/
def entries (env : Env) : Nat → List (String × Expr) → Run (List (String × Value))
  | _, [] => return []
  | 0, _ => throw .exhausted
  | fuel + 1, (k, e) :: es => do
    let v ← expr env fuel e
    return (k, v) :: (← entries env fuel es)

/-- Goes on as long as the truth values are `goal`, and gives the last of them. -/
def every (env : Env) : Nat → Bool → List Expr → Run Bool
  | _, goal, [] => return goal
  | 0, _, _ => throw .exhausted
  | fuel + 1, goal, e :: es => do
    if (← truth (← expr env fuel e) e.position) == goal then every env fuel goal es
    else return !goal

/-- The first value that is not the unit. -/
def firstOf (env : Env) : Nat → List Expr → Run Value
  | _, [] => return .unit
  | 0, _ => throw .exhausted
  | fuel + 1, e :: es => do
    let v ← expr env fuel e
    if v.isUnit then firstOf env fuel es else return v

/-- Arguments that are kept for later calls: variables that are shared stay so. -/
def slots (env : Env) : Nat → List Expr → Run (List Slot)
  | _, [] => return []
  | 0, _ => throw .exhausted
  | fuel + 1, e :: es => do
    let slot ← match e with
      | .var x q => do
        count env (some q)
        pure (← find ⟨x, q⟩).slot
      | e => .own <$> expr env fuel e
    return slot :: (← slots env fuel es)

/-- A call of a word with a first argument and others. -/
def word (env : Env) : Nat → Word → Expr → List Expr → Position → Run Value
  | 0, _, _, _, _ => throw .exhausted
  | fuel + 1, w, first, rest, p => do
    match w, first with
    | .isShared, .var x q => do
      count env (some q)
      return .bool (← find ⟨x, q⟩).isShared
    | .isShared, e => do
      discard (expr env fuel e)
      return .bool false
    | .pointer, e => do pointTo (← expr env fuel e) e.startPosition
    | .eval, e => do
      match ← expr env fuel e with
      | .text s => do
        let r ← settle (text env fuel s e.startPosition)
        resume (leaveLibrary "eval" e.startPosition r)
      | v => failAt (.unfit v "string") e.startPosition
    | .curry, e => do
      match ← expr env fuel e with
      | .pointer f key => do curry ⟨f, key⟩ (← slots env fuel rest)
      | v => failAt (.unfit v "Fn") e.startPosition
    | .call, e => do
      match ← expr env fuel e with
      | .pointer f key => do
        let vs ← exprs env fuel rest
        let (r, _) ← apply env fuel ⟨f, key⟩ false ⟨none, vs⟩ p
        resume r
      | v => failAt (.unfit v "Fn") e.startPosition

/-- Runs a text as statements in the middle of a script.  It must not name variables that it does not declare
    itself, though they are there. -/
def text (env : Env) : Nat → String → Position → Run Value
  | 0, _, _ => throw .exhausted
  | fuel + 1, s, p => do
    count env (some p)
    let s := String.ofList (Text.trim s.toList)
    if s.isEmpty then return .unit
    match parseText ⟨[], HostModule.all.map HostModule.name⟩ s with
    | .error fault => fail (.unparsed fault.cause) fault.position
    | .ok body => stmts env fuel body .unit

/-- A call by name.  A library function may change a variable that is its first argument, unless closures
    share it; that argument is then computed last. -/
def call (env : Env) : Nat → String → List Expr → Position → Run Value
  | 0, _, _, _ => throw .exhausted
  | fuel + 1, name, args, p => do
    if isQuestion name args.length then
      let vs ← exprs env fuel args
      return ← ask env name (vs.zip (args.map Expr.startPosition))
    match Word.of? name args.length, args with
    | some w, first :: rest => word env fuel w first rest p
    | _, .var x q :: rest => do
      let vs ← exprs env fuel rest
      count env (some q)
      let y ← find ⟨x, q⟩
      let v := (← get).heap.read y
      match env.functions name args.length with
      | some f => enter env fuel f (v.value :: vs) (some p)
      | none => do
        let a ← service env fuel name (v.value :: vs) p
        if let some changed := a.target then
          if !v.isConstant && !y.isShared then assign x changed
        return a.value
    | _, .this q :: rest => do
      let vs ← exprs env fuel rest
      count env (some q)
      match (← get).this with
      | none => failAt .unboundThis q
      | some v =>
        match env.functions name args.length with
        | some f => enter env fuel f (v :: vs) (some p)
        | none => do
          let a ← service env fuel name (v :: vs) p
          if let some changed := a.target then
            modify fun m => if m.thisConstant then m else { m with this := some changed }
          return a.value
    | _, args => do
      let vs ← exprs env fuel args
      match env.functions name args.length with
      | some f => enter env fuel f vs (some p)
      | none => return (← service env fuel name vs p).value

/-- Runs a function of the script from a call at `p`. -/
def enter (env : Env) : Nat → Function → List Value → Option Position → Run Value
  | 0, _, _, _ => throw .exhausted
  | fuel + 1, f, args, p => do
    modify fun m => { m with level := m.level + 1 }
    let (r, _) ← function env fuel f (.function f.name) none false (args.map .own) p
    modify fun m => { m with level := m.level - 1 }
    resume r

/-- Runs the body of a function at the current level, with a value for `this` that may be a constant.  The
    result comes with what is left of that value. -/
def function (env : Env) : Nat → Function → Callee → Option Value → Bool → List Slot → Option Position →
    Run (Except Signal Value × Option Value)
  | 0, _, _, this, _, _, _ => return (.error .exhausted, this)
  | fuel + 1, f, callee, this, isConstant, args, p => do
    if f.body.isEmpty then return (.ok .unit, this)
    match ← settle (count env p) with
    | .error s => return (.error s, this)
    | .ok () =>
      let caller ← get
      if env.limits.callLevels < caller.level then
        return (.error (.failed (.raised .stackOverflow p)), this)
      let bound := (f.params.zip args).map fun (x, slot) => (⟨x, slot, false⟩ : Local)
      let outer := caller.outer.getD caller.scope
      set { caller with
        scope := bound.reverse, outer := some outer, this := this, thisConstant := isConstant }
      let r ← settle (stmts env fuel f.body .unit)
      let this ← modifyGet fun m =>
        (m.this, { m with
          scope := caller.scope, outer := caller.outer, this := caller.this,
          thisConstant := caller.thisConstant })
      return (leaveFunction callee p r, this)

/-- Calls a function pointer: a closure that takes the arguments, or else what its name stands for.  The
    result comes with what is left of the value for `this`. -/
def apply (env : Env) : Nat → Pointer → Bool → Way → Position → Run (Except Signal Value × Option Value)
  | 0, _, _, w, _ => return (.error .exhausted, w.this)
  | fuel + 1, f, isConstant, w, p => do
    let heap := (← get).heap
    let pointed := heap.pointed f.key
    match fitting? pointed w with
    | some c => do
      let args := pointed.held ++ w.args.map .own
      modify fun m => { m with level := m.level + 1 }
      let r ← function env fuel c.function (.closure c.position) w.this isConstant args (some p)
      modify fun m => { m with level := m.level - 1 }
      return r
    | none => do
      let args := pointed.held.map heap.value ++ w.args
      match w.this, env.functions f.name args.length with
      | some target, _ => do
        let (r, left) ← named env fuel isConstant target f.name args p
        return (r, some left)
      | none, some g => return (← settle (enter env fuel g args (some p)), none)
      | none, none => return (← settle (Answer.value <$> service env fuel f.name args p), none)

/-- A library function called from `p`, with the calls that it wants. -/
def service (env : Env) : Nat → String → List Value → Position → Run Answer
  | 0, _, _, _ => throw .exhausted
  | fuel + 1, name, args, p => do
    match errand? name args with
    | none => library env name args p
    | some e => do
      count env (some p)
      errand (respond env fuel name p) e

/-- Makes a call that the library function `name` wants.  The operations that it takes are not counted. -/
def respond (env : Env) : Nat → String → Position → Request → Run (Value × Value)
  | 0, _, _, _ => throw .exhausted
  | fuel + 1, name, p, r => do
    let before ← get
    let pointed := before.heap.pointed r.pointer.key
    let (result, left) ← serve (fun w => apply env fuel r.pointer false w p) name pointed r p
    modify fun m => { m with operations := before.operations }
    let v ← learn r result
    return (v, left.getD (r.subject.getD .unit))

/-- Follows a chain from its root and does `deed` at its end. -/
def chain (env : Env) : Nat → Expr → List Link → Deed → Run Value
  | 0, _, _, _ => throw .exhausted
  | fuel + 1, root, links, deed => do
    let steps ← match links with
      | [link] => do pure [← loneStep env fuel link]
      | links => steps env fuel links
    match root with
    | .this q => do
      count env (some q)
      let m ← get
      match m.this with
      | none => failAt .unboundThis q
      | some v => do
        let visit ← visit env fuel (if m.thisConstant then some ⟨"", q⟩ else none) v steps deed
        modify fun m => { m with this := some visit.left }
        resume visit.outcome
    | .var x q => do
      count env (some q)
      let y ← find ⟨x, q⟩
      if asksSharing steps then return .bool y.isShared
      let v := (← get).heap.read y
      let visit ← visit env fuel (if v.isConstant then some ⟨x, q⟩ else none) v.value steps deed
      assign x visit.left
      resume visit.outcome
    | root => do
      let v ← expr env fuel root
      resume (← visit env fuel none v steps deed).outcome

/-- The arguments of the only link of a chain; they are an operation unless they stand there plainly. -/
def loneStep (env : Env) : Nat → Link → Run Step
  | 0, _ => throw .exhausted
  | fuel + 1, link => do
    if !link.isPlain then count env (some link.position)
    match link with
    | .property name p joint => return .property name p joint
    | .method name args p joint => return .method name (← exprs env fuel args) p joint
    | .index (.constant v p) joint => return .index v p joint
    | .index key joint => return .index (← expr env fuel key) key.startPosition joint

/-- The arguments of several links, from left to right.  Each link is an operation, placed at the sign
    of the next one. -/
def steps (env : Env) : Nat → List Link → Run (List Step)
  | _, [] => return []
  | 0, _ => throw .exhausted
  | fuel + 1, link :: links => do
    count env (some ((links.head?.map fun l => l.joint.position).getD link.position))
    let step ← match link with
      | .property name p joint => pure (Step.property name p joint)
      | .method name args p joint => pure (.method name (← exprs env fuel args) p joint)
      | .index key joint => pure (.index (← expr env fuel key) key.startPosition joint)
    return step :: (← steps env fuel links)

/-- Visits the place behind `steps` inside `target`, which belongs to the constant `owner`, if any. -/
def visit (env : Env) : Nat → Option Ident → Value → List Step → Deed → Run Visit
  | 0, _, target, _, _ => return ⟨.error .exhausted, target⟩
  | fuel + 1, owner, target, steps, deed => do
    match steps with
    | [] => return deed.onPlace target
    | step :: rest =>
      if step.joint.optional && target.isUnit then return ⟨.ok .unit, target⟩
      match step with
      | .method name args p _ => do
        let (r, left) ← method env fuel owner.isSome target name args p
        match r with
        | .error s => return ⟨.error s, left⟩
        | .ok v =>
          if rest.isEmpty then return ⟨.ok v, left⟩
          else return { ← visit env fuel none v rest deed with left := left }
      | step => do
        let taken := if rest.isEmpty then deed.accesses target step else step.accesses target
        match ← settle (taken.forM (count env)) with
        | .error s => return ⟨.error s, target⟩
        | .ok () =>
          match step, rest with
          | .property name p _, [] => return deed.atProperty owner target name p
          | .index key p joint, [] => return deed.atIndex owner target key p joint
          | step, rest => visitPart target step fun v => visit env fuel owner v rest deed

/-- Calls a method.  What a pointer and a map are asked to call is called instead.  The result comes with
    what is left of the target. -/
def method (env : Env) : Nat → Bool → Value → String → List Value → Position →
    Run (Except Signal Value × Value)
  | 0, _, target, _, _, _ => return (.error .exhausted, target)
  | fuel + 1, isConstant, target, name, args, p => do
    match name, target, args with
    | "is_shared", _, [] => return (.ok (.bool false), target)
    | "curry", .pointer f key, args => return (.ok (← curry ⟨f, key⟩ (args.map .own)), target)
    | "curry", _, _ => return (troubleAt (.unfit target "Fn") p, target)
    | "call", .pointer f key, args => do
      let (r, _) ← apply env fuel ⟨f, key⟩ false ⟨none, args⟩ p
      return (r, target)
    | "call", _, .pointer f key :: args => do
      let (r, left) ← apply env fuel ⟨f, key⟩ isConstant ⟨some target, args⟩ p
      return (r, left.getD target)
    | "call", _, args => return (troubleAt (.unfit (args.headD target) "Fn") p, target)
    | name, target, args =>
      match pointerAt? name target with
      | some f => do
        let (r, left) ← apply env fuel f isConstant ⟨some target, args⟩ p
        return (r, left.getD target)
      | none => named env fuel isConstant target name args p

/-- Calls what the name of a method stands for: a function of the script with `this` bound to the target, or
    else a library function with the target in front.  The result comes with what is left of the target. -/
def named (env : Env) : Nat → Bool → Value → String → List Value → Position →
    Run (Except Signal Value × Value)
  | 0, _, target, _, _, _ => return (.error .exhausted, target)
  | fuel + 1, isConstant, target, name, args, p => do
    match env.functions name args.length with
    | some f => do
      modify fun m => { m with level := m.level + 1 }
      let (r, this) ← function env fuel f (.function f.name) (some target) isConstant (args.map .own)
        (some p)
      modify fun m => { m with level := m.level - 1 }
      return (r, this.getD target)
    | none => do
      match ← settle (do
        ensureChangeable env isConstant name (target :: args) p
        service env fuel name (target :: args) p) with
      | .error s => return (.error s, target)
      | .ok a => return (.ok a.value, a.target.getD target)

/-- Runs a block: its variables end with it. -/
def block (env : Env) : Nat → List Stmt → Run Value
  | 0, _ => throw .exhausted
  | fuel + 1, body => do
    let n := (← get).scope.length
    let r ← settle (stmts env fuel body .unit)
    rewind n
    resume r

/-- Runs statements one after the other; the value is that of the last one. -/
def stmts (env : Env) : Nat → List Stmt → Value → Run Value
  | _, [], last => return last
  | 0, _, _ => throw .exhausted
  | fuel + 1, s :: ss, _ => do
    let v ← stmt env fuel s
    stmts env fuel ss v

/-- Runs a statement. -/
def stmt (env : Env) : Nat → Stmt → Run Value
  | 0, _ => throw .exhausted
  | fuel + 1, s => do
    count env (some s.position)
    match s with
    | .skip _ => return .unit
    | .expr e => if e.isCall then compute env fuel e else expr env fuel e
    | .define name isConstant value _ => do
      let v ← match value with
        | some e => expr env fuel e
        | none => do
          count env none
          pure .unit
      declare name v isConstant
      return .unit
    | .assign target op value p => do
      match target with
      | .this q =>
        if (← get).this.isNone then failAt .unboundThis q
      | _ => pure ()
      let v ← expr env fuel value
      assignTo env fuel target op v p
      return .unit
    | .block body _ => block env fuel body
    | .branch guard yes no _ => do
      if ← truth (← expr env fuel guard) guard.position then block env fuel yes
      else block env fuel no
    | .select subject cases _ => do
      let v ← expr env fuel subject
      select env fuel v cases
    | .loop none body q _ => forever env fuel body q
    | .loop (some guard) body q _ => guarded env fuel guard body q
    | .loopThen body guard goal q _ => guardedBehind env fuel body guard goal q
    | .each name counter source body q _ => do
      let v ← expr env fuel source
      let c ← course v source.startPosition
      let n := (← get).scope.length
      let r ← settle (each env fuel name.name (counter.map Ident.name) 0 c body q)
      rewind n
      resume r
    | .leave value _ => do
      let v ← match value with
        | some e => expr env fuel e
        | none => pure .unit
      throw (.left v)
    | .proceed _ => throw .continued
    | .ret value _ => do
      let v ← match value with
        | some e => expr env fuel e
        | none => pure .unit
      throw (.returned v)
    | .throw value p => do
      let v ← match value with
        | some e => expr env fuel e
        | none => pure .unit
      failAt (.thrown v) p
    | .obtain path _ => do
      match ← expr env fuel path with
      | .text s => failAt (.moduleNotFound s) path.startPosition
      | v => failAt (.unfit v "string") path.position
    | .offer name _ => do
      discard (lookup name.name name.position)
      return .unit
    | .attempt body name handler _ => do
      match ← settle (block env fuel body) with
      | .ok v => return v
      | .error (.failed f) =>
        if f.trouble.isLimit then throw (.failed f)
        let n := (← get).scope.length
        if let some x := name then declare x.name f.caught false
        let r ← settle (block env fuel handler)
        rewind n
        match r with
        | .ok _ => return .unit
        | .error (.failed (.raised (.thrown .unit) p)) => throw (.failed (f.moveTo p))
        | .error s => throw s
      | .error s => throw s

/-- Assigns a value to a variable, to `this`, or to the end of a chain. -/
def assignTo (env : Env) : Nat → Expr → Option Operator → Value → Position → Run Unit
  | 0, _, _, _, _ => throw .exhausted
  | fuel + 1, target, op, new, p => do
    match target with
    | .var x q => do
      let old ← lookup x q
      if old.isConstant then failAt (.constantTarget x) q
      countCalls env op old.value new p
      assign x (← resume (Deed.newValue op old.value new p))
    | .this q => do
      let m ← get
      if m.thisConstant then failAt (.constantTarget "") q
      let old := m.this.getD .unit
      countCalls env op old new p
      let v ← resume (Deed.newValue op old new p)
      modify fun m => { m with this := some v }
    | .chain root links => discard (chain env fuel root links (.assign op new p))
    | .moduleVariable path name q => do
      discard (moduleVariable env path name q)
      failAt (.constantTarget name) q
    | _ => throw .stuck

/-- Runs the case that a value selects: that of a value, else that of a range, else the default. -/
def select (env : Env) : Nat → Value → List Case → Run Value
  | 0, _, _ => throw .exhausted
  | fuel + 1, v, cases => do
    let named := cases.filter fun
      | .mk ps _ _ => ps.any fun p => !p.isRange && p.selects v
    let ranged := cases.filter fun
      | .mk ps _ _ => ps.any fun p => p.isRange && p.selects v
    let default := cases.filter fun
      | .mk ps _ _ => ps.isEmpty
    firstCase env fuel (named ++ ranged ++ default)

/-- Runs the first case whose guard holds. -/
def firstCase (env : Env) : Nat → List Case → Run Value
  | _, [] => return .unit
  | 0, _ => throw .exhausted
  | fuel + 1, .mk _ none action :: _ => expr env fuel action
  | fuel + 1, .mk _ (some guard) action :: rest => do
    if ← truth (← expr env fuel guard) guard.position then expr env fuel action
    else firstCase env fuel rest

/-- A loop without a guard. -/
def forever (env : Env) : Nat → List Stmt → Position → Run Value
  | 0, _, _ => throw .exhausted
  | fuel + 1, body, q => do
    count env (some q)
    let r ← settle (block env fuel body)
    match ← afterBody r with
    | some v => return v
    | none => forever env fuel body q

/-- A loop with a guard in front. -/
def guarded (env : Env) : Nat → Expr → List Stmt → Position → Run Value
  | 0, _, _, _ => throw .exhausted
  | fuel + 1, guard, body, q => do
    if ← truth (← expr env fuel guard) guard.position then
      count env (some q)
      let r ← settle (block env fuel body)
      match ← afterBody r with
      | some v => return v
      | none => guarded env fuel guard body q
    else return .unit

/-- A loop with a guard behind; a body that is left early does not come to the guard. -/
def guardedBehind (env : Env) : Nat → List Stmt → Expr → Bool → Position → Run Value
  | 0, _, _, _, _ => throw .exhausted
  | fuel + 1, body, guard, goal, q => do
    count env (some q)
    match ← settle (block env fuel body) with
    | .error .continued => guardedBehind env fuel body guard goal q
    | .error (.left v) => return v
    | .error s => throw s
    | .ok _ =>
      if (← truth (← expr env fuel guard) guard.position) == goal then
        guardedBehind env fuel body guard goal q
      else return .unit

/-- A loop over values; `i` is the number of those passed. -/
def each (env : Env) : Nat → String → Option String → Nat → Course → List Stmt → Position → Run Value
  | 0, _, _, _, _, _, _ => throw .exhausted
  | fuel + 1, name, counter, i, c, body, q => do
    match c.next? with
    | none => return .unit
    | some (v, c) =>
      let n := (← get).scope.length
      if let some x := counter then declare x (.int i) false
      declare name v false
      count env (some q)
      let r ← settle (block env fuel body)
      rewind n
      match ← afterBody r with
      | some v => return v
      | none => each env fuel name counter (i + 1) c body q

end

end Run

/-! ## Whole scripts -/

/-- Fuel for a script within limits: every operation takes a few nested steps. -/
def fuelFor (limits : Limits) : Nat :=
  64 * ((if limits.operations == 0 then 1 <<< 40 else limits.operations) + 1 <<< 24)

/-- How a script ends: with a value or a failure, or else without an answer, because it ran out of fuel
    or assigned to what is no place. -/
inductive Ending where
  | value (v : Value)
  | failure (f : Failure)
  | exhausted
  | stuck
deriving Inhabited

def Ending.ofResult : Except Signal Value → Ending
  | .ok v => value v
  | .error (.returned v) | .error (.ended v) => value v
  | .error (.left v) => value v
  | .error .continued => value .unit
  | .error (.failed f) => failure f
  | .error .exhausted => exhausted
  | .error .stuck => stuck

/-- Runs the statements of a script with some variables in scope. -/
def Program.run (p : Program) (limits : Limits) (given : List Variable) (m : Machine) :
    Ending × Machine :=
  let env : Env := ⟨p.function?, !p.functions.isEmpty, limits⟩
  let (r, m) := (Run.stmts env (fuelFor limits) p.statements .unit).run (m.start given)
  (.ofResult r, m)

/-- Enters a function from outside the script, which is an operation by itself. -/
def Run.host (env : Env) (f : Function) (this : Value) (args : List Value) :
    Run (Except Signal Value × Option Value) := do
  match ← settle (count env none) with
  | .error s => return (.error s, some this)
  | .ok () =>
    function env (fuelFor env.limits) f (.function f.name) (some this) false (args.map .own) none

/-- Calls a function of a script with `this` bound to a value, and gives what is left of it. -/
def callFunction (functions : String → Nat → Option Function) (limits : Limits) (f : Function)
    (this : Value) (args : List Value) (m : Machine) : Ending × Value × Machine :=
  let (r, m) := (Run.host ⟨functions, true, limits⟩ f this args).run (m.start [])
  match r with
  | .ok (r, left) => (.ofResult r, left.getD this, m)
  | .error s => (.ofResult (.error s), this, m)

end ScriptHost.Script
