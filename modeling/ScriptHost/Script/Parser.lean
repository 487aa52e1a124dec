import ScriptHost.Script.Parser.Check

/-!
# Parser — from tokens to a script

Reading stops at the first fault.  A variable must be declared before it is read, a module must be one
that the host offers, and an operator that binds more tightly takes its operands first.  Every nesting
goes one level deeper, and so does every operator of a run.
-/

namespace ScriptHost.Script

open Text (Position)

namespace Parse

/-! ## 1. Parts of a case -/

/-- The literals in front of a case; the default has a sign of its own instead, and no guard. -/
def caseLiterals (isDefault : Bool) (literals : Parse (List Expr)) : Parse (List Expr) := do
  if isDefault then
    discard next
    let q := (← peek).position
    if ← accept (.keyword "if") then failAt q .guardedDefault
    return []
  else literals

/-- The guard of a case, if it has one. -/
def caseGuard (isDefault : Bool) (condition : Parse Expr) : Parse (Option Expr) := do
  if isDefault then return none
  else if ← accept (.keyword "if") then some <$> condition
  else return none

/-! ## 2. Expressions and statements -/

/-- The constant that a token is by itself. -/
def constant? : Token → Option Value
  | .int n => some (.int n)
  | .float x => some (.float x)
  | .char c => some (.char c)
  | .text s => some (.text s)
  | .keyword word =>
    if word == "true" then some (.bool true) else if word == "false" then some (.bool false) else none
  | .symbol sign => if sign == "()" then some .unit else none
  | _ => none

/-- Parameter names of a closure up to its second bar. -/
def closureParameters : Nat → List String → Parse (List String)
  | 0, _ => do failAt (← peek).position .endOfText
  | fuel + 1, seen => do
    let l ← next
    match l.token with
    | .symbol "|" => return seen
    | .name word =>
      if seen.contains word then failAt l.position (.duplicateParameter "" word)
      else
        let separator ← next
        if isSign separator "|" then return seen ++ [word]
        else if isSign separator "," then closureParameters fuel (seen ++ [word])
        else
          failInstead separator (.missing "," "to separate the parameters of anonymous function")
    | .reserved word => failAt l.position (.reserved word)
    | _ =>
      failInstead l (.missing "|" "to close the parameters list of anonymous function or closure")

mutual

/-- An expression. -/
def expression : Nat → Place → Parse Expr
  | 0, _ => do failAt (← peek).position .endOfText
  | fuel + 1, place => do
    let place ← deeper (← peek).position place
    let left ← operand fuel place
    operators fuel place left.position 1 left

/-- An operand with the signs in front of it; a range without a start begins at zero. -/
def operand : Nat → Place → Parse Expr
  | 0, _ => do failAt (← peek).position .endOfText
  | fuel + 1, place => do
    let l ← peek
    match l.token with
    | .eof => failAt l.position .endOfText
    | .symbol sign =>
      if sign == "-" || sign == "+" || sign == "!" then
        discard next
        let e ← operand fuel (← deeper l.position place)
        return prefixedBy sign e l.position
      else if sign == ".." || sign == "..=" then return .constant (.int 0) l.position
      else primary fuel place
    | _ => primary fuel place

/-- The operators behind `left` that bind more tightly than `bound`; powers bind to the right.  `last` is
    the place of the operator before, or of the first operand. -/
def operators : Nat → Place → Position → Nat → Expr → Parse Expr
  | 0, _, _, _, left => return left
  | fuel + 1, place, last, bound, left => do
    let level ← nextPrecedence place
    let l ← peek
    let rightward := isSign l "**"
    if level < bound || (level == bound && !rightward) then return left
    discard next
    let place ← deeper last place
    let right ← if isSign l "??" then alternative fuel place else operand fuel place
    let nextLevel ← nextPrecedence place
    let right ←
      if (level == nextLevel && rightward) || level < nextLevel then
        operators fuel place right.position level right
      else pure right
    let e ← combine l.token.spelling left right l.position
    operators fuel place l.position bound e

/-- What stands in for a unit: an operand, or a statement that goes elsewhere. -/
def alternative : Nat → Place → Parse Expr
  | 0, _ => do failAt (← peek).position .endOfText
  | fuel + 1, place => do
    let l ← peek
    match l.token with
    | .keyword word =>
      if ["return", "throw", "break", "continue"].contains word then
        return .block [← statement fuel { place with atTop := false }] l.position
      else operand fuel place
    | _ => operand fuel place

/-- An operand with what stands behind it: calls, properties, indices. -/
def primary : Nat → Place → Parse Expr
  | 0, _ => do failAt (← peek).position .endOfText
  | fuel + 1, place => do
    let l ← peek
    let p := l.position
    match constant? l.token with
    | some v => do
      discard next
      links fuel place (.constant v p) []
    | none =>
      match l.token with
      | .symbol "\x7b" => do
        let body ← block fuel (← deeper p place)
        links fuel place (.block body.1 p) []
      | .symbol "(" => do
        discard next
        if ← acceptSign ")" then links fuel place (.constant .unit p) []
        else
          let e ← expression fuel (← deeper p place)
          discard (expect ")" "for a matching ( in this expression")
          links fuel place e []
      | .symbol "[" => do
        discard next
        let es ← items fuel (← deeper p place)
        links fuel place (.array es p) []
      | .symbol "#\x7b" => do
        discard next
        let es ← entries fuel (← deeper p place) []
        links fuel place (.map es p) []
      | .piece s => do
        discard next
        let head := if s.isEmpty then [] else [Expr.constant (.text s) p]
        let parts ← pieces fuel (← deeper p place)
        links fuel place (.template (head ++ parts) p) []
      | .symbol "||" => do
        discard next
        links fuel place (← closure fuel place [] p) []
      | .symbol "|" => do
        discard next
        let params ← closureParameters fuel []
        links fuel place (← closure fuel place params p) []
      | .keyword word =>
        if ["if", "while", "loop", "do", "for", "switch"].contains word then do
          let s ← statement fuel { place with atTop := false }
          links fuel place (.block [s] p) []
        else failAt p (.lexical (.unexpected word))
      | .name word => do
        discard next
        let l ← peek
        if opensCall l || isSign l "!" then
          let args ← calling fuel place word p
          links fuel place (.call word args p) []
        else if isSign l "::" then modulePath fuel place [⟨word, p⟩]
        else
          ensureVariable place ⟨word, p⟩
          links fuel place (.var word p) []
      | .reserved word => do
        discard next
        if opensCall (← peek) && callableWords.contains word then
          let args ← calling fuel place word p
          links fuel place (.call word args p) []
        else if word == "this" then
          if place.inFunction then links fuel place (.this p) []
          else failAt p (.lexical (.foreign s!"'{word}' can only be used in functions"))
        else failAt p (.reserved word)
      | .fault f => failAt p (.lexical f)
      | .eof => failAt p .endOfText
      | t => failAt p (.lexical (.unexpected t.spelling))

/-- The closure whose first bar is at `p`, from behind its parameters on.  It does not see the variables
    around it, but those that it names must be there. -/
def closure : Nat → Place → List String → Position → Parse Expr
  | 0, _, _, _ => do failAt (← peek).position .endOfText
  | fuel + 1, place, params, p => do
    let inner ← deeper p place
    let outer ← get
    modify fun s => { s with scope := params.reverse.map (⟨·, false⟩), held := [] }
    let s ← statement fuel inner.ofClosure
    let held := (← get).held
    modify fun s => { s with
      scope := outer.scope, modules := outer.modules, held := outer.held, hasClosures := true }
    held.forM (ensureVariable place)
    let body := match s with
      | .block body _ => body
      | s => [s]
    return .closure params (held.map (⟨·, none⟩)) body p

/-- The links behind a root; `found` holds those met so far, last first. -/
def links : Nat → Place → Expr → List Link → Parse Expr
  | 0, _, root, _ => return root
  | fuel + 1, place, root, found => do
    let l ← peek
    match l.token with
    | .symbol "." => do
      discard next
      member fuel place root (obligatory found) ⟨l.position, false⟩
    | .symbol "?." => do
      discard next
      member fuel place root (obligatory found) ⟨l.position, true⟩
    | .symbol "[" => do
      discard next
      subscript fuel place root found ⟨l.position, false⟩
    | .symbol "?[" => do
      discard next
      subscript fuel place root found ⟨l.position, true⟩
    | _ => return if found.isEmpty then root else .chain root found.reverse

/-- A property or a method behind a point, and the links behind it. -/
def member : Nat → Place → Expr → List Link → Joint → Parse Expr
  | 0, _, root, _, _ => return root
  | fuel + 1, place, root, found, joint => do
    let w ← peek
    let place ← deeper w.position place
    let behind ← peekBehind
    let method (name : String) : Parse Expr := do
      discard next
      let args ← calling fuel place name w.position
      links fuel place root (.method name args w.position joint :: found)
    match w.token with
    | .name word =>
      if behind.any opensCall then method word
      else if behind.any (isSign · "!") then
        discard (calling fuel place word ((← next).position))
        failAt w.position .methodMark
      else if let some sign := behind.filter (isSign · "::") then
        failAt sign.position (.lexical (.foreign "Invalid symbol encountered: '::'"))
      else
        discard next
        links fuel place root (.property word w.position joint :: found)
    | .reserved word =>
      if methodWords.contains word && behind.any opensCall then method word
      else failAt w.position (.reserved word)
    | _ => failAt w.position .propertyExpected

/-- An index behind an opening bracket, and the links behind it. -/
def subscript : Nat → Place → Expr → List Link → Joint → Parse Expr
  | 0, _, root, _, _ => return root
  | fuel + 1, place, root, found, joint => do
    let inner ← deeper joint.position place
    let key ← expression fuel inner
    if found.isEmpty then
      if let some advice := badIndex? root key then failAt key.startPosition (.badIndex advice)
    let l ← peek
    if !isSign l "]" then failInstead l (.missing "]" "for a matching [ in this index expression")
    discard next
    let after ← peek
    let place := if isSign after "[" || isSign after "?[" then inner else place
    links fuel place root (.index key joint :: found)

/-- What a module path, whose parts so far are given, leads to. -/
def modulePath : Nat → Place → List Ident → Parse Expr
  | 0, _, _ => do failAt (← peek).position .endOfText
  | fuel + 1, place, path => do
    if ← acceptSign "::" then
      let part ← variableName
      modulePath fuel place (path ++ [part])
    else
      match path.getLast? with
      | none => failAt (← peek).position .nameExpected
      | some last =>
        let path := path.dropLast
        let l ← peek
        if isSign l "!" then
          if (← peekBehind).any opensCall then failAt l.position (.lexical (.unexpected "!"))
          else failAt l.position (.lexical (.foreign "'!' cannot be used to call module functions"))
        if opensCall l then
          let args ← calling fuel place last.name last.position
          ensureModule place path
          links fuel place (.moduleCall path last.name args last.position) []
        else
          let e ← links fuel place (.moduleVariable path last.name last.position) []
          ensureModule place path
          return e

/-- The arguments of a call of `function` at `p`, from the opening parenthesis or a mark before it on. -/
def calling : Nat → Place → String → Position → Parse (List Expr)
  | 0, _, _, _ => return []
  | fuel + 1, place, function, p => do
    if ← acceptSign "!" then
      let l ← peek
      if !opensCall l then
        failAt l.position (.missing "(" "to start arguments list of function call")
    let opening ← next
    if isSign opening "()" then return []
    else if ← acceptSign ")" then return []
    else
      let l ← peek
      match l.token with
      | .eof => failAt l.position (.missing ")" (closingPurpose function))
      | .fault f => failAt l.position (.lexical f)
      | _ => arguments fuel (← deeper p place) function

/-- Arguments up to the closing parenthesis; a comma may stand in front of it. -/
def arguments : Nat → Place → String → Parse (List Expr)
  | 0, _, _ => return []
  | fuel + 1, place, function => do
    if ← acceptSign ")" then return []
    let e ← expression fuel place
    let l ← peek
    if isSign l ")" then
      discard next
      return [e]
    else if isSign l "," then
      discard next
      return e :: (← arguments fuel place function)
    else if l.token == .eof then failAt l.position (.missing ")" (closingPurpose function))
    else failInstead l (.missing "," s!"to separate the arguments to function call '{function}'")

/-- The items of an array and its closing bracket. -/
def items : Nat → Place → Parse (List Expr)
  | 0, _ => return []
  | fuel + 1, place => do
    let l ← peek
    if isSign l "]" then
      discard next
      return []
    else if l.token == .eof then failAt l.position (.missing "]" "to end this array literal")
    else
      let e ← expression fuel place
      let l ← peek
      if isSign l "," then
        discard next
        return e :: (← items fuel place)
      else if isSign l "]" then return e :: (← items fuel place)
      else if l.token == .eof then failAt l.position (.missing "]" "to end this array literal")
      else failInstead l (.missing "," "to separate the items of this array literal")

/-- The entries of a map, none of them for a key in `seen`, and its closing brace. -/
def entries : Nat → Place → List String → Parse (List (String × Expr))
  | 0, _, _ => do failAt (← peek).position .endOfText
  | fuel + 1, place, seen => do
    let unclosed := Cause.missing "\x7d" "to end this object map literal"
    let l ← next
    let entry (key : String) : Parse (List (String × Expr)) := do
      if seen.contains key then failAt l.position (.duplicateProperty key)
      let colon ← next
      if !isSign colon ":" then
        failInstead colon
          (.missing ":" s!"to follow the property '{key}' in this object map literal")
      let e ← expression fuel place
      let l ← peek
      match l.token with
      | .symbol "," => do
        discard next
        return (key, e) :: (← entries fuel place (key :: seen))
      | .symbol "\x7d" => return (key, e) :: (← entries fuel place (key :: seen))
      | .name _ => failAt l.position (.missing "," "to separate the items of this object map literal")
      | _ => failInstead l unclosed
    match l.token with
    | .symbol "\x7d" => return []
    | .name key => entry key
    | .text key => entry key
    | .piece _ => failAt l.position .propertyExpected
    | .eof => failAt l.position unclosed
    | .reserved word =>
      if isName word then failAt l.position (.reserved word)
      else failAt l.position (if seen.isEmpty then unclosed else .propertyExpected)
    | _ => failInstead l (if seen.isEmpty then unclosed else .propertyExpected)

/-- The embedded blocks of a template and the pieces of text behind them. -/
def pieces : Nat → Place → Parse (List Expr)
  | 0, _ => return []
  | fuel + 1, place => do
    let (body, p) ← block fuel place
    let embedded : List Expr := [.block body p]
    let l ← next
    let piece (s : String) : List Expr := if s.isEmpty then [] else [.constant (.text s) l.position]
    match l.token with
    | .text s => return embedded ++ piece s
    | .piece s => return embedded ++ piece s ++ (← pieces fuel place)
    | .fault f => failAt l.position (.lexical f)
    | _ => failAt l.position (.lexical .openString)

/-- A block: its statements and the place of its opening brace. -/
def block : Nat → Place → Parse (List Stmt × Position)
  | 0, _ => do failAt (← peek).position .endOfText
  | fuel + 1, place => do
    let p ← expect "\x7b" "to start a statement block"
    let place ← deeper p place
    let body ← inScope (blockStatements fuel { place with atTop := false })
    return (body, p)

/-- The statements of a block up to its closing brace. -/
def blockStatements : Nat → Place → Parse (List Stmt)
  | 0, _ => do failAt (← peek).position .endOfText
  | fuel + 1, place => do
    let l ← peek
    if isSign l "\x7d" then
      discard next
      return []
    else if l.token == .eof then failAt l.position (.missing "\x7d" "to terminate this block")
    else if isSign l ";" then
      discard next
      blockStatements fuel place
    else
      let s ← statement fuel place
      let l ← peek
      if isSign l "\x7d" then return s :: (← blockStatements fuel place)
      else if isSign l ";" then
        discard next
        return s :: (← blockStatements fuel place)
      else if s.isSelfTerminated then return s :: (← blockStatements fuel place)
      else failInstead l (.missing ";" "to terminate this statement")

/-- A condition. -/
def condition : Nat → Place → Parse Expr
  | 0, _ => do failAt (← peek).position .endOfText
  | fuel + 1, place => do
    ensureNoBlock
    let e ← ensureBoolean (← expression fuel place)
    ensureNoAssignment
    return e

/-- The value behind a word at `p` that may stand alone. -/
def optionalValue : Nat → Place → Position → Parse (Option Expr)
  | 0, _, _ => return none
  | fuel + 1, place, p => do
    let l ← peek
    if l.token == .eof || isSign l ";" || isSign l "," then return none
    else if isSign l "\x7d" && !place.atTop then return none
    else return some (← expression fuel (← deeper p place))

/-- A statement other than an empty one and the definition of a function. -/
def statement : Nat → Place → Parse Stmt
  | 0, _ => do failAt (← peek).position .endOfText
  | fuel + 1, place => do
    let l ← peek
    let p := l.position
    match l.token with
    | .symbol "\x7b" => do
      let (body, p) ← block fuel (← deeper p place)
      return .block body p
    | .keyword "fn" | .keyword "private" => failAt p .nestedFunction
    | .keyword "if" => branching fuel (← deeper p place)
    | .keyword "switch" => do
      discard next
      let place ← deeper p place
      let subject ← expression fuel place
      discard (expect "\x7b" "to start a switch block")
      let cases ← cases fuel place none false
      return .select subject cases p
    | .keyword "while" => do
      discard next
      let place ← deeper p place
      let guard ← condition fuel place
      let (body, q) ← block fuel { place with inLoop := true }
      return .loop (some guard) body q p
    | .keyword "loop" => do
      discard next
      let (body, q) ← block fuel { ← deeper p place with inLoop := true }
      return .loop none body q p
    | .keyword "do" => do
      discard next
      let place ← deeper p place
      let (body, q) ← block fuel { place with inLoop := true }
      let l ← next
      match l.token with
      | .keyword "while" => return .loopThen body (← condition fuel place) true q p
      | .keyword "until" => return .loopThen body (← condition fuel place) false q p
      | _ => failAt l.position (.missing "while" "for the do statement")
    | .keyword "for" => do
      discard next
      iteration fuel (← deeper p place) p
    | .keyword "continue" => do
      if !place.inLoop then failAt p .outsideLoop
      discard next
      return .proceed p
    | .keyword "break" => do
      if !place.inLoop then failAt p .outsideLoop
      discard next
      return .leave (← optionalValue fuel { place with atTop := false } p) p
    | .keyword "return" => do
      discard next
      return .ret (← optionalValue fuel place p) p
    | .keyword "throw" => do
      discard next
      return .throw (← optionalValue fuel place p) p
    | .keyword "try" => do
      discard next
      let place ← deeper p place
      let (body, _) ← block fuel place
      let l ← peek
      if !(← accept (.keyword "catch")) then
        failAt l.position (.missing "catch" "for the 'try' statement")
      inScope do
        let name ←
          if ← acceptSign "(" then do
            let name ← variableName
            require ")" "to enclose the catch variable"
            declare name.name false
            pure (some name)
          else pure none
        let (handler, _) ← block fuel place
        return .attempt body name handler p
    | .keyword "let" | .keyword "const" => do
      discard next
      let place ← deeper p place
      let name ← variableName
      let value ← if ← acceptSign "=" then some <$> expression fuel place else pure none
      let isConstant := l.token == .keyword "const"
      declare name.name isConstant
      return .define name.name isConstant value p
    | .keyword "import" => do
      discard next
      let path ← expression fuel (← deeper p place)
      if ← accept (.keyword "as") then
        let name ← variableName
        modify fun s => { s with modules := name.name :: s.modules }
      return .obtain path p
    | .keyword "export" => do
      if !place.atTop then failAt p .innerExport
      discard next
      let place ← deeper p place
      let l ← peek
      if l.token == .keyword "let" || l.token == .keyword "const" then statement fuel place
      else
        let name ← variableName
        if ← accept (.keyword "as") then discard variableName
        return .offer name p
    | _ => do
      let place ← deeper p place
      let e ← expression fuel place
      let l ← peek
      match l.token with
      | .symbol sign =>
        if sign == "=" || assigningSigns.contains sign then
          discard next
          let value ← expression fuel place
          let op := if sign == "=" then none else Operator.ofSign? (sign.dropEnd 1).toString
          assignment e op value l.position
        else return .expr e
      | _ => return .expr e

/-- A branch, from the word `if` on. -/
def branching : Nat → Place → Parse Stmt
  | 0, _ => do failAt (← peek).position .endOfText
  | fuel + 1, place => do
    let p := (← next).position
    let guard ← condition fuel place
    let (yes, _) ← block fuel place
    if ← accept (.keyword "else") then
      let l ← peek
      if l.token == .keyword "if" then
        return .branch guard yes [← branching fuel (← deeper l.position place)] p
      else
        let (no, _) ← block fuel place
        return .branch guard yes no p
    else return .branch guard yes [] p

/-- A loop over values, behind the word `for` at `p`. -/
def iteration : Nat → Place → Position → Parse Stmt
  | 0, _, _ => do failAt (← peek).position .endOfText
  | fuel + 1, place, p => do
    let paired ← acceptSign "("
    let name ← variableName
    let counter ←
      if paired then do
        require "," "after the iteration variable name"
        let counter ← variableName
        if counter.name == name.name then
          failAt counter.position (.duplicateVariable counter.name)
        require ")" "to close the iteration variable"
        pure (some counter)
      else pure none
    let l ← next
    if l.token != .keyword "in" then failInstead l (.missing "in" "after the iteration variable")
    ensureNoBlock
    let source ← ensureIterable (← expression fuel place)
    let (body, q) ← inScope do
      match counter with
      | some c => declare c.name false
      | none => pure ()
      declare name.name false
      block fuel { place with inLoop := true }
    return .each name counter source body q p

/-- The cases of a switch up to its closing brace; `default` is the place of the default case, and
    `ranged` says that a range has been met. -/
def cases : Nat → Place → Option Position → Bool → Parse (List Case)
  | 0, _, _, _ => do failAt (← peek).position .endOfText
  | fuel + 1, place, default, ranged => do
    let unclosed := Cause.missing "\x7d" "to end this switch block"
    let start ← peek
    if isSign start "\x7d" then
      discard next
      return []
    if start.token == .eof then failAt start.position unclosed
    if let some p := default then failAt p .defaultNotLast
    let isDefault := isSign start "_"
    let literals ← caseLiterals isDefault (literals fuel { place with inPattern := true })
    let guard ← caseGuard isDefault (condition fuel place)
    discard (expect "=>" "in this switch case")
    let s ← statement fuel place
    let action := match s with
      | .expr e => e
      | .block body p => .block body p
      | s => .block [s] s.position
    let (patterns, ranged) ← patterns ranged literals
    let l ← peek
    let more : Parse (List Case) := do
      let rest ← cases fuel place (if isDefault then some start.position else none) ranged
      return .mk patterns guard action :: rest
    if isSign l "," then
      discard next
      more
    else if isSign l "\x7d" then more
    else if l.token == .eof then failAt l.position (.missing ")" "to end this switch block")
    else if s.isSelfTerminated && !l.token.isLast then more
    else failInstead l (.missing "," "to separate the items in this switch block")

/-- The literals of a case, separated by bars. -/
def literals : Nat → Place → Parse (List Expr)
  | 0, _ => return []
  | fuel + 1, place => do
    let e ← try expression fuel place
      catch fault => throw { fault with cause := .expressionExpected "literal" }
    if ← acceptSign "|" then return e :: (← literals fuel place) else return [e]

end

/-! ## 3. Functions and scripts -/

/-- Parameter names up to the closing parenthesis. -/
def parameters : Nat → String → List String → Parse (List String)
  | 0, _, _ => do failAt (← peek).position .endOfText
  | fuel + 1, function, seen => do
    let unclosed := Cause.missing ")" s!"to close the parameters list of function '{function}'"
    let l ← next
    match l.token with
    | .symbol ")" => return seen
    | .name word =>
      if seen.contains word then failAt l.position (.duplicateParameter function word)
      else
        let separator ← next
        if isSign separator ")" then return seen ++ [word]
        else if isSign separator "," then parameters fuel function (seen ++ [word])
        else
          failInstead separator (.missing "," s!"to separate the parameters of function '{function}'")
    | .keyword _ => failAt l.position .nameExpected
    | .reserved word => failAt l.position (if isName word then .reserved word else unclosed)
    | _ => failInstead l unclosed

/-- A function, from the word `fn` on. -/
def function (fuel : Nat) (known : Known) : Parse Unit := do
  discard next
  let l ← next
  match l.token with
  | .name name =>
    let opening ← peek
    if !opensCall opening then failAt opening.position (.parametersExpected name)
    discard next
    let params ← if isSign opening "()" then pure [] else parameters fuel name []
    let l ← peek
    if !isSign l "\x7b" then failAt l.position (.bodyExpected name)
    let outer := (← get).scope
    modify fun s => { s with scope := params.reverse.map (⟨·, false⟩) }
    let (body, p) ← block fuel ⟨known, 1, false, true, false, false, false⟩
    modify fun s => { s with scope := outer }
    if (← get).functions.any fun f => f.name == name && f.params.length == params.length then
      failAt p (.duplicateFunction name params.length)
    modify fun s => { s with functions := s.functions ++ [⟨name, params, body⟩] }
  | .reserved word => failAt l.position (.reserved word)
  | _ => failAt l.position .functionNameExpected

/-- The statements of a script; functions are kept aside. -/
def script (known : Known) : Nat → Parse (List Stmt)
  | 0 => do failAt (← peek).position .endOfText
  | fuel + 1 => do
    let l ← peek
    match l.token with
    | .eof => return []
    | .symbol ";" => do
      discard next
      script known fuel
    | .keyword "fn" => do
      function fuel known
      script known fuel
    | .keyword "private" => do
      discard next
      let l ← peek
      if l.token != .keyword "fn" then failAt l.position (.missing "fn" "following 'private'")
      function fuel known
      script known fuel
    | _ => do
      let s ← statement fuel ⟨known, 0, false, false, true, false, false⟩
      let l ← peek
      if l.token == .eof then return [s]
      else if isSign l ";" then
        discard next
        return s :: (← script known fuel)
      else if s.isSelfTerminated then return s :: (← script known fuel)
      else failInstead l (.missing ";" "to terminate this statement")

end Parse

/-- Reads the tokens of a script.  The fuel allows for every token to be passed by every kind of step. -/
def parseTokens (known : Known) (lexemes : List Lexeme) : Except Fault (List Stmt) × ParseState :=
  (Parse.script known (28 * lexemes.length + 28)).run.run { rest := lexemes }

/-- Reads a script as it is written. -/
def parse (known : Known) (source : String) : Except Fault Program :=
  let (result, state) := parseTokens known (tokens source)
  result.map fun statements => ⟨state.functions, statements⟩

/-- Reads a text that is run in the middle of a script: it has statements only. -/
def parseText (known : Known) (source : String) : Except Fault (List Stmt) := do
  let (result, state) := parseTokens known (tokens source)
  let statements ← result
  if state.functions.isEmpty && !state.hasClosures then return statements
  else throw ⟨.nestedFunction, none⟩

end ScriptHost.Script
