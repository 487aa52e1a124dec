import ScriptHost.Declaration.Fault
import ScriptHost.Declaration.Tree

/-!
# Parser — the declarations of a module, with recovery

The parser never gives up: a broken item is reported once, and reading goes on at the next place that
looks like the start of an item or of a member.  Bodies are captured, not parsed, so a cursor is never
advanced past an opening brace of a body by looking ahead.
-/

namespace ScriptHost.Declaration

open Text (Position)

/-- A step of the parser: it moves a cursor and may stop at a fault, where the cursor stays. -/
abbrev Parse := ExceptT Fault (StateM Cursor)

namespace Parse

/-! ## 1. Tokens -/

/-- The next token, left where it is. -/
def peek : Parse Lexeme := return (← get).peek

/-- The next token, passed. -/
def next : Parse Lexeme := do
  let (lexeme, after) := (← get).next
  set after
  return lexeme

def failAt {α : Type} (p : Position) (cause : Cause) : Parse α := throw ⟨cause, p⟩

/-- Whether the next token is `t`; if so, it is passed. -/
def accept (t : Token) : Parse Bool := do
  if (← peek).token == t then
    discard next
    return true
  else return false

/-- Passes the token `t`. -/
def expect (t : Token) : Parse Lexeme := do
  let lexeme ← next
  if lexeme.token == t then return lexeme
  else failAt lexeme.position (.expected t.describe lexeme.token)

/-- Passes a name; `what` says in a message what it would have named. -/
def expectIdent (what : String) : Parse (String × Position) := do
  let lexeme ← next
  match lexeme.token with
  | .ident name => return (name, lexeme.position)
  | found => failAt lexeme.position (.expected what found)

/-- Passes the word `keyword`. -/
def expectKeyword (keyword : String) : Parse Position := do
  let lexeme ← next
  if lexeme.token == .ident keyword then return lexeme.position
  else failAt lexeme.position (.expected s!"`{keyword}`" lexeme.token)

/-! ## 2. Literals -/

/-- The number of components that a vector word asks for. -/
def vectorArity? : String → Option Nat
  | "vec2" => some 2
  | "vec3" => some 3
  | "vec4" => some 4
  | _ => none

/-- The component that a literal stands for in a vector. -/
def component? : Literal → Option Float
  | .int n => some (Float.ofInt n)
  | .float x => some x
  | _ => none

mutual

/-- A literal; `fuel` bounds the nesting and the number of items. -/
def literal : Nat → Parse Literal
  | 0 => do
    let lexeme ← peek
    failAt lexeme.position (.expected "a literal default value" lexeme.token)
  | fuel + 1 => do
    let lexeme ← next
    match lexeme.token with
    | .int n => return .int n
    | .float x => return .float x
    | .str s => return .text s
    | .minus =>
      let operand ← next
      match operand.token with
      | .int n => return .int (-n)
      | .float x => return .float (-x)
      | found => failAt operand.position (.expected "a number after `-`" found)
    | .ident "true" => return .bool true
    | .ident "false" => return .bool false
    | .ident word =>
      match vectorArity? word with
      | some arity =>
        discard (expect .lparen)
        let components ← components fuel lexeme.position
        discard (expect .rparen)
        if components.length == arity then return .vector components
        else failAt lexeme.position (.componentCount arity components.length)
      | none => failAt lexeme.position (.expected "a literal default value" (.ident word))
    | .lbracket => return .array (← items fuel)
    | .hash =>
      discard (expect .lbrace)
      return .map (← entries fuel)
    | found => failAt lexeme.position (.expected "a literal default value" found)

/-- The components of a vector whose word stands at `head`, up to its closing parenthesis. -/
def components : Nat → Position → Parse (List Float)
  | 0, _ => return []
  | fuel + 1, head => do
    let value ← literal fuel
    match component? value with
    | none => failAt head (.componentKind value.describe)
    | some x =>
      if ← accept .comma then return x :: (← components fuel head) else return [x]

/-- The items of an array and its closing bracket. -/
def items : Nat → Parse (List Literal)
  | 0 => return []
  | fuel + 1 => do
    if ← accept .rbracket then return []
    let item ← literal fuel
    match (← peek).token with
    | .comma =>
      discard next
      return item :: (← items fuel)
    | .rbracket => return item :: (← items fuel)
    | _ =>
      let lexeme ← next
      failAt lexeme.position (.expected "`,` or `]`" lexeme.token)

/-- The entries of a map and its closing brace. -/
def entries : Nat → Parse (List (String × Literal))
  | 0 => return []
  | fuel + 1 => do
    let lexeme ← next
    let entry (key : String) : Parse (List (String × Literal)) := do
      discard (expect .colon)
      let value ← literal fuel
      match (← peek).token with
      | .comma =>
        discard next
        return (key, value) :: (← entries fuel)
      | .rbrace => return (key, value) :: (← entries fuel)
      | _ =>
        let lexeme ← next
        failAt lexeme.position (.expected "`,` or `\x7d`" lexeme.token)
    match lexeme.token with
    | .rbrace => return []
    | .ident key => entry key
    | .str key => entry key
    | found => failAt lexeme.position (.expected "a map key" found)

end

/-- Enough fuel for any literal, member list or item list in the text that is left. -/
def fuelOf (c : Cursor) : Nat := 2 * c.rest.length + 2

/-! ## 3. Members and items -/

/-- `use name;` -/
def use : Parse UseDecl := do
  let position ← expectKeyword "use"
  let (module, _) ← expectIdent "module name"
  discard (expect .semi)
  return ⟨module, position⟩

/-- Parameter names up to the closing parenthesis, none of them in `seen`. -/
def params : Nat → List String → Parse (List String)
  | 0, seen => return seen
  | fuel + 1, seen => do
    let (name, position) ← expectIdent "parameter name"
    if seen.contains name then failAt position (.duplicateParameter name)
    else if ← accept .comma then params fuel (seen ++ [name])
    else return seen ++ [name]

/-- The body whose opening brace has just been passed. -/
def body : Parse Body := do
  let c ← get
  match c.capture? with
  | some (body, after) =>
    set after
    return body
  | none =>
    set c.finish
    failAt c.position .unclosedBody

/-- `fn name(params) {body}` -/
def function : Parse FnDecl := do
  discard (expectKeyword "fn")
  let (name, position) ← expectIdent "function name"
  discard (expect .lparen)
  let params ← if (← peek).token == .rparen then pure [] else do params (fuelOf (← get)) []
  discard (expect .rparen)
  discard (expect .lbrace)
  let body ← body
  return ⟨name, params, body, position⟩

/-- `pub name: kind = literal;` or the same with `let`. -/
def field : Parse FieldDecl := do
  let (keyword, _) ← expectIdent "`pub` or `let`"
  let (name, position) ← expectIdent "field name"
  discard (expect .colon)
  let (word, wordPosition) ← expectIdent "field kind"
  match Field.Kind.ofKeyword? word with
  | none => failAt wordPosition (.unknownKind word)
  | some kind =>
    let default ← if ← accept .eq then do pure (some (← literal (fuelOf (← get)))) else pure none
    discard (expect .semi)
    return ⟨name, kind, keyword == "pub", default, position⟩

/-- Passes one token that no item or member starts with. -/
def unexpectedHere {α : Type} (what : String) : Parse α := do
  let lexeme ← next
  failAt lexeme.position (.expected what lexeme.token)

end Parse

/-! ## 4. Recovery -/

/-- The cursor behind a broken member: past the next semicolon, or in front of the word that starts a
    member, of the brace that closes the type, or of the end.  `depth` counts open braces. -/
def recoverMember : Nat → Nat → Cursor → Cursor
  | 0, _, c => c
  | fuel + 1, depth, c =>
    let (lexeme, after) := c.next
    match lexeme.token, depth with
    | .eof, _ => c
    | .semi, 0 => after
    | .rbrace, 0 => c
    | .ident word, 0 =>
      if ["pub", "let", "fn"].contains word then c else recoverMember fuel 0 after
    | .lbrace, d => recoverMember fuel (d + 1) after
    | .rbrace, d + 1 => recoverMember fuel d after
    | _, d => recoverMember fuel d after

/-- The cursor in front of the next word that starts an item outside braces, or of the end. -/
def recoverItem : Nat → Nat → Cursor → Cursor
  | 0, _, c => c
  | fuel + 1, depth, c =>
    let (lexeme, after) := c.next
    match lexeme.token, depth with
    | .eof, _ => c
    | .ident word, 0 =>
      if ["use", "fn", "type", "abstract"].contains word then c else recoverItem fuel 0 after
    | .lbrace, d => recoverItem fuel (d + 1) after
    | .rbrace, d => recoverItem fuel (d - 1) after
    | _, d => recoverItem fuel d after

/-! ## 5. Types and modules -/

/-- A field or a method. -/
inductive Member where
  | field (decl : FieldDecl)
  | method (decl : FnDecl)

/-- The member that starts with `t`. -/
def member (t : Token) : Parse Member :=
  if t == .ident "fn" then return .method (← Parse.function)
  else if t == .ident "pub" || t == .ident "let" then return .field (← Parse.field)
  else Parse.unexpectedHere "`pub`, `let`, `fn` or `\x7d`"

/-- What reading a list of members gives: its closing brace passed, or the end of the text. -/
structure Members where
  found : List Member
  faults : List Fault
  closed : Bool
  cursor : Cursor

/-- The members of a type up to its closing brace.  A broken member costs one fault. -/
def members : Nat → Cursor → Members
  | 0, c => ⟨[], [], false, c⟩
  | fuel + 1, c =>
    let (lexeme, after) := c.next
    match lexeme.token with
    | .rbrace => ⟨[], [], true, after⟩
    | .eof => ⟨[], [], false, c⟩
    | t =>
      match (member t).run.run c with
      | (.ok m, c) =>
        let more := members fuel c
        { more with found := m :: more.found }
      | (.error fault, c) =>
        let more := members fuel (recoverMember (Parse.fuelOf c) 0 c)
        { more with faults := fault :: more.faults }

/-- The head of a type, up to and including its opening brace. -/
def typeHead : Parse TypeDecl := do
  let isAbstract ← Parse.accept (.ident "abstract")
  discard (Parse.expectKeyword "type")
  let (name, position) ← Parse.expectIdent "type name"
  let base ← if ← Parse.accept .colon then some <$> Parse.expectIdent "base type name" else pure none
  discard (Parse.expect .lbrace)
  return ⟨name, base, isAbstract, [], [], position⟩

/-- An item of a module. -/
inductive Item where
  | use (decl : UseDecl)
  | function (decl : FnDecl)
  | type (decl : TypeDecl)

/-- An item, if it is whole, with all faults met on the way. -/
structure ItemResult where
  item : Option Item
  faults : List Fault
  cursor : Cursor

/-- A step of the parser as the result for an item. -/
def ItemResult.ofParse {α : Type} (make : α → Item) (p : Parse α) (c : Cursor) : ItemResult :=
  match p.run.run c with
  | (.ok a, c) => ⟨some (make a), [], c⟩
  | (.error fault, c) => ⟨none, [fault], c⟩

/-- A type declaration.  Without its closing brace it is dropped. -/
def typeItem (c : Cursor) : ItemResult :=
  match typeHead.run.run c with
  | (.error fault, c) => ⟨none, [fault], c⟩
  | (.ok head, c) =>
    let ms := members (Parse.fuelOf c) c
    let fields := ms.found.filterMap fun
      | .field decl => some decl
      | .method _ => none
    let methods := ms.found.filterMap fun
      | .method decl => some decl
      | .field _ => none
    if ms.closed then
      ⟨some (.type { head with fields := fields, methods := methods }), ms.faults, ms.cursor⟩
    else
      ⟨none, ms.faults ++ [⟨.unclosedType head.name, ms.cursor.peek.position⟩], ms.cursor⟩

/-- The item that starts with `t`. -/
def item (t : Token) (c : Cursor) : ItemResult :=
  if t == .ident "use" then .ofParse .use Parse.use c
  else if t == .ident "fn" then .ofParse .function Parse.function c
  else if t == .ident "type" || t == .ident "abstract" then typeItem c
  else .ofParse .use (Parse.unexpectedHere "`use`, `fn` or `type`") c

/-- All items of a module in order, with the faults.  After an item that is not whole, reading goes on
    at the next start of an item. -/
def itemsFrom : Nat → Cursor → List Item × List Fault
  | 0, _ => ([], [])
  | fuel + 1, c =>
    let lexeme := c.peek
    if lexeme.token == .eof then ([], [])
    else
      let result := item lexeme.token c
      match result.item with
      | some i =>
        let (items, faults) := itemsFrom fuel result.cursor
        (i :: items, result.faults ++ faults)
      | none =>
        let resumed := recoverItem (Parse.fuelOf result.cursor) 0 result.cursor
        let (items, faults) := itemsFrom fuel resumed
        (items, result.faults ++ faults)

/-- The tree of a list of items. -/
def Tree.ofItems (items : List Item) : Tree where
  uses := items.filterMap fun
    | .use decl => some decl
    | _ => none
  functions := items.filterMap fun
    | .function decl => some decl
    | _ => none
  types := items.filterMap fun
    | .type decl => some decl
    | _ => none

/-- The declarations of a text and its syntax errors, in the order in which they are met. -/
def parse (source : String) : Tree × List Fault :=
  let (items, faults) := itemsFrom (source.length + 1) (.ofString source)
  (Tree.ofItems items, faults)

end ScriptHost.Declaration
