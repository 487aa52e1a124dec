import ScriptHost.Declaration.Lexer

/-!
# Body — the text of a function between its braces

A body is taken verbatim up to the brace that closes it.  On the way string and character literals,
comments and templates are stepped over, and every word in front of `::` that does not itself stand
behind one is noted as the head of a module path.
-/

namespace ScriptHost.Declaration

open Text (Position)

/-- The head of a module path inside a body. -/
structure ModuleRef where
  name : String
  position : Position
deriving DecidableEq, Inhabited

/-- The text between the braces of a function, the place of its first character, and the module paths
    it uses. -/
structure Body where
  text : String
  position : Position
  refs : List ModuleRef
deriving DecidableEq, Inhabited

/-- Where a scan stands. -/
inductive Place where
  /-- In code; `behindPath` says that `::` was the last sign, `inWord` that a word is being passed. -/
  | code (behindPath inWord : Bool)
  | line (behindPath : Bool)
  /-- In a block comment with `depth` more around it. -/
  | block (behindPath : Bool) (depth : Nat)
  | quoted (quote : Char)
  | template
deriving DecidableEq

/-- A scan of code: the open braces of the current block, those of the blocks around it that a
    template interrupts, and the module paths met so far, last first. -/
structure Scan where
  place : Place
  depth : Nat
  outer : List Nat
  refs : List ModuleRef

namespace Scan

def initial : Scan := ⟨.code false false, 0, [], []⟩

/-- The scan in code again, not behind `::` and outside a word. -/
def inCode (s : Scan) : Scan := { s with place := .code false false }

def behindPath (s : Scan) : Bool :=
  match s.place with
  | .code b _ | .line b | .block b _ => b
  | .quoted _ | .template => false

/-- Blanks keep a path open: `m:: f` is one path. -/
def isSpace (c : Char) : Bool := isBlank c || c == '\x0c'

/-- Whether the text goes on with `::`. -/
def atPath : List Char → Bool
  | ':' :: ':' :: _ => true
  | _ => false

/-- The scan on entering a word that starts here. -/
def enterWord (s : Scan) (cs : List Char) (p : Position) : Scan :=
  let head := !s.behindPath && atPath (cs.dropWhile isWordPart)
  let refs := if head then ⟨String.ofList (cs.takeWhile isWordPart), p⟩ :: s.refs else s.refs
  { s with place := .code false true, refs := refs }

end Scan

/-- The text from the closing brace on, its place, and the module paths met, last first; `none` if
    the text ends before. -/
def scanBlock : Scan → List Char → Position → Option (List Char × Position × List ModuleRef)
  | _, [], _ => none
  | s, c :: cs, p =>
    match s.place with
    | .code behind inWord =>
      match c, cs with
      | '\x7b', cs => scanBlock { s.inCode with depth := s.depth + 1 } cs (p.step c)
      | '\x7d', cs =>
        match s.depth, s.outer with
        | d + 1, _ => scanBlock { s.inCode with depth := d } cs (p.step c)
        | 0, [] => some (c :: cs, p, s.refs)
        | 0, d :: outer =>
          scanBlock { s with place := .template, depth := d, outer := outer } cs (p.step c)
      | '/', '/' :: cs => scanBlock { s with place := .line behind } cs (p.after ['/', '/'])
      | '/', '*' :: cs => scanBlock { s with place := .block behind 0 } cs (p.after ['/', '*'])
      | '"', cs => scanBlock { s with place := .quoted c } cs (p.step c)
      | '\'', cs => scanBlock { s with place := .quoted c } cs (p.step c)
      | '`', cs => scanBlock { s with place := .template } cs (p.step c)
      | ':', ':' :: cs => scanBlock { s with place := .code true false } cs (p.after [':', ':'])
      | c, cs =>
        if inWord && isWordPart c then scanBlock s cs (p.step c)
        else if isWordStart c then scanBlock (s.enterWord (c :: cs) p) cs (p.step c)
        else if Scan.isSpace c then
          scanBlock { s with place := .code behind false } cs (p.step c)
        else scanBlock s.inCode cs (p.step c)
    | .line behind =>
      scanBlock { s with place := if c == '\n' then .code behind false else .line behind } cs (p.step c)
    | .block behind d =>
      match c, cs with
      | '/', '*' :: cs => scanBlock { s with place := .block behind (d + 1) } cs (p.after ['/', '*'])
      | '*', '/' :: cs =>
        scanBlock { s with place := match d with
          | 0 => .code behind false
          | d + 1 => .block behind d } cs (p.after ['*', '/'])
      | c, cs => scanBlock s cs (p.step c)
    | .quoted q =>
      match c, cs with
      | '\\', d :: cs => scanBlock s cs (p.after ['\\', d])
      | c, cs => scanBlock (if c == q || c == '\n' then s.inCode else s) cs (p.step c)
    | .template =>
      match c, cs with
      | '`', cs => scanBlock s.inCode cs (p.step c)
      | '$', '\x7b' :: cs =>
        scanBlock { s.inCode with depth := 0, outer := s.depth :: s.outer } cs (p.after ['$', '\x7b'])
      | c, cs => scanBlock s cs (p.step c)

/-- The cursor behind what is left of a torn character: a scan passes over it. -/
def Cursor.mend (c : Cursor) : Cursor := if c.torn then ⟨c.rest.tail, c.position, false⟩ else c

/-- What is left of a torn character, as a text shows it: each byte by itself is no character. -/
def Cursor.remnant (c : Cursor) : List Char :=
  if c.torn then List.replicate ((c.rest.head?.map Char.utf8Size).getD 1 - 1) '\uFFFD' else []

/-- Captures the body whose opening brace has just been passed; the cursor then stands behind the
    closing brace.  `none` if there is no such brace, and then the whole text is used up. -/
def Cursor.capture? (c : Cursor) : Option (Body × Cursor) := do
  let code := c.mend
  let (tail, closing, refs) ← scanBlock .initial code.rest code.position
  let taken := code.rest.take (code.rest.length - tail.length)
  some (⟨String.ofList (c.remnant ++ taken), c.position, refs.reverse⟩,
    ⟨tail.drop 1, closing.step '\x7d', false⟩)

/-- The place behind the last character of the text. -/
def Cursor.finish (c : Cursor) : Cursor := c.mend.move c.mend.rest []

@[simp] theorem Cursor.mend_of_whole {c : Cursor} (whole : c.torn = false) : c.mend = c := by
  simp [mend, whole]

@[simp] theorem Cursor.remnant_of_whole {c : Cursor} (whole : c.torn = false) : c.remnant = [] := by
  simp [remnant, whole]

end ScriptHost.Declaration
