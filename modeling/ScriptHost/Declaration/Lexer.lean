import ScriptHost.Decimal.Nearest
import ScriptHost.Declaration.Token

/-!
# Lexer — tokens from a text

A `Cursor` is the text that is left together with its place.  Blanks and comments are skipped in
front of a token; block comments nest.  Every step goes by recursion on the text that is left.
-/

namespace ScriptHost.Declaration

open Text (Position)

/-- The text that is left and the place of its first character.  A `torn` cursor stands inside that
    character: an unknown escape takes only the first byte of the character it names. -/
structure Cursor where
  rest : List Char
  position : Position
  torn : Bool
deriving DecidableEq, Inhabited

namespace Cursor

/-- The start of a text. -/
def ofString (s : String) : Cursor := ⟨s.toList, .start, false⟩

/-- The cursor behind `taken`, where `rest` is left. -/
def move (c : Cursor) (taken rest : List Char) : Cursor := ⟨rest, c.position.after taken, false⟩

end Cursor

/-! ## 1. Blanks and comments -/

def isBlank (c : Char) : Bool := c == ' ' || c == '\t' || c == '\n' || c == '\r'

/-- What is being skipped: blanks, a line comment, or a block comment with `depth` more around it. -/
inductive Skipping where
  | blank
  | line
  | block (depth : Nat)

/-- The cursor in front of the next token. -/
def skip : Skipping → List Char → Position → Cursor
  | _, [], p => ⟨[], p, false⟩
  | .blank, '/' :: '/' :: cs, p => skip .line cs (p.after ['/', '/'])
  | .blank, '/' :: '*' :: cs, p => skip (.block 0) cs (p.after ['/', '*'])
  | .blank, c :: cs, p => if isBlank c then skip .blank cs (p.step c) else ⟨c :: cs, p, false⟩
  | .line, c :: cs, p => skip (if c == '\n' then .blank else .line) cs (p.step c)
  | .block d, '/' :: '*' :: cs, p => skip (.block (d + 1)) cs (p.after ['/', '*'])
  | .block 0, '*' :: '/' :: cs, p => skip .blank cs (p.after ['*', '/'])
  | .block (d + 1), '*' :: '/' :: cs, p => skip (.block d) cs (p.after ['*', '/'])
  | .block d, c :: cs, p => skip (.block d) cs (p.step c)

/-- The cursor behind blanks and comments. -/
def Cursor.skipBlank (c : Cursor) : Cursor := if c.torn then c else skip .blank c.rest c.position

/-! ## 2. Words and numbers -/

def isWordStart (c : Char) : Bool := c.isAlpha || c == '_'

def isWordPart (c : Char) : Bool := c.isAlphanum || c == '_'

/-- The characters of a number and the text behind it; `fractional` says that the point is passed.
    Only after the point may an `e`, with or without a sign, follow. -/
def spanNumber : Bool → List Char → List Char × List Char
  | _, [] => ([], [])
  | fractional, c :: cs =>
    if c.isDigit || c == '_' then
      let (taken, rest) := spanNumber fractional cs
      (c :: taken, rest)
    else if c == '.' && !fractional && cs.head?.any Char.isDigit then
      let (taken, rest) := spanNumber true cs
      (c :: taken, rest)
    else if (c == 'e' || c == 'E') && fractional then
      match cs with
      | s :: ds =>
        if s == '-' || s == '+' then
          let (taken, rest) := spanNumber fractional ds
          (c :: s :: taken, rest)
        else
          let (taken, rest) := spanNumber fractional (s :: ds)
          (c :: taken, rest)
      | [] => ([c], [])
    else ([], c :: cs)

/-- The power of ten after a fraction: nothing, or one `e` with an optional sign and digits. -/
def readPower? : List Char → Option Int
  | [] => some 0
  | _ :: cs =>
    let (negative, digits) := match cs with
      | '-' :: ds => (true, ds)
      | '+' :: ds => (false, ds)
      | ds => (false, ds)
    if digits.isEmpty || !digits.all Char.isDigit then none
    else
      let n : Int := Decimal.natOfDigits digits
      some (if negative then -n else n)

/-- The double of digits, a point, digits and an optional power of ten. -/
def readFloat? (cs : List Char) : Option Float := do
  let whole := cs.takeWhile Char.isDigit
  let tail := (cs.dropWhile Char.isDigit).drop 1
  let fraction := tail.takeWhile Char.isDigit
  let power ← readPower? (tail.dropWhile Char.isDigit)
  some (Decimal.nearest (Decimal.natOfDigits (whole ++ fraction)) (power - fraction.length))

/-- The token of a number's characters; underscores between digits are left out. -/
def numberToken (taken : List Char) : Token :=
  let digits := taken.filter (· != '_')
  let text := String.ofList digits
  if digits.contains '.' then
    match readFloat? digits with
    | some x => .float x
    | none => .invalid s!"malformed number `{text}`"
  else
    let n := Decimal.natOfDigits digits
    if n < 1 <<< 63 then .int n else .invalid s!"integer `{text}` is out of range"

/-! ## 3. String literals -/

/-- The character of a one-letter escape. -/
def escape? : Char → Option Char
  | 'n' => some '\n'
  | 't' => some '\t'
  | 'r' => some '\r'
  | '0' => some '\x00'
  | '"' => some '"'
  | '\\' => some '\\'
  | _ => none

/-- The first byte of a character's encoding, as a character. -/
def leadByte (c : Char) : Char :=
  let n := c.toNat
  if n < 0x80 then c
  else if n < 0x800 then Char.ofNat (0xC0 + n / 0x40)
  else if n < 0x10000 then Char.ofNat (0xE0 + n / 0x1000)
  else Char.ofNat (0xF0 + n / 0x40000)

def unterminated : Token := .invalid "unterminated string literal"

/-- The literal whose opening quote has been passed, with its characters so far in reverse.  It ends
    at its quote, or in a complaint at the end of the line or behind an unknown escape. -/
def readString (sofar : List Char) : List Char → Position → Token × Cursor
  | [], p => (unterminated, ⟨[], p, false⟩)
  | '"' :: cs, p => (.str (String.ofList sofar.reverse), ⟨cs, p.step '"', false⟩)
  | ['\\'], p => (unterminated, ⟨[], p.step '\\', false⟩)
  | '\\' :: c :: cs, p =>
    let q := (p.step '\\').step c
    match escape? c with
    | some d => readString (d :: sofar) cs q
    | none =>
      let complaint := Token.invalid ("unknown escape `\\" ++ String.singleton (leadByte c) ++ "`")
      if c.toNat < 0x80 then (complaint, ⟨cs, q, false⟩) else (complaint, ⟨c :: cs, q, true⟩)
  | c :: cs, p =>
    if c == '\n' then (unterminated, ⟨cs, p.step c, false⟩) else readString (c :: sofar) cs (p.step c)

/-! ## 4. The next token -/

/-- The complaint about a character that starts no token. -/
def unexpected (c : Char) : Token := .invalid s!"unexpected character `{c}`"

/-- The next token and the cursor behind it.  What is left of a torn character is no character. -/
def Cursor.next (c : Cursor) : Lexeme × Cursor :=
  let c := c.skipBlank
  match c.rest with
  | [] => (⟨.eof, c.position⟩, c)
  | x :: xs =>
    let one (t : Token) : Lexeme × Cursor := (⟨t, c.position⟩, c.move [x] xs)
    if c.torn then (⟨unexpected '\uFFFD', c.position⟩, ⟨xs, c.position, false⟩)
    else
      match Token.ofSign? x with
      | some t => one t
      | none =>
        if x.isDigit then
          let (taken, rest) := spanNumber false (x :: xs)
          (⟨numberToken taken, c.position⟩, c.move taken rest)
        else if x == '"' then
          let (t, after) := readString [] xs (c.position.step x)
          (⟨t, c.position⟩, after)
        else if isWordStart x then
          let taken := (x :: xs).takeWhile isWordPart
          (⟨.ident (String.ofList taken), c.position⟩, c.move taken ((x :: xs).dropWhile isWordPart))
        else one (unexpected x)

/-- The next token, without passing it. -/
def Cursor.peek (c : Cursor) : Lexeme := c.next.1

/-- Every token of a text up to and including its end; `fuel` bounds their number. -/
def tokensFrom : Nat → Cursor → List Lexeme
  | 0, _ => []
  | fuel + 1, c =>
    let (lexeme, after) := c.next
    if lexeme.token == .eof then [lexeme] else lexeme :: tokensFrom fuel after

/-- Every token of a text up to and including its end. -/
def tokens (s : String) : List Lexeme := tokensFrom (s.length + 1) (.ofString s)

end ScriptHost.Declaration
