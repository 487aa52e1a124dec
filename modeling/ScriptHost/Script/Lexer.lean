import ScriptHost.Decimal.Nearest
import ScriptHost.Script.Token
import ScriptHost.Text.Search
import ScriptHost.Text.Space

/-!
# Lexer — tokens of a script

A template is cut into pieces of text and the tokens of the blocks embedded in it; the scanner keeps
the count of open braces of every template around it.  The list of tokens ends with the end of the
text or with the first fault.
-/

namespace ScriptHost.Script

open Text (Position)

/-! ## 1. Blanks and comments -/

/-- The blanks between tokens. -/
def isBlank (c : Char) : Bool := c == ' ' || c == '\t' || c == '\n' || c == '\r' || c == '\x0c'

/-- What is being skipped: blanks, a line comment, or a block comment with `depth` more around it. -/
inductive Skipping where
  | blank
  | line
  | block (depth : Nat)

/-- The text from the next token on, and its place.  A line comment ends with either line ending. -/
def skip : Skipping → List Char → Position → List Char × Position
  | _, [], p => ([], p)
  | .blank, '/' :: '/' :: cs, p => skip .line cs (p.after ['/', '/'])
  | .blank, '/' :: '*' :: cs, p => skip (.block 0) cs (p.after ['/', '*'])
  | .blank, c :: cs, p => if isBlank c then skip .blank cs (p.step c) else (c :: cs, p)
  | .line, '\r' :: '\n' :: cs, p => skip .blank cs (p.step '\n')
  | .line, c :: cs, p =>
    if c == '\n' || c == '\r' then skip .blank cs (p.step '\n') else skip .line cs (p.step c)
  | .block d, '/' :: '*' :: cs, p => skip (.block (d + 1)) cs (p.after ['/', '*'])
  | .block 0, '*' :: '/' :: cs, p => skip .blank cs (p.after ['*', '/'])
  | .block (d + 1), '*' :: '/' :: cs, p => skip (.block d) cs (p.after ['*', '/'])
  | .block d, c :: cs, p => skip (.block d) cs (p.step c)

/-! ## 2. Numbers -/

/-- The digits of a radix that a letter behind a zero announces. -/
def radix? (c : Char) : Option Nat :=
  if c == 'x' || c == 'X' then some 16
  else if c == 'o' || c == 'O' then some 8
  else if c == 'b' || c == 'B' then some 2
  else none

/-- The value of a digit to base sixteen. -/
def hexValue? (c : Char) : Option Nat :=
  if c.isDigit then some (c.toNat - '0'.toNat)
  else if 'a' ≤ c && c ≤ 'f' then some (c.toNat - 'a'.toNat + 10)
  else if 'A' ≤ c && c ≤ 'F' then some (c.toNat - 'A'.toNat + 10)
  else none

def isDigitOf (radix : Nat) (c : Char) : Bool := (hexValue? c).any (· < radix)

/-- Whether a point in front of this text belongs to the number: in front of a digit, or of a sign
    other than a further point. -/
def pointBelongs : List Char → Bool
  | c :: _ => c.isDigit || !(isWordStart c || c == '.')
  | [] => false

/-- The text of a number without underscores, and what is left behind it.  One point and one power of
    ten may follow the digits, no point behind the power; a point without digits behind it counts as a
    fraction of zero. -/
def spanDecimal (pointAllowed powerAllowed : Bool) : List Char → List Char × List Char
  | [] => ([], [])
  | '_' :: cs => spanDecimal pointAllowed powerAllowed cs
  | '.' :: cs =>
    if pointAllowed && cs.head?.any Char.isDigit then
      let (taken, rest) := spanDecimal false powerAllowed cs
      ('.' :: taken, rest)
    else if pointAllowed && pointBelongs cs then (['.', '0'], cs)
    else ([], '.' :: cs)
  | 'e' :: d :: cs =>
    if powerAllowed && d.isDigit then
      let (taken, rest) := spanDecimal false false (d :: cs)
      ('e' :: taken, rest)
    else if powerAllowed && (d == '+' || d == '-') then
      let (taken, rest) := spanDecimal false false cs
      ('e' :: d :: taken, rest)
    else ([], 'e' :: d :: cs)
  | c :: cs =>
    if c.isDigit then
      let (taken, rest) := spanDecimal pointAllowed powerAllowed cs
      (c :: taken, rest)
    else ([], c :: cs)

/-- The digits of a number to another base without underscores, and what is left behind them. -/
def spanDigits (radix : Nat) : List Char → List Char × List Char
  | [] => ([], [])
  | c :: cs =>
    if c == '_' then spanDigits radix cs
    else if isDigitOf radix c then
      let (taken, rest) := spanDigits radix cs
      (c :: taken, rest)
    else ([], c :: cs)

/-- The double that digits with at most one point and one power of ten stand for. -/
def readFloat? (cs : List Char) : Option Float := do
  let whole := cs.takeWhile Char.isDigit
  let tail := cs.dropWhile Char.isDigit
  let (fraction, tail) := match tail with
    | '.' :: ds => (ds.takeWhile Char.isDigit, ds.dropWhile Char.isDigit)
    | ds => ([], ds)
  let power : Int ← match tail with
    | [] => some 0
    | 'e' :: '-' :: ds =>
      if !ds.isEmpty && ds.all Char.isDigit then some (-(Decimal.natOfDigits ds : Int)) else none
    | 'e' :: '+' :: ds =>
      if !ds.isEmpty && ds.all Char.isDigit then some (Decimal.natOfDigits ds : Int) else none
    | 'e' :: ds =>
      if !ds.isEmpty && ds.all Char.isDigit then some (Decimal.natOfDigits ds : Int) else none
    | _ => none
  if whole.isEmpty && fraction.isEmpty then none
  else some (Decimal.nearest (Decimal.natOfDigits (whole ++ fraction)) (power - fraction.length))

/-- The token of a decimal number: an integer of 64 bits, or else a double. -/
def decimalToken (negative : Bool) (taken : List Char) : Token :=
  let n : Int := Decimal.natOfDigits taken
  let value := if negative then -n else n
  if taken.all Char.isDigit && -(1 <<< 63) ≤ value && value < 1 <<< 63 then .int value
  else
    match readFloat? taken with
    | some x => .float (if negative then -x else x)
    | none => .fault (.badNumber (String.ofList (if negative then '-' :: taken else taken)))

/-- The token of digits to another base, which `letter` announced: they spell the bits of an integer,
    and no sign may stand in front of them. -/
def radixToken (negative : Bool) (letter : Char) (radix : Nat) (taken : List Char) : Token :=
  let bits := taken.foldl (fun n c => n * radix + (hexValue? c).getD 0) 0
  if negative then .fault (.badNumber (String.ofList (letter :: taken)))
  else if taken.isEmpty || 1 <<< 64 ≤ bits then .fault (.badNumber (String.ofList taken))
  else .int (Int.bmod bits (1 <<< 64))

/-- The token of a number that starts here, and the text behind it. -/
def numberToken (negative : Bool) (cs : List Char) : Token × List Char :=
  let decimal :=
    let (taken, rest) := spanDecimal true true cs
    (decimalToken negative taken, rest)
  match cs with
  | '0' :: tail =>
    match tail.dropWhile (· == '_') with
    | letter :: digits =>
      match radix? letter with
      | some radix =>
        let (taken, rest) := spanDigits radix digits
        (radixToken negative letter radix taken, rest)
      | none => decimal
    | [] => decimal
  | _ => decimal

/-! ## 3. Quoted text -/

/-- How quoted text is read. -/
inductive Quoting where
  /-- Between double quotes: escapes, and a line may be continued. -/
  | line (column : Nat)
  /-- Between single quotes: escapes, one line. -/
  | single
  /-- A template: no escapes, any number of lines, embedded blocks. -/
  | template
deriving DecidableEq

def Quoting.mark : Quoting → Char
  | line _ => '"'
  | single => '\''
  | template => '`'

/-- How quoted text ends. -/
inductive TextEnd where
  | closed
  | embeds
  | fault (cause : LexFault) (position : Position)

/-- What reading quoted text gives: its characters, how it ends, and what is left. -/
structure Quoted where
  chars : List Char
  ending : TextEnd
  rest : List Char
  position : Position

def Quoted.cons (c : Char) (q : Quoted) : Quoted := { q with chars := c :: q.chars }

/-- The character of a one-letter escape. -/
def escape? : Char → Option Char
  | 't' => some '\t'
  | 'n' => some '\n'
  | 'r' => some '\r'
  | '\\' => some '\\'
  | _ => none

/-- The number of digits behind a letter that announces a code point. -/
def codePointDigits? : Char → Option Nat
  | 'x' => some 2
  | 'u' => some 4
  | 'U' => some 8
  | _ => none

/-- The character of hexadecimal digits. -/
def charOfHex? (ds : List Char) : Option Char := do
  let values ← ds.mapM hexValue?
  let n := values.foldl (fun n d => 16 * n + d) 0
  if n < 0xD800 || (0xDFFF < n && n < 0x110000) then some (Char.ofNat n) else none

/-- The characters behind a letter that announces a code point of `n` digits: the digits, or those up to
    and with the first character that is none. -/
def codePointText : (n : Nat) → List Char → List Char
  | 0, _ | _, [] => []
  | n + 1, c :: cs => if isDigitOf 16 c then c :: codePointText n cs else [c]

/-- Reads text up to its closing mark, which stands for itself where it is doubled.  `start` is the
    place of the opening mark; below column `indent` blanks are skipped behind a continued line. -/
def readText (quoting : Quoting) (start : Position) :
    (indent : Nat) → List Char → Position → Quoted
  | _, [], p => ⟨[], .fault .openString start, [], p⟩
  | _, '\\' :: c :: cs, p =>
    if quoting == .template then (readText quoting start 0 (c :: cs) (p.step '\\')).cons '\\'
    else
      let q := (p.step '\\').step c
      if c == quoting.mark then (readText quoting start 0 cs q).cons c
      else
        match escape? c with
        | some d => (readText quoting start 0 cs q).cons d
        | none =>
          match codePointDigits? c with
          | some n =>
            let digits := codePointText n cs
            match if digits.length == n then charOfHex? digits else none with
            | some d => (readText quoting start 0 (cs.drop n) (q.after digits)).cons d
            | none =>
              let last := (p.step '\\').after (c :: digits).dropLast
              ⟨[], .fault (.badEscape (String.ofList ('\\' :: c :: digits))) last, cs, q⟩
          | none =>
            match quoting with
            | .line column =>
              if c == '\n' then readText quoting start (column + 1) cs q
              else ⟨[], .fault (.badEscape (String.ofList ['\\', c])) (p.step '\\'), cs, q⟩
            | _ => ⟨[], .fault (.badEscape (String.ofList ['\\', c])) (p.step '\\'), cs, q⟩
  | indent, c :: cs, p =>
    if quoting == .template && c == '$' && cs.head? == some '\x7b' then
      ⟨[], .embeds, cs, p.step c⟩
    else if c == quoting.mark then
      match cs with
      | d :: ds =>
        if d == c then (readText quoting start 0 ds ((p.step c).step d)).cons c
        else ⟨[], .closed, d :: ds, p.step c⟩
      | [] => ⟨[], .closed, [], p.step c⟩
    else if c == '\n' && quoting != .template then
      ⟨[], .fault .openString start, cs, p⟩
    else if c == '\r' && cs.head? == some '\n' then readText quoting start indent cs (p.step c)
    else if Text.isSpace c && p.column < indent then readText quoting start indent cs (p.step c)
    else (readText quoting start 0 cs (p.step c)).cons c
termination_by _ cs => cs.length
decreasing_by all_goals simp_wf <;> grind

/-- Reads raw text, which opens with `hashes` hash signs and a quote and closes the other way round;
    nothing in it has a meaning of its own. -/
def readRaw (hashes : Nat) (cs : List Char) (p : Position) : Quoted :=
  let marks := List.replicate hashes '#'
  let q := p.after marks
  match cs.drop hashes with
  | '"' :: body =>
    match Text.cut? ('"' :: marks) body with
    | some (taken, rest) => ⟨taken, .closed, rest, q.after ('"' :: taken ++ '"' :: marks)⟩
    | none => ⟨[], .fault .openString q, [], q⟩
  | c :: rest => ⟨[], .fault (.unexpected (String.singleton c)) p, rest, q⟩
  | [] => ⟨[], .fault .openString p, [], q⟩

/-! ## 4. The next token -/

/-- Where a scan stands.  `signed` says that a minus may belong to a number, `inText` that the text of
    a template goes on; `depth` counts the open braces of the innermost embedded block and `outer`
    those of the blocks around it. -/
structure Scanner where
  rest : List Char
  position : Position
  signed : Bool
  inText : Bool
  depth : Nat
  outer : List Nat

def Scanner.ofString (s : String) : Scanner := ⟨s.toList, .start, true, false, 0, []⟩

/-- The longest sign that the text starts with. -/
def sign? (cs : List Char) : Option String :=
  signs.find? fun s => s.toList.isPrefixOf cs

/-- Whether the text goes on with the word `in` of the sign `!in`. -/
def startsNotIn : List Char → Bool
  | '!' :: 'i' :: 'n' :: cs => !cs.head?.any isWordPart
  | _ => false

namespace Scanner

/-- The scanner behind the characters `taken` with the token `t`. -/
def emit (s : Scanner) (t : Token) (start : Position) (taken rest : List Char) : Lexeme × Scanner :=
  (⟨t, start⟩, { s with rest := rest, position := start.after taken, signed := t.allowsSign })

/-- The token of quoted text that opened at `start`. -/
def emitText (s : Scanner) (make : List Char → Token) (start : Position) (q : Quoted) :
    Lexeme × Scanner :=
  let after := { s with rest := q.rest, position := q.position, signed := false }
  match q.ending with
  | .closed => (⟨make q.chars, start⟩, after)
  | .embeds =>
    (⟨.piece (String.ofList q.chars), start⟩,
      { after with depth := 0, outer := s.depth :: s.outer })
  | .fault cause p => (⟨.fault cause, p⟩, after)

/-- A character between single quotes. -/
def charToken : List Char → Token
  | [c] => .char c
  | cs => .fault (.badChar (String.ofList cs))

/-- The scanner behind the sign `t`, with open braces counted. -/
def count (t : Token) (r : Lexeme × Scanner) : Lexeme × Scanner :=
  let s := r.2
  match t, s.depth, s.outer with
  | .symbol "\x7b", d, _ => (r.1, { s with depth := d + 1 })
  | .symbol "#\x7b", d, _ => (r.1, { s with depth := d + 1 })
  | .symbol "\x7d", 1, d :: outer => (r.1, { s with depth := d, outer := outer, inText := true })
  | .symbol "\x7d", d + 1, _ => (r.1, { s with depth := d })
  | _, _, _ => r

def textToken (cs : List Char) : Token := .text (String.ofList cs)

/-- The token that starts with `c` at `p`, in front of `cs`. -/
def tokenAt (s : Scanner) (p : Position) (c : Char) (cs : List Char) : Lexeme × Scanner :=
  let rest := c :: cs
  if c.isDigit then
    let (t, left) := numberToken false rest
    s.emit t p (rest.take (rest.length - left.length)) left
  else if c == '-' && s.signed && cs.head?.any Char.isDigit then
    let (t, left) := numberToken true cs
    s.emit t p (rest.take (rest.length - left.length)) left
  else if c == '"' then s.emitText textToken p (readText (.line p.column) p 0 cs (p.step c))
  else if c == '\'' then
    if cs.head? == some '\'' then s.emit (.fault (.badChar "")) p [c] cs
    else s.emitText charToken p (readText .single p 0 cs (p.step c))
  else if c == '`' then
    let (skipped, body) := match cs with
      | '\r' :: '\n' :: ds => (['\r', '\n'], ds)
      | '\n' :: ds => (['\n'], ds)
      | ds => ([], ds)
    s.emitText textToken p (readText .template p 0 body ((p.step c).after skipped))
  else if c == '#' && cs.head?.any (fun d => d == '#' || d == '"') then
    s.emitText textToken p (readRaw (rest.takeWhile (· == '#')).length rest p)
  else if isWordStart c then
    let word := rest.takeWhile isWordPart
    s.emit (.ofWord (String.ofList word)) p word (rest.dropWhile isWordPart)
  else if startsNotIn rest then s.emit (.symbol "!in") p (rest.take 3) (rest.drop 3)
  else
    match sign? rest with
    | some sign => count (.ofSign sign) (s.emit (.ofSign sign) p sign.toList (rest.drop sign.length))
    | none => s.emit (.fault (.unexpected (String.singleton c))) p [c] cs

/-- The next token and the scanner behind it. -/
def next (s : Scanner) : Lexeme × Scanner :=
  if s.inText && s.rest.isEmpty then
    (⟨.fault .openTail, s.position⟩, { s with inText := false })
  else if s.inText then
    { s with inText := false }.emitText textToken s.position
      (readText .template s.position 0 s.rest s.position)
  else
    match skip .blank s.rest s.position with
    | ([], p) => (⟨.eof, p⟩, { s with rest := [], position := p })
    | (c :: cs, p) => s.tokenAt p c cs

end Scanner

/-- Whether a token ends the list of tokens. -/
def Token.isLast : Token → Bool
  | .eof | .fault _ => true
  | _ => false

/-- The tokens from here on; `fuel` bounds their number. -/
def tokensFrom : Nat → Scanner → List Lexeme
  | 0, _ => []
  | fuel + 1, s =>
    let (lexeme, after) := s.next
    if lexeme.token.isLast then [lexeme] else lexeme :: tokensFrom fuel after

/-- The tokens of a script.  A text has no more tokens than characters, but for the empty end of a
    template and the end of the text. -/
def tokens (s : String) : List Lexeme := tokensFrom (2 * s.length + 2) (.ofString s)

end ScriptHost.Script
