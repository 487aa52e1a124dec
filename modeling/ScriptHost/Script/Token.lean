import ScriptHost.Text.Position

/-!
# Token — the words and signs of the script language

A token keeps the text by which it is known.  Words that the language keeps for itself are tokens of
their own kind, even where it gives them no meaning yet.
-/

namespace ScriptHost.Script

/-- What makes a text no token. -/
inductive LexFault where
  | unexpected (text : String)
  | openString
  /-- The text ends right behind a block embedded in a template. -/
  | openTail
  | badEscape (sequence : String)
  | badNumber (text : String)
  | badChar (text : String)
  | badName (text : String)
  /-- A sign of other languages, with advice. -/
  | foreign (advice : String)
deriving DecidableEq, Inhabited

def LexFault.message : LexFault → String
  | unexpected text => s!"Unexpected '{text}'"
  | openString | openTail => "Open string is not terminated"
  | badEscape sequence => s!"Invalid escape sequence: '{sequence}'"
  | badNumber text => s!"Invalid number: '{text}'"
  | badChar text => s!"Invalid character: '{text}'"
  | badName text => s!"Variable name is not proper: '{text}'"
  | foreign advice => advice

/-- A token.  A `piece` is the text of a template in front of an embedded block. -/
inductive Token where
  | int (value : Int)
  | float (value : Float)
  | char (value : Char)
  | text (value : String)
  | piece (value : String)
  | name (word : String)
  | keyword (word : String)
  | symbol (sign : String)
  | reserved (word : String)
  | fault (cause : LexFault)
  | eof
deriving DecidableEq, Inhabited

/-- A token and the place of its first character. -/
structure Lexeme where
  token : Token
  position : Text.Position
deriving DecidableEq, Inhabited

/-! ## 1. Words -/

def keywords : List String := [
  "true", "false", "let", "const", "if", "else", "switch", "do", "while", "until", "loop", "for",
  "in", "continue", "break", "fn", "private", "import", "export", "as", "return", "throw", "try",
  "catch"]

/-- Reserved words that may be called. -/
def callableWords : List String :=
  ["print", "debug", "type_of", "eval", "Fn", "call", "curry", "is_def_fn", "is_def_var", "is_shared"]

/-- Reserved words that may be called behind a dot. -/
def methodWords : List String := ["type_of", "call", "curry", "is_shared"]

def reservedWords : List String := [
  "var", "static", "shared", "goto", "match", "case", "public", "protected", "new", "use", "with",
  "is", "module", "package", "super", "thread", "spawn", "go", "sync", "async", "await", "yield",
  "default", "void", "null", "nil", "this"]

def isWordStart (c : Char) : Bool := c.isAlpha || c == '_'

def isWordPart (c : Char) : Bool := c.isAlphanum || c == '_'

/-- A name has a letter, and no digit stands in front of its first letter. -/
def isName (word : String) : Bool :=
  word.toList.all isWordPart && (word.toList.dropWhile (· == '_')).head?.any Char.isAlpha

/-- The name of the closure that starts at a place.  No word is a name like that. -/
def closureName (p : Text.Position) : String := "anon$" ++ toString p.line ++ "_" ++ toString p.column

/-- The token of a word. -/
def Token.ofWord (word : String) : Token :=
  if word == "_" then .symbol word
  else if keywords.contains word then .keyword word
  else if callableWords.contains word || reservedWords.contains word then .reserved word
  else if isName word then .name word
  else .fault (.badName word)

/-! ## 2. Signs -/

/-- Every sign of the language, longer ones in front of those that they start with. -/
def signs : List String := [
  "...", "..=", "..", "**=", "**", "*)", "*=", "*", "<<=", "<<", "<=", "<-", "<|", "<", ">>=", ">>",
  ">=", ">", "===", "==", "=>", "=", "!==", "!=", "!.", "!", "::<", "::", ":=", ":;", ":", "||", "|=",
  "|>", "|", "&&", "&=", "&", "^=", "^", "%=", "%", "?.", "??", "?[", "?", "+=", "++", "+", "-=", "->",
  "--", "-", "/=", "/", "()", "(*", "(", ")", "[", "]", "\x7b", "\x7d", "#\x7b", "# \x7b", "#!", "#",
  ";", ",", ".", "~", "@", "$"]

/-- Signs that are kept without a meaning. -/
def reservedSigns : List String :=
  ["...", "!.", "++", "--", "<|", "|>", "?", "~", "@", "$", "#", "#!"]

/-- Signs known from other languages, with the advice given about them. -/
def foreignSigns : List (String × String) := [
  ("===", "'===' is not a valid operator. This is not JavaScript! Should it be '=='?"),
  ("!==", "'!==' is not a valid operator. This is not JavaScript! Should it be '!='?"),
  ("->", "'->' is not a valid symbol. This is not C or C++!"),
  ("<-", "'<-' is not a valid symbol. This is not Go! Should it be '<='?"),
  (":=", "':=' is not a valid assignment operator. This is not Go or Pascal! Should it be simply '='?"),
  (":;", "':;' is not a valid symbol. Should it be '::'?"),
  ("::<", "'::<>' is not a valid symbol. This is not Rust! Should it be '::'?"),
  ("(*", "'(* .. *)' is not a valid comment format. This is not Pascal! Should it be '/* .. */'?"),
  ("*)", "'(* .. *)' is not a valid comment format. This is not Pascal! Should it be '/* .. */'?"),
  ("# \x7b", "'#' is not a valid symbol. Should it be '#\x7b'?")]

/-- The token of a sign. -/
def Token.ofSign (sign : String) : Token :=
  match foreignSigns.lookup sign with
  | some advice => .fault (.foreign advice)
  | none => if reservedSigns.contains sign then .reserved sign else .symbol sign

/-- Signs behind which a minus is an operator. -/
def notBeforeSign : List String := [")", "]", "\x7d", "()", ".", "?.", "?[", "#\x7b", "_", "::"]

/-- Whether a minus in front of digits behind this token belongs to the number. -/
def Token.allowsSign : Token → Bool
  | .fault _ => true
  | .keyword word => ["if", "while", "until", "in", "return", "throw"].contains word
  | .symbol sign => !(notBeforeSign.contains sign)
  | _ => false

/-- How a token is spelled in a message. -/
def Token.spelling : Token → String
  | .keyword word | .symbol word | .reserved word | .name word => word
  | .eof => "\x7bEOF\x7d"
  | _ => ""

/-- Signs that combine an operation with an assignment. -/
def assigningSigns : List String :=
  ["+=", "-=", "*=", "/=", "%=", "**=", "<<=", ">>=", "&=", "|=", "^="]

end ScriptHost.Script
