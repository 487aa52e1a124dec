import ScriptHost.Decimal.Layout
import ScriptHost.Text.Position
import ScriptHost.Text.Quoted

/-!
# Token — the words of a declaration

Only the outer structure of a module consists of tokens; function bodies are captured as text.
-/

namespace ScriptHost.Declaration

/-- A word or sign of a declaration.  `invalid` carries the complaint about characters that form no
    token, and `eof` stands behind the last one. -/
inductive Token where
  | ident (name : String)
  | int (value : Nat)
  | float (value : Float)
  | str (value : String)
  | colon
  | semi
  | comma
  | eq
  | minus
  | hash
  | lbrace
  | rbrace
  | lparen
  | rparen
  | lbracket
  | rbracket
  | invalid (complaint : String)
  | eof
deriving DecidableEq, Inhabited

namespace Token

/-- The token as a message names it. -/
def describe : Token → String
  | ident name => s!"`{name}`"
  | int value => s!"`{value}`"
  | float value => "`" ++ Decimal.plain.write (Decimal.ofFloat value) ++ "`"
  | str value => Text.quoted value
  | colon => "`:`"
  | semi => "`;`"
  | comma => "`,`"
  | eq => "`=`"
  | minus => "`-`"
  | hash => "`#`"
  | lbrace => "`\x7b`"
  | rbrace => "`\x7d`"
  | lparen => "`(`"
  | rparen => "`)`"
  | lbracket => "`[`"
  | rbracket => "`]`"
  | invalid complaint => complaint
  | eof => "end of file"

/-- The token that a single sign stands for. -/
def ofSign? : Char → Option Token
  | ':' => some colon
  | ';' => some semi
  | ',' => some comma
  | '=' => some eq
  | '-' => some minus
  | '#' => some hash
  | '\x7b' => some lbrace
  | '\x7d' => some rbrace
  | '(' => some lparen
  | ')' => some rparen
  | '[' => some lbracket
  | ']' => some rbracket
  | _ => none

end Token

/-- A token and the place of its first character. -/
structure Lexeme where
  token : Token
  position : Text.Position
deriving DecidableEq, Inhabited

end ScriptHost.Declaration
