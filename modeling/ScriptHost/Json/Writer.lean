import ScriptHost.Json.Basic
import ScriptHost.Text.Quoted

/-!
# Writer — JSON values as text, on one line or indented

Both forms spell strings and numbers alike; the indented form puts every item on a line of its own,
two blanks deeper than its bracket.
-/

namespace ScriptHost.Json

/-- The spelling of one character inside a string literal. -/
def escapeChar (c : Char) : List Char :=
  match c with
  | '"' => ['\\', '"']
  | '\\' => ['\\', '\\']
  | '\x08' => ['\\', 'b']
  | '\x0c' => ['\\', 'f']
  | '\n' => ['\\', 'n']
  | '\r' => ['\\', 'r']
  | '\t' => ['\\', 't']
  | c => if c.toNat < 0x20 then ['\\', 'u'] ++ (Text.hexPadded 4 c.toNat).toList else [c]

/-- A string literal. -/
def writeString (s : String) : List Char := '"' :: s.toList.flatMap escapeChar ++ ['"']

/-- `items` with `separator` between them. -/
def joinWith (separator : List Char) : List (List Char) → List Char
  | [] => []
  | [item] => item
  | item :: items => item ++ separator ++ joinWith separator items

mutual

/-- A value on one line. -/
def writeValue : Json → List Char
  | .null => ['n', 'u', 'l', 'l']
  | .bool true => ['t', 'r', 'u', 'e']
  | .bool false => ['f', 'a', 'l', 's', 'e']
  | .number n => n.write
  | .string s => writeString s
  | .broken => ['"', '"']
  | .array items => '[' :: joinWith [','] (writeItems items) ++ [']']
  | .object members => '\x7b' :: joinWith [','] (writeMembers members) ++ ['\x7d']

def writeItems : List Json → List (List Char)
  | [] => []
  | item :: items => writeValue item :: writeItems items

def writeMembers : List (String × Json) → List (List Char)
  | [] => []
  | (name, value) :: members => (writeString name ++ ':' :: writeValue value) :: writeMembers members

end

/-- A value on one line. -/
def write (j : Json) : String := String.ofList (writeValue j)

/-- A fresh line, indented to `depth`. -/
def freshLine (depth : Nat) : List Char := '\n' :: List.replicate (2 * depth) ' '

/-- Items on lines of their own between two brackets. -/
def writeBlock (opening closing : Char) (depth : Nat) (items : List (List Char)) : List Char :=
  if items.isEmpty then [opening, closing]
  else
    opening :: freshLine (depth + 1) ++ joinWith (',' :: freshLine (depth + 1)) items ++
      freshLine depth ++ [closing]

mutual

/-- A value over several lines, its first character at `depth`. -/
def prettyValue (depth : Nat) : Json → List Char
  | .array items => writeBlock '[' ']' depth (prettyItems (depth + 1) items)
  | .object members => writeBlock '\x7b' '\x7d' depth (prettyMembers (depth + 1) members)
  | .null => writeValue .null
  | .bool b => writeValue (.bool b)
  | .number n => writeValue (.number n)
  | .string s => writeValue (.string s)
  | .broken => writeValue .broken

def prettyItems (depth : Nat) : List Json → List (List Char)
  | [] => []
  | item :: items => prettyValue depth item :: prettyItems depth items

def prettyMembers (depth : Nat) : List (String × Json) → List (List Char)
  | [] => []
  | (name, value) :: members =>
    (writeString name ++ [':', ' '] ++ prettyValue depth value) :: prettyMembers depth members

end

/-- A value over several lines. -/
def pretty (j : Json) : String := String.ofList (prettyValue 0 j)

end ScriptHost.Json
