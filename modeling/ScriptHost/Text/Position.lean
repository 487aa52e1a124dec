/-!
# Position — lines and columns of a text

Both count from one.  A line ends with a newline, and every other character takes one column.
-/

namespace ScriptHost.Text

/-- A place in a text. -/
structure Position where
  line : Nat
  column : Nat
deriving DecidableEq, Inhabited

namespace Position

/-- The first character of a text. -/
def start : Position := ⟨1, 1⟩

/-- The place behind a character. -/
def step (p : Position) (c : Char) : Position :=
  if c == '\n' then ⟨p.line + 1, 1⟩ else ⟨p.line, p.column + 1⟩

/-- The place behind several characters. -/
def after (p : Position) (cs : List Char) : Position := cs.foldl step p

/-- The note about a place behind a message. -/
def note : Option Position → String
  | some p => s!" (line {p.line}, position {p.column})"
  | none => ""

@[simp] theorem after_nil (p : Position) : p.after [] = p := rfl

@[simp] theorem after_cons (p : Position) (c : Char) (cs : List Char) :
    p.after (c :: cs) = (p.step c).after cs := rfl

@[simp] theorem after_append (p : Position) (cs ds : List Char) :
    p.after (cs ++ ds) = (p.after cs).after ds := by
  simp [after, List.foldl_append]

end Position

end ScriptHost.Text
