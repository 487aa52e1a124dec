import ScriptHost.Diagnostic
import ScriptHost.Json.Record

/-!
# Origin — where a function came from

A function is compiled from a text of its own: a header on the first line, then the body as it was
written.  An origin takes a place in that text back to the file.
-/

namespace ScriptHost

open Text (Position)

/-- The file of a function, the places of its name and of the first character of its body there, and
    how many characters stand before the body in the function's own text. -/
structure Origin where
  path : String
  declaration : Position
  body : Position
  header : Nat
deriving DecidableEq, Inhabited

namespace Origin

def location (o : Origin) : Location := .atPosition o.path o.declaration

/-- The place in the file of a place in the function's text; column zero stands for the first one. -/
def map (o : Origin) (p : Option Position) : Location :=
  match p with
  | none => o.location
  | some p =>
    let column := if p.column == 0 then 1 else p.column
    if p.line ≤ 1 then ⟨o.path, o.body.line, o.body.column + (column - (o.header + 1))⟩
    else ⟨o.path, o.body.line + p.line - 1, column⟩

theorem map_none (o : Origin) : o.map none = o.location := rfl

/-! ## Written form -/

def fieldNames : List String :=
  ["path", "decl_line", "decl_column", "body_line", "body_column", "header_len"]

def toJson (o : Origin) : Json :=
  .object (fieldNames.zip ([.string o.path] ++
    [o.declaration.line, o.declaration.column, o.body.line, o.body.column, o.header].map Json.ofNat))

def ofJson? (j : Json) : Option Origin := do
  let r ← j.record? fieldNames
  let nat (i : Nat) : Option Nat := r.required i (Json.nat? (1 <<< 64))
  some ⟨← r.required 0 Json.string?, ⟨← nat 1, ← nat 2⟩, ⟨← nat 3, ← nat 4⟩, ← nat 5⟩

end Origin

end ScriptHost
