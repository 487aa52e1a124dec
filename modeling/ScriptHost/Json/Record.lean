import ScriptHost.Json.Basic

/-!
# Record — structures with named fields in JSON

A record may be written as an object, whose unknown members are ignored and whose known members may
not be repeated, or as an array of its fields in order.
-/

namespace ScriptHost.Json

/-- The fields of a record as written, by position; `none` marks a field that is missing. -/
structure Record where
  values : List (Option Json)

/-- The record with fields `names`.  An array may stop early but not go on after the last field. -/
def record? (names : List String) : Json → Option Record
  | .object members =>
    let known := members.filter fun m => names.contains m.1
    if (known.map (·.1)).eraseDups.length == known.length then
      some ⟨names.map fun name => (known.find? (·.1 == name)).map (·.2)⟩
    else none
  | .array items =>
    if items.length ≤ names.length then
      some ⟨(items.map some) ++ List.replicate (names.length - items.length) none⟩
    else none
  | _ => none

namespace Record

/-- Field number `i`, where it is written. -/
def field? (r : Record) (i : Nat) : Option Json := (r.values[i]?).join

/-- A field that has to be there. -/
def required {α : Type} (r : Record) (i : Nat) (read : Json → Option α) : Option α :=
  (r.field? i).bind read

/-- A field that stands for `default` where it is missing. -/
def optional {α : Type} (r : Record) (i : Nat) (default : α) (read : Json → Option α) : Option α :=
  match r.field? i with
  | none => some default
  | some j => read j

end Record

/-- Null stands for nothing. -/
def nullable {α : Type} (read : Json → Option α) : Json → Option (Option α)
  | .null => some none
  | j => (read j).map some

/-- A word from a fixed choice: as a text, or as the name of an only member that is null. -/
def word? : Json → Option String
  | .string s => some s
  | .object [(s, .null)] => some s
  | _ => none

/-- Every item of an array read alike. -/
def listOf {α : Type} (read : Json → Option α) : Json → Option (List α)
  | .array items => items.mapM read
  | _ => none

end ScriptHost.Json
