import ScriptHost.Script.Library.Basic
import ScriptHost.Text.Case
import ScriptHost.Text.Search
import ScriptHost.Text.Space

/-!
# Text — library functions on texts and characters

Places in a text are counted in characters.  A character is looked for, replaced and added like a text of
its own.
-/

namespace ScriptHost.Script

/-- The characters of a text or of a character. -/
def charsOf? : Value → Option (List Char)
  | .text s => some s.toList
  | .char c => some [c]
  | _ => none

/-- The place of a part in a text from a start on, or else -1. -/
def placeOf (cs part : List Char) (start : Int) : Value :=
  let first := (spanFrom cs.length start 0).1
  if cs.length ≤ first then .int (-1)
  else .int (((Text.indexOf? part (cs.drop first)).map fun i => (first + i : Int)).getD (-1))

/-- The characters that arguments ask for. -/
def slice (cs : List Char) (start count : Int) : List Char :=
  let (first, n) := spanFrom cs.length start count
  (cs.drop first).take n

/-- A text with a part added at its end until it has `n` characters. -/
def padded (cs part : List Char) (n : Nat) : List Char :=
  cs ++ ((List.replicate (n - cs.length) part).flatten.take (n - cs.length))

/-- Values of several texts. -/
def texts (parts : List (List Char)) : Value := .array (parts.map fun cs => .text (String.ofList cs))

/-- Pieces of which the last one keeps what would make more than `n`. -/
def joinedBehind (part : List Char) (n : Nat) (pieces : List (List Char)) : List (List Char) :=
  if pieces.length ≤ n then pieces
  else pieces.take (n - 1) ++ [part.intercalate (pieces.drop (n - 1))]

/-- Functions that leave a text as it is. -/
def textQuery (name : String) (s : String) (args : List Value) : Option Value :=
  let cs := s.toList
  let ofChars (ds : List Char) : Value := .text (String.ofList ds)
  match name, args with
  | "contains", [part] => (charsOf? part).map fun p => .bool (Text.indexOf? p cs).isSome
  | "to_upper", [] => some (.text (Text.upper s))
  | "to_lower", [] => some (.text (Text.lower s))
  | "starts_with", [.text t] => some (.bool (t.toList.isPrefixOf cs))
  | "ends_with", [.text t] => some (.bool (t.toList.isSuffixOf cs))
  | "index_of", [part] => (charsOf? part).map fun p => placeOf cs p 0
  | "index_of", [part, .int start] => (charsOf? part).map fun p => placeOf cs p start
  | "sub_string", span => (spanOf? span).map fun (start, n) => ofChars (slice cs start n)
  | "get", [.int i] =>
    some (((indexFrom? cs.length i).bind fun j => cs[j]?).elim .unit .char)
  | "to_chars", [] => some (.array (cs.map .char))
  | "split", [] => some (texts (Text.words cs))
  | "split", [.int i] =>
    let place := if i < 0 then (i + cs.length).toNat else i.toNat
    some (texts [cs.take place, cs.drop place])
  | "split", [part] => (charsOf? part).map fun p => texts (Text.pieces p cs)
  | "split", [part, .int n] =>
    (charsOf? part).map fun p => texts (joinedBehind p (max 1 n.toNat) (Text.pieces p cs))
  | _, _ => none

/-- Functions that change a text: their value and what they leave. -/
def textChange (name : String) (s : String) (args : List Value) : Option (Value × String) :=
  let cs := s.toList
  let leaving (ds : List Char) : Value × String := (.unit, String.ofList ds)
  match name, args with
  | "clear", [] => some (.unit, "")
  | "trim", [] => some (leaving (Text.trim cs))
  | "make_upper", [] => some (.unit, Text.upper s)
  | "make_lower", [] => some (.unit, Text.lower s)
  | "append", [v] => some (.unit, s ++ v.printed)
  | "remove", [part] => (charsOf? part).map fun p => leaving (Text.replaceAll p [] cs)
  | "replace", [part, new] => do
    let p ← charsOf? part
    let n ← charsOf? new
    return leaving (Text.replaceAll p n cs)
  | "crop", span => (spanOf? span).map fun (start, n) => leaving (slice cs start n)
  | "truncate", [.int n] => some (leaving (cs.take n.toNat))
  | "pad", [.int n, part] => (charsOf? part).map fun p => leaving (padded cs p n.toNat)
  | "pop", [] => some (cs.getLast?.elim .unit .char, String.ofList cs.dropLast)
  | "pop", [.int n] =>
    let kept := cs.length - n.toNat
    some (.text (String.ofList (cs.drop kept)), String.ofList (cs.take kept))
  | "set", [.int i, .char c] =>
    some (leaving ((indexFrom? cs.length i).elim cs fun j => cs.set j c))
  | _, _ => none

/-- Functions on texts and characters. -/
def textFunction (name : String) (args : List Value) : Called :=
  match name, args with
  | "to_upper", [.char c] => .value (.char (Text.single Text.upperOf c))
  | "to_lower", [.char c] => .value (.char (Text.single Text.lowerOf c))
  | "make_upper", [.char c] => .change .unit (.char (Text.single Text.upperOf c))
  | "make_lower", [.char c] => .change .unit (.char (Text.single Text.lowerOf c))
  | name, .text s :: args =>
    match textQuery name s args, textChange name s args with
    | some v, _ => .value v
    | none, some (v, left) => .change v (.text left)
    | none, none => none
  | _, _ => none

end ScriptHost.Script
