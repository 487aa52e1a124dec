import ScriptHost.Proofs.Json.Reader
import ScriptHost.Proofs.Json.Record
import ScriptHost.Symbols

/-!
# Symbols — the written form is read back

Symbols whose numbers fit their types are read back from their text, whatever the characters of their names and
paths are; so two different values never have the same text.
-/

namespace ScriptHost

open Json (Readable isBlank)

variable {o : Origin} {e : Symbol} {s t : Symbols}

/-! ## 1. Origins -/

/-- The numbers of an origin, in the order in which they are written. -/
def Origin.numbers (o : Origin) : List Nat :=
  [o.declaration.line, o.declaration.column, o.body.line, o.body.column, o.header]

/-- Every number of the origin fits 64 bits. -/
def Origin.Fits (o : Origin) : Prop := ∀ n ∈ o.numbers, n < 1 <<< 64

instance (o : Origin) : Decidable o.Fits := inferInstanceAs (Decidable (∀ n ∈ _, _))

/-- The fields of an origin as written. -/
def Origin.fields (o : Origin) : List Json := [.string o.path] ++ o.numbers.map .ofNat

theorem Json.readable_ofNat (n : Nat) : Readable (.ofNat n) := .whole n

theorem Origin.readable_toJson (o : Origin) : Readable o.toJson := by
  apply Readable.object
  simp [fieldNames, Readable.string, Json.readable_ofNat]

theorem Origin.ofJson?_toJson (fits : o.Fits) : Origin.ofJson? o.toJson = some o := by
  have record : Json.record? fieldNames o.toJson = some (.full o.fields) :=
    Json.record?_object o.fields (by decide) rfl
  have path : (Json.Record.full o.fields).required 0 Json.string? = some o.path := rfl
  have number {i n : Nat} (field : o.numbers[i]? = some n) :
      (Json.Record.full o.fields).required (i + 1) (Json.nat? (1 <<< 64)) = some n := by
    have written : (Json.Record.full o.fields).field? (i + 1) = some (.ofNat n) := by
      simp [Json.Record.field?, Json.Record.full, fields, field]
    rw [Json.Record.required, written]
    exact Json.nat?_ofNat (fits n (List.mem_of_getElem? field))
  have line := number (i := 0) rfl
  have column := number (i := 1) rfl
  have bodyLine := number (i := 2) rfl
  have bodyColumn := number (i := 3) rfl
  have header := number (i := 4) rfl
  simp only [Nat.zero_add, Nat.reduceAdd] at line column bodyLine bodyColumn header
  simp only [ofJson?, record, path, line, column, bodyLine, bodyColumn, header, Option.bind_eq_bind,
    Option.bind_some]

/-! ## 2. Symbols -/

/-- Every number of the symbol fits 64 bits. -/
structure Symbol.Fits (e : Symbol) : Prop where
  arity : e.arity < 1 <<< 64
  origin : e.origin.Fits

instance (e : Symbol) : Decidable e.Fits :=
  decidable_of_iff (e.arity < 1 <<< 64 ∧ e.origin.Fits) ⟨fun h => ⟨h.1, h.2⟩, fun h => ⟨h.1, h.2⟩⟩

theorem Symbol.readable_toJson (e : Symbol) : Readable e.toJson := by
  have type : Readable (.ofOption Json.string e.type) := by
    cases e.type with
    | none => exact .null
    | some name => exact .string name
  apply Readable.object
  simp [type, Readable.string, Json.readable_ofNat, Origin.readable_toJson]

/-- The fields of a symbol as written. -/
def Symbol.fields (e : Symbol) : List Json :=
  [.ofOption Json.string e.type, .string e.function, .ofNat e.arity, e.origin.toJson]

theorem Symbol.ofJson?_toJson (fits : e.Fits) : Symbol.ofJson? e.toJson = some e := by
  have record : Json.record? ["type_name", "function", "arity", "origin"] e.toJson = some (.full e.fields) :=
    Json.record?_object e.fields (by decide) rfl
  have type : (Json.Record.full e.fields).optional 0 none (Json.nullable Json.string?) = some e.type :=
    Json.nullable_ofOption fun _ _ => ⟨rfl, Json.noConfusion⟩
  have function : (Json.Record.full e.fields).required 1 Json.string? = some e.function := rfl
  have arity : (Json.Record.full e.fields).required 2 (Json.nat? (1 <<< 64)) = some e.arity :=
    Json.nat?_ofNat fits.arity
  have origin : (Json.Record.full e.fields).required 3 Origin.ofJson? = some e.origin :=
    Origin.ofJson?_toJson fits.origin
  simp only [ofJson?, record, type, function, arity, origin, Option.bind_eq_bind, Option.bind_some]

/-- Every number of the symbols fits its type. -/
def Symbols.Fits (s : Symbols) : Prop := ∀ e ∈ s.entries, e.Fits

instance (s : Symbols) : Decidable s.Fits := inferInstanceAs (Decidable (∀ e ∈ _, _))

namespace Symbols

theorem readable_toJson (s : Symbols) : Readable s.toJson := by
  have entries : Readable (.ofList Symbol.toJson s.entries) :=
    .array (List.forall_mem_map.mpr fun e _ => e.readable_toJson)
  apply Readable.object
  simp [entries, Readable.string, Json.readable_ofNat]

/-- The fields of the symbols as written. -/
def fields (s : Symbols) : List Json :=
  [.ofNat s.version.toNat, .string s.unit, .string s.corpusHash, .ofList Symbol.toJson s.entries]

theorem ofJson?_toJson (fits : s.Fits) : ofJson? s.toJson = some s := by
  have record : Json.record? ["abi_version", "unit_id", "corpus_hash", "entries"] s.toJson =
      some (.full s.fields) := Json.record?_object s.fields (by decide) rfl
  have version : (Json.Record.full s.fields).required 0 (Json.nat? (1 <<< 32)) = some s.version.toNat :=
    Json.nat?_ofNat s.version.toNat_lt
  have unit : (Json.Record.full s.fields).required 1 Json.string? = some s.unit := rfl
  have corpusHash : (Json.Record.full s.fields).required 2 Json.string? = some s.corpusHash := rfl
  have entries : (Json.Record.full s.fields).required 3 (Json.listOf Symbol.ofJson?) = some s.entries :=
    Json.listOf_ofList fun e he => Symbol.ofJson?_toJson (fits e he)
  simp only [ofJson?, record, version, unit, corpusHash, entries, Option.bind_eq_bind, Option.bind_some,
    Nat.toUInt32_eq, UInt32.ofNat_toNat]

/-! ## 3. Text -/

/-- With blanks in front and behind, the symbols are read back. -/
theorem read?_write (fits : s.Fits) {before after : List Char} (blankBefore : ∀ c ∈ before, isBlank c = true)
    (blankAfter : ∀ c ∈ after, isBlank c = true) :
    read? (String.ofList before ++ s.write ++ String.ofList after) = some s := by
  rw [read?, write, Json.read?_pretty s.readable_toJson blankBefore blankAfter]
  exact ofJson?_toJson fits

theorem read?_write_alone (fits : s.Fits) : read? s.write = some s := by
  simpa using read?_write fits (List.forall_mem_nil _) (List.forall_mem_nil _)

theorem eq_of_write_eq (fits : s.Fits) (fits' : t.Fits) (same : s.write = t.write) : s = t := by
  apply Option.some.inj
  rw [← read?_write_alone fits, same, read?_write_alone fits']

/-- Symbols whose numbers fit their types are read back from their text, with any blanks in front and behind, and
    no other such symbols have that text. -/
theorem write_exact (s : Symbols) (fits : s.Fits) :
    (∀ before after : List Char, (∀ c ∈ before, isBlank c = true) → (∀ c ∈ after, isBlank c = true) →
      read? (String.ofList before ++ s.write ++ String.ofList after) = some s) ∧
    ∀ t : Symbols, t.Fits → s.write = t.write → s = t := by
  constructor
  · intro before after blankBefore blankAfter
    exact read?_write fits blankBefore blankAfter
  · intro t fits' same
    exact eq_of_write_eq fits fits' same

/-- Symbols with a free function and a function of a type, whose texts hold quotes, backslashes, control characters
    and characters beyond the basic plane, and whose numbers are the largest ones. -/
def crowded : Symbols where
  version := 4294967295
  unit := "w\"\\/\x08\x0c\n\r\t\x1f\x7f"
  corpusHash := "é\u2028😀"
  entries := [
    ⟨none, "free", 0, ⟨"a\\b.lua", ⟨1, 1⟩, ⟨2, 3⟩, 4⟩⟩,
    ⟨some "\x00Type", "bound", 18446744073709551615,
      ⟨"", ⟨18446744073709551615, 0⟩, ⟨0, 18446744073709551615⟩, 18446744073709551615⟩⟩]

theorem crowded_read_back :
    crowded.Fits ∧ (∀ c ∈ ['\t', ' ', '\r', '\n'], isBlank c = true) ∧
    read? (String.ofList ['\t', ' '] ++ crowded.write ++ String.ofList ['\r', '\n']) = some crowded ∧
    ({ crowded with unit := "" } : Symbols).Fits ∧
    crowded.write ≠ ({ crowded with unit := "" } : Symbols).write := by
  have fits : crowded.Fits := by decide
  have other : ({ crowded with unit := "" } : Symbols).Fits := by decide
  obtain ⟨back, apart⟩ := write_exact crowded fits
  have blank (cs : List Char) (h : cs.all isBlank = true) : ∀ c ∈ cs, isBlank c = true := List.all_eq_true.mp h
  refine ⟨fits, blank _ (by decide), back _ _ (blank _ (by decide)) (blank _ (by decide)), other, fun same => ?_⟩
  exact absurd (apart _ other same) (by decide)

end Symbols

end ScriptHost
