import ScriptHost.Corpus.Module
import ScriptHost.Image.Basic
import ScriptHost.Json.Reader
import ScriptHost.Json.Writer

/-!
# Symbols — which function of a unit comes from where

Symbols stand beside an exported unit, as structured text, for tools that take functions back to their
files.
-/

namespace ScriptHost

/-- A function of a unit; a free function has no type. -/
structure Symbol where
  type : Option String
  function : String
  arity : Nat
  origin : Origin
deriving DecidableEq, Inhabited

/-- The symbols of a unit. -/
structure Symbols where
  version : UInt32
  unit : String
  corpusHash : String
  entries : List Symbol
deriving DecidableEq, Inhabited

namespace Symbol

def ofLowered (type : Option String) (f : Corpus.Lowered) : Symbol :=
  ⟨type, f.name, f.params.length, f.origin⟩

def toJson (s : Symbol) : Json :=
  .object [("type_name", .ofOption Json.string s.type), ("function", .string s.function),
    ("arity", .ofNat s.arity), ("origin", s.origin.toJson)]

/-- The type may be missing from an object. -/
def ofJson? (j : Json) : Option Symbol := do
  let r ← j.record? ["type_name", "function", "arity", "origin"]
  some ⟨← r.optional 0 none (Json.nullable Json.string?), ← r.required 1 Json.string?,
    ← r.required 2 (Json.nat? (1 <<< 64)), ← r.required 3 Origin.ofJson?⟩

end Symbol

namespace Symbols

/-- The symbols of a corpus: file by file, free functions first. -/
def ofModules (unit corpusHash : String) (ms : List Corpus.Module) : Symbols where
  version := hostVersion
  unit := unit
  corpusHash := corpusHash
  entries := ms.flatMap fun m =>
    m.functions.map (Symbol.ofLowered none) ++
      m.types.flatMap fun t => t.methods.map (Symbol.ofLowered (some t.decl.name))

/-- The first function of that name in a type, or among the free ones. -/
def lookup (s : Symbols) (type : Option String) (function : String) : Option Symbol :=
  s.entries.find? fun e => e.type == type && e.function == function

def toJson (s : Symbols) : Json :=
  .object [("abi_version", .ofNat s.version.toNat), ("unit_id", .string s.unit),
    ("corpus_hash", .string s.corpusHash), ("entries", .ofList Symbol.toJson s.entries)]

def ofJson? (j : Json) : Option Symbols := do
  let r ← j.record? ["abi_version", "unit_id", "corpus_hash", "entries"]
  let version ← r.required 0 (Json.nat? (1 <<< 32))
  some ⟨version.toUInt32, ← r.required 1 Json.string?, ← r.required 2 Json.string?,
    ← r.required 3 (Json.listOf Symbol.ofJson?)⟩

/-- The symbols as text. -/
def write (s : Symbols) : String := s.toJson.pretty

/-- The symbols that a text holds. -/
def read? (text : String) : Option Symbols := (Json.read? text).bind ofJson?

end Symbols

end ScriptHost
