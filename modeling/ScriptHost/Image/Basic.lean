import ScriptHost.Corpus.Module
import ScriptHost.Json.Record

/-!
# Image — the executable form of a unit

An image holds every compiled function and the declarations that the table of types is rebuilt from.
-/

namespace ScriptHost

/-- Changes with the built-in base type, its hooks and the host modules; an image of another version is
    refused. -/
def hostVersion : UInt32 := 1

namespace Image

structure Function where
  name : String
  params : List String
  text : String
deriving DecidableEq, Inhabited

structure Field where
  name : String
  kind : String
  isPublic : Bool
deriving DecidableEq, Inhabited

structure TypeDecl where
  name : String
  base : Option String
  isAbstract : Bool
  path : String
  fields : List Field
  methods : List Function
deriving DecidableEq, Inhabited

structure Module where
  path : String
  functions : List Function
deriving DecidableEq, Inhabited

end Image

/-- The image of a unit. -/
structure Image where
  version : UInt32
  unit : String
  corpusHash : String
  modules : List Image.Module
  types : List Image.TypeDecl
deriving DecidableEq, Inhabited

namespace Image

def Function.ofLowered (f : Corpus.Lowered) : Function := ⟨f.name, f.params, f.text⟩

def Field.ofDecl (f : Declaration.FieldDecl) : Field := ⟨f.name, f.kind.keyword, f.isPublic⟩

def TypeDecl.ofModule (path : String) (t : Corpus.TypeModule) : TypeDecl :=
  ⟨t.decl.name, t.decl.base.map (·.1), t.decl.isAbstract, path, t.decl.fields.map Field.ofDecl,
    t.methods.map Function.ofLowered⟩

/-- The image of a corpus. -/
def ofModules (unit corpusHash : String) (ms : List Corpus.Module) : Image where
  version := hostVersion
  unit := unit
  corpusHash := corpusHash
  modules := ms.map fun m => ⟨m.path, m.functions.map Function.ofLowered⟩
  types := ms.flatMap fun m => m.types.map (TypeDecl.ofModule m.path)

/-! ## Structured text -/

def Function.toJson (f : Function) : Json :=
  .object [("name", .string f.name), ("params", .ofList Json.string f.params),
    ("lowered", .string f.text)]

def Function.ofJson? (j : Json) : Option Function := do
  let r ← j.record? ["name", "params", "lowered"]
  some ⟨← r.required 0 Json.string?, ← r.required 1 (Json.listOf Json.string?),
    ← r.required 2 Json.string?⟩

def Field.toJson (f : Field) : Json :=
  .object [("name", .string f.name), ("kind", .string f.kind), ("public", .bool f.isPublic)]

def Field.ofJson? (j : Json) : Option Field := do
  let r ← j.record? ["name", "kind", "public"]
  some ⟨← r.required 0 Json.string?, ← r.required 1 Json.string?, ← r.required 2 Json.bool?⟩

def TypeDecl.toJson (t : TypeDecl) : Json :=
  .object [("name", .string t.name), ("base", .ofOption Json.string t.base),
    ("is_abstract", .bool t.isAbstract), ("path", .string t.path),
    ("fields", .ofList Field.toJson t.fields), ("methods", .ofList Function.toJson t.methods)]

/-- The base may be missing from an object. -/
def TypeDecl.ofJson? (j : Json) : Option TypeDecl := do
  let r ← j.record? ["name", "base", "is_abstract", "path", "fields", "methods"]
  some ⟨← r.required 0 Json.string?, ← r.optional 1 none (Json.nullable Json.string?),
    ← r.required 2 Json.bool?, ← r.required 3 Json.string?, ← r.required 4 (Json.listOf Field.ofJson?),
    ← r.required 5 (Json.listOf Function.ofJson?)⟩

def Module.toJson (m : Module) : Json :=
  .object [("path", .string m.path), ("functions", .ofList Function.toJson m.functions)]

def Module.ofJson? (j : Json) : Option Module := do
  let r ← j.record? ["path", "functions"]
  some ⟨← r.required 0 Json.string?, ← r.required 1 (Json.listOf Function.ofJson?)⟩

def toJson (i : Image) : Json :=
  .object [("abi_version", .ofNat i.version.toNat), ("unit_id", .string i.unit),
    ("corpus_hash", .string i.corpusHash), ("modules", .ofList Module.toJson i.modules),
    ("types", .ofList TypeDecl.toJson i.types)]

def ofJson? (j : Json) : Option Image := do
  let r ← j.record? ["abi_version", "unit_id", "corpus_hash", "modules", "types"]
  let version ← r.required 0 (Json.nat? (1 <<< 32))
  some ⟨version.toUInt32, ← r.required 1 Json.string?, ← r.required 2 Json.string?,
    ← r.required 3 (Json.listOf Module.ofJson?), ← r.required 4 (Json.listOf TypeDecl.ofJson?)⟩

end Image

end ScriptHost
