import ScriptHost.Corpus.Link
import ScriptHost.Image.Codec
import ScriptHost.Path
import ScriptHost.Symbols

/-!
# Compiler — from the files of a corpus to a unit

A unit is active when nothing that was found is an error; only then does it carry programs, an
executable and symbols.  Files are read one by one, and what was read is kept for as long as a file of
that path with that text belongs to the corpus.
-/

namespace ScriptHost

open Corpus (Module ScriptType)

/-! ## 1. Units -/

/-- The identity of a unit: its number among those of its compiler, and its name in messages. -/
structure UnitId where
  serial : Nat
  text : String
deriving DecidableEq, Inhabited

/-- A compiled corpus.  The executable of a rejected unit is empty. -/
structure ScriptUnit where
  id : UnitId
  corpusHash : String
  diagnostics : List Diagnostic
  executable : List UInt8
  symbols : Option String
  types : List ScriptType
  isActive : Bool
deriving Inhabited

namespace ScriptUnit

def passed (u : ScriptUnit) : Bool := Diagnostic.passes u.diagnostics

def findType? (u : ScriptUnit) (name : String) : Option ScriptType := u.types.find? (·.name == name)

def tally (u : ScriptUnit) : Tally := Diagnostic.tally u.diagnostics

def errors (u : ScriptUnit) : List Diagnostic := u.diagnostics.filter Diagnostic.isError

end ScriptUnit

/-! ## 2. The files that were read -/

/-- A file that was read, with the digest of its text. -/
structure CachedModule where
  path : SourcePath
  digest : List UInt8
  module : Module
deriving Inhabited

namespace CachedModule

/-- The file under that path, if there is one. -/
def find? (cache : List CachedModule) (path : SourcePath) : Option CachedModule :=
  cache.find? fun c => c.path.same path

/-- Puts a file in place of the one under the same path. -/
def put (cache : List CachedModule) (c : CachedModule) : List CachedModule :=
  cache.filter (fun d => !d.path.same c.path) ++ [c]

/-- What is kept of a file that is read now. -/
def ofSource (f : Source) : CachedModule :=
  ⟨f.path, contentDigest f.content, Module.read f.path.shown f.content⟩

/-- Whether the file was read from this path and this text. -/
def covers (c : CachedModule) (f : Source) : Bool :=
  c.path.same f.path && c.digest == contentDigest f.content

/-- Reads a file unless it was read with the same text before. -/
def load (cache : List CachedModule) (f : Source) : Module × List CachedModule :=
  match (find? cache f.path).filter (·.covers f) with
  | some c => (c.module, cache)
  | none =>
    let c := ofSource f
    (c.module, put cache c)

/-- Reads files in order. -/
def loadAll (cache : List CachedModule) : List Source → List Module × List CachedModule
  | [] => ([], cache)
  | f :: fs =>
    let (m, cache) := load cache f
    let (ms, cache) := loadAll cache fs
    (m :: ms, cache)

/-- Forgets the files that do not belong to the corpus. -/
def retain (cache : List CachedModule) (files : List Source) : List CachedModule :=
  cache.filter fun c => files.any fun f => f.path.same c.path

end CachedModule

/-! ## 3. Compiling -/

/-- A compiler and the files it has read.  `naming` gives the names of its units. -/
structure Compiler where
  debugSymbols : Bool
  naming : Nat → String
  serial : Nat
  cache : List CachedModule

namespace Compiler

def create (naming : Nat → String) (debugSymbols : Bool) : Compiler := ⟨debugSymbols, naming, 0, []⟩

/-- The place that the summary of a unit is about: the directory of the first file. -/
def summaryLocation (files : List Source) : Location :=
  .fileStart (((files.head?).bind fun f => Path.parent? f.path.shown).getD ".")

/-- What a unit is written as.  A unit that is not written has neither part. -/
structure Artefacts where
  executable : List UInt8
  symbols : Option String
deriving DecidableEq, Inhabited

def Artefacts.absent : Artefacts := ⟨[], none⟩

/-- Writes a unit.  A path that is no text has no written form. -/
def emit (id : UnitId) (debugSymbols : Bool) (files : List Source) (ms : List Module) :
    Except Diagnostic Artefacts :=
  let corpusHash := Source.corpusHash files
  if files.all (·.path.isText) then
    .ok ⟨(Image.ofModules id.text corpusHash ms).encode,
      if debugSymbols then some (Symbols.ofModules id.text corpusHash ms).write else none⟩
  else .error ⟨.emitFailure, .fileStart ((files.head?.map (·.path.shown)).getD ".")⟩

/-- The unit of some files that have been read. -/
def build (id : UnitId) (debugSymbols : Bool) (files : List Source) (notes : List Diagnostic)
    (ms : List Module) : ScriptUnit :=
  let frontEnd := notes ++ ms.flatMap (·.diagnostics)
  let linked := Corpus.link ms (Diagnostic.passes frontEnd)
  let checked := frontEnd ++ linked.diagnostics
  let emitted :=
    if Diagnostic.passes checked then emit id debugSymbols files ms else .ok Artefacts.absent
  let (artefacts, refused) := match emitted with
    | .ok a => (a, [])
    | .error d => (Artefacts.absent, [d])
  let found := checked ++ refused
  let passed := Diagnostic.passes found
  let summary : Diagnostic :=
    ⟨.unitSummary id.text files.length linked.types.length (Diagnostic.tally found),
      summaryLocation files⟩
  { id, corpusHash := Source.corpusHash files
    diagnostics := found ++ [summary]
    executable := artefacts.executable
    symbols := artefacts.symbols
    types := if passed then linked.types else linked.types.map ScriptType.withoutProgram
    isActive := passed }

/-- Compiles a corpus; `batch.notes` lead the diagnostics. -/
def compile (c : Compiler) (batch : Batch) : ScriptUnit × Compiler :=
  let (ms, cache) := CachedModule.loadAll c.cache batch.files
  let id : UnitId := ⟨c.serial, c.naming c.serial⟩
  (build id c.debugSymbols batch.files batch.notes ms,
    { c with serial := c.serial + 1, cache := CachedModule.retain cache batch.files })

end Compiler

end ScriptHost
