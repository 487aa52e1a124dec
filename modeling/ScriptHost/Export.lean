import ScriptHost.Compiler
import ScriptHost.Files.Change

/-!
# Export — units as files

A unit is written as one file with its executable and, where it has symbols, one beside it for those.
-/

namespace ScriptHost

/-- Why a unit was not written. -/
inductive ExportError where
  | noActiveUnit
  | rejected (unit : String)
  | unwritable (path : String) (cause : FileError)
deriving DecidableEq, Inhabited

namespace ExportError

def message : ExportError → String
  | noActiveUnit => "no compiled unit is active"
  | rejected unit => s!"unit `{unit}` was rejected and has nothing to export"
  | unwritable path cause => s!"failed to write {path}: {cause.message}"

/-- The name of the sort of error. -/
def name : ExportError → String
  | noActiveUnit => "NoActiveUnit"
  | rejected _ => "Rejected"
  | unwritable .. => "Io"

end ExportError

/-- The paths of the files that were written. -/
structure Exported where
  executable : String
  symbols : Option String
deriving DecidableEq, Inhabited

/-- A step that changes files and may fail; what it did before it failed stays done. -/
abbrev FileStep := ExceptT ExportError (StateM Files)

namespace FileStep

/-- A change of files that concerns `path`. -/
def change (path : String) (f : Files → Except FileError Files) : FileStep Unit := do
  match f (← get) with
  | .ok fs => set fs
  | .error cause => throw (.unwritable path cause)

def writeFile (path : String) (bytes : List UInt8) : FileStep Unit :=
  change path (·.write path bytes)

end FileStep

namespace ScriptUnit

/-- Writes a unit below a directory under the given name. -/
def writeTo (u : ScriptUnit) (directory name : String) : FileStep Exported := do
  if !u.passed || u.executable.isEmpty then throw (.rejected u.id.text)
  FileStep.change directory (·.makeDirectories directory)
  let executable := Path.join directory (name ++ ".ksu")
  FileStep.writeFile executable u.executable
  match u.symbols with
  | none => return ⟨executable, none⟩
  | some text =>
    let path := Path.join directory (name ++ ".ksym.json")
    FileStep.writeFile path (utf8 text)
    return ⟨executable, some path⟩

/-- Writes a unit, and gives the files as they are afterwards. -/
def exportTo (u : ScriptUnit) (fs : Files) (directory name : String) :
    Except ExportError Exported × Files :=
  (u.writeTo directory name).run.run fs

end ScriptUnit

end ScriptHost
