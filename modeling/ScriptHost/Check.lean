import ScriptHost.Config
import ScriptHost.Console
import ScriptHost.Export

/-!
# Check — whether the scripts below a directory compile

The scripts are compiled once and the findings printed.  With a second directory the unit and its
symbols are written there.
-/

namespace ScriptHost.Check

/-- What to check, and where to write the unit. -/
structure Request where
  scripts : String
  exportTo : Option String
deriving DecidableEq, Inhabited

/-- The request that arguments make. -/
def Request.ofArguments (arguments : List String) : Request :=
  ⟨arguments.head?.getD ScriptSettings.standard.root, arguments[1]?⟩

/-- The watcher of a request: it looks below the directory at any depth. -/
def Request.watcher (r : Request) : Watcher :=
  { ScriptSettings.standard with root := r.scripts, recursive := true }.watcher

/-- The files that a request may write. -/
def Request.products (r : Request) : List String :=
  (r.exportTo.map fun directory =>
    [".ksu", ".ksym.json"].map fun ending => Path.join directory ("behaviours" ++ ending)).getD []

def say (c : Console) (text : String) : Console := c.print ("[script-check] " ++ text)

def fail (c : Console) (message : String) : Exit := ⟨1, c.complain ("Error: " ++ message)⟩

/-- The last line about a unit that is in order. -/
def confirm (c : Console) (u : ScriptUnit) : Exit :=
  ⟨0, say c s!"ok: {u.types.length} type(s), {u.tally.describe}"⟩

/-- Writes a unit where it is to go. -/
def deliver (c : Console) (u : ScriptUnit) (fs : Files) : Option String → Exit × Files
  | none => (confirm c u, fs)
  | some directory =>
    match u.exportTo fs directory "behaviours" with
    | (.error e, fs) => (fail c e.message, fs)
    | (.ok written, fs) =>
      let paths := written.executable :: written.symbols.toList
      (confirm ((paths.map ("wrote " ++ ·)).foldl say c) u, fs)

/-- Checks the scripts among some files. -/
def run (r : Request) (naming : Nat → String) (fs : Files) : Exit × Files :=
  let c := say .empty s!"compiling behaviours under '{r.scripts}'"
  match r.watcher.rescan fs with
  | .error e => (fail c e.message, fs)
  | .ok (_, w) =>
    let batch := w.load fs
    let (u, _) := (Compiler.create naming r.exportTo.isSome).compile batch
    let c := c.printAll (u.diagnostics.map Diagnostic.describe)
    if u.passed then deliver c u fs r.exportTo
    else (fail c s!"{batch.files.length} file(s) failed to compile: {u.tally.describe}", fs)

end ScriptHost.Check
