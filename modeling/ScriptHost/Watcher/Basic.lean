import ScriptHost.Watcher.Nudge
import ScriptHost.Watcher.Snapshot

/-!
# Watcher — the scripts below a directory

A watcher compares what it saw last with what there is now.  The texts are read later, from the files
that it saw: one that is gone by then counts as empty, and so does one that cannot be read.
-/

namespace ScriptHost

/-- A watched directory.  `nudge` is there while notifications are on. -/
structure Watcher where
  root : String
  extension : String
  recursive : Bool
  snapshot : Snapshot
  nudge : Option Nudge
deriving Inhabited

/-- A directory that could not be looked through. -/
structure ScanError where
  directory : String
  cause : FileError
deriving DecidableEq, Inhabited

namespace ScanError

def message (e : ScanError) : String := s!"Reading '{e.directory}'"

/-- The message with its cause. -/
def describe (e : ScanError) : String := e.message ++ ": " ++ e.cause.message

end ScanError

namespace Watcher

/-- A watcher that has seen nothing; points in front of the extension do not count. -/
def create (root extension : String) (recursive : Bool) : Watcher :=
  ⟨root, String.ofList (extension.toList.dropWhile (· == '.')), recursive, [], none⟩

/-- Turns notifications on, or starts them afresh. -/
def withNotices (w : Watcher) (interval : Nat) : Watcher :=
  { w with nudge := some (.start interval) }

/-- What there is now; a directory that does not exist holds nothing. -/
def scan (w : Watcher) (fs : Files) : Except ScanError Snapshot :=
  if fs.contains w.root then
    match fs.list w.root with
    | .ok nodes => .ok (.ofNodes w.root w.extension w.recursive nodes)
    | .error cause => .error ⟨w.root, cause⟩
  else .ok []

/-- Looks for changes: a look that fails or shows none leaves the watcher as it was. -/
def look (w : Watcher) (fs : Files) : Option ChangeSet × Watcher :=
  match w.scan fs with
  | .error _ => (none, w)
  | .ok current =>
    let changes := w.snapshot.diff current
    if changes.isEmpty then (none, w) else (some changes, { w with snapshot := current })

/-- Looks for changes, unless notifications are on and there is no reason to. -/
def poll (w : Watcher) (notices : List Notice) (fs : Files) : Option ChangeSet × Watcher :=
  match w.nudge with
  | none => w.look fs
  | some n =>
    let (due, n) := n.poll notices
    let w := { w with nudge := some n }
    if due then w.look fs else (none, w)

/-- Looks in any case and takes over what it sees. -/
def rescan (w : Watcher) (fs : Files) : Except ScanError (ChangeSet × Watcher) := do
  let current ← w.scan fs
  return (w.snapshot.diff current, { w with snapshot := current })

/-- The text of a file, and the finding about one that cannot be read. -/
def loadFile (fs : Files) (path : String) : String × Option Finding :=
  match fs.readText path with
  | .ok text => (text, none)
  | .error .notFound => ("", some .sourceVanished)
  | .error e => ("", some (.sourceUnreadable e.message))

/-- Reads the files that were seen last. -/
def load (w : Watcher) (fs : Files) : Batch where
  files := w.snapshot.map fun (path, time) => ⟨.ofText path, (loadFile fs path).1, time⟩
  notes := w.snapshot.filterMap fun (path, _) =>
    (loadFile fs path).2.map fun finding => ⟨finding, .fileStart path⟩

end Watcher

end ScriptHost
