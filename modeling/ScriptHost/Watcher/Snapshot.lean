import ScriptHost.Files.Basic

/-!
# Snapshot — which files there are and when they were changed

Two snapshots compare by path and time alone; the texts of the files play no part.
-/

namespace ScriptHost

/-- Files with the times of their last changes, in ascending order of their paths. -/
abbrev Snapshot := List (String × Stamp)

/-- What became of the files between two snapshots. -/
structure ChangeSet where
  added : List String
  modified : List String
  removed : List String
deriving DecidableEq, Inhabited

namespace ChangeSet

def size (c : ChangeSet) : Nat := c.added.length + c.modified.length + c.removed.length

def isEmpty (c : ChangeSet) : Bool := c.size == 0

end ChangeSet

namespace Snapshot

def paths (s : Snapshot) : List String := s.map (·.1)

/-- The time under a path. -/
def time? (s : Snapshot) (path : String) : Option Stamp :=
  (s.find? fun e => Path.same e.1 path).map (·.2)

/-- What led from one snapshot to the next. -/
def diff (previous current : Snapshot) : ChangeSet where
  added := (current.filter fun e => (previous.time? e.1).isNone).map (·.1)
  modified := (current.filter fun e => (previous.time? e.1).any (· != e.2)).map (·.1)
  removed := (previous.filter fun e => (current.time? e.1).isNone).map (·.1)

/-- The files with an extension among those below a directory. -/
def ofNodes (root extension : String) (recursive : Bool) (nodes : List (List String × Files.Node)) :
    Snapshot :=
  let found := nodes.filterMap fun (names, node) => do
    let time ← node.modified?
    let path := Path.join root (String.intercalate "/" names)
    if (recursive || names.length == 1) && Path.extension? path == some extension then
      some (path, time)
    else none
  found.mergeSort fun a b => Path.le a.1 b.1

end Snapshot

end ScriptHost
