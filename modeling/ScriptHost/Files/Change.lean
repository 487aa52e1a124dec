import ScriptHost.Files.Basic

/-!
# Change — writing to a tree of files
-/

namespace ScriptHost.Files

/-- Puts a node under some names, in place of the one that was there. -/
def put (fs : Files) (names : List String) (n : Node) : Files :=
  { fs with nodes := fs.nodes.filter (·.1 != names) ++ [(names, n)] }

/-- The stamp for a change that happens now, and the tree with its clock moved on. -/
def now (fs : Files) : Stamp × Files := (.tick fs.tick, { fs with tick := fs.tick + 1 })

/-- Makes one directory, whose parent has to be there. -/
def makeDirectory (fs : Files) (path : String) : Except FileError Files := do
  let names ← fs.locate false path
  if (fs.node? names).isSome then throw .exists
  return fs.put names .directory

/-- Makes a directory and those above it that are missing; `fuel` bounds their number. -/
def makeDirectoriesFrom : Nat → Files → String → Except FileError Files
  | 0, fs, _ => .ok fs
  | fuel + 1, fs, path =>
    if path.isEmpty then .ok fs
    else
      match fs.makeDirectory path with
      | .ok fs => .ok fs
      | .error .notFound => do
        let fs ← makeDirectoriesFrom fuel fs ((Path.parent? path).getD "")
        match fs.makeDirectory path with
        | .ok fs => return fs
        | .error e => if fs.isDirectory path then return fs else throw e
      | .error e => if fs.isDirectory path then .ok fs else .error e

/-- Makes a directory and those above it that are missing. -/
def makeDirectories (fs : Files) (path : String) : Except FileError Files :=
  makeDirectoriesFrom (path.length + 1) fs path

/-- Writes a file, whose directory has to be there. -/
def writeAt (fs : Files) (path : String) (bytes : List UInt8) (modified : Stamp) :
    Except FileError Files := do
  let names ← fs.locate true path
  match fs.node? names with
  | some .directory => throw .isDirectory
  | _ => return fs.put names (.file bytes modified)

/-- Writes a file now. -/
def write (fs : Files) (path : String) (bytes : List UInt8) : Except FileError Files :=
  let (stamp, fs) := fs.now
  fs.writeAt path bytes stamp

/-- Makes a link now. -/
def makeLink (fs : Files) (path target : String) : Except FileError Files := do
  let (stamp, fs) := fs.now
  let names ← fs.locate false path
  if (fs.node? names).isSome then throw .exists
  return fs.put names (.link target stamp)

/-- Removes a file or a link. -/
def remove (fs : Files) (path : String) : Except FileError Files := do
  let names ← fs.locate false path
  match fs.node? names with
  | none => throw .notFound
  | some .directory => throw .isDirectory
  | some _ => return { fs with nodes := fs.nodes.filter (·.1 != names) }

/-- Removes a directory with everything below it. -/
def removeDirectory (fs : Files) (path : String) : Except FileError Files := do
  let names ← fs.locate false path
  match fs.node? names with
  | some .directory => return { fs with nodes := fs.nodes.filter fun e => !names.isPrefixOf e.1 }
  | some _ => throw .notDirectory
  | none => throw .notFound

/-- The tree after a look at a real file: bytes that are new were written now, and a file without bytes
    is gone. -/
def observe (fs : Files) (path : String) : Option (List UInt8) → Files
  | none => (fs.remove path).toOption.getD fs
  | some bytes =>
    if (fs.read path).toOption == some bytes then fs
    else
      let written := do
        let fs ← fs.makeDirectories ((Path.parent? path).getD "")
        fs.write path bytes
      written.toOption.getD fs

end ScriptHost.Files
