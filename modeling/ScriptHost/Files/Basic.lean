import ScriptHost.Path
import ScriptHost.Source

/-!
# Files — a tree of files as a value

Everything the host does with files it does to such a tree.  Links are followed on the way to a file,
and at its end too unless the link itself is meant; too many of them in a row lead nowhere.
-/

namespace ScriptHost

/-- Why a file cannot be reached, read or made. -/
inductive FileError where
  | notFound
  | exists
  | notDirectory
  | isDirectory
  | linkLoop
  | notText
deriving DecidableEq, Inhabited

def FileError.message : FileError → String
  | notFound => "No such file or directory (os error 2)"
  | .exists => "File exists (os error 17)"
  | notDirectory => "Not a directory (os error 20)"
  | isDirectory => "Is a directory (os error 21)"
  | linkLoop => "Too many levels of symbolic links (os error 40)"
  | notText => "stream did not contain valid UTF-8"

namespace Files

/-- What stands under a name. -/
inductive Node where
  | file (bytes : List UInt8) (modified : Stamp)
  | link (target : String) (modified : Stamp)
  | directory
deriving DecidableEq, Inhabited

def Node.isDirectory : Node → Bool
  | directory => true
  | _ => false

/-- When a node was last changed; a directory has no time of its own. -/
def Node.modified? : Node → Option Stamp
  | file _ t | link _ t => some t
  | directory => none

end Files

/-- A tree of files: each node under the names that lead to it from the root, the directory that
    relative paths start from, and the next tick of the clock. -/
structure Files where
  home : List String
  nodes : List (List String × Files.Node)
  tick : Nat
deriving Inhabited

namespace Files

def empty : Files := ⟨[], [], 0⟩

/-- The node under some names; the root is a directory. -/
def node? (fs : Files) (names : List String) : Option Node :=
  if names.isEmpty then some .directory else fs.nodes.lookup names

/-! ## 1. Paths -/

/-- The steps that a path takes; a slash at the end asks for a directory. -/
def steps (path : String) : List String :=
  let names := (Path.segments path).filter (· != "")
  if path.endsWith "/" && !names.isEmpty then names ++ ["."] else names

/-- How many links may be followed on one way. -/
def maxLinks : Nat := 40

/-- Where steps lead from a directory.  The last name need not be there. -/
def follow (fs : Files) (throughLast : Bool) (links : Nat) (here : List String) (way : List String) :
    Except FileError (List String) :=
  match way with
  | [] => .ok here
  | "." :: rest => follow fs throughLast links here rest
  | ".." :: rest => follow fs throughLast links here.dropLast rest
  | name :: rest =>
    let next := here ++ [name]
    match fs.node? next with
    | some .directory => follow fs throughLast links next rest
    | some (.file ..) => if rest.isEmpty then .ok next else .error .notDirectory
    | none => if rest.isEmpty then .ok next else .error .notFound
    | some (.link target _) =>
      if rest.isEmpty && !throughLast then .ok next
      else
        match links with
        | 0 => .error .linkLoop
        | links + 1 =>
          follow fs throughLast links (if target.startsWith "/" then [] else here)
            (steps target ++ rest)
termination_by (links, way.length)

/-- Where a path leads; with `throughLast` a link at its end is followed. -/
def locate (fs : Files) (throughLast : Bool) (path : String) : Except FileError (List String) :=
  if path.isEmpty then .error .notFound
  else follow fs throughLast maxLinks (if path.startsWith "/" then [] else fs.home) (steps path)

/-- What a path leads to. -/
def find? (fs : Files) (path : String) : Option Node :=
  match fs.locate true path with
  | .ok names => fs.node? names
  | .error _ => none

def contains (fs : Files) (path : String) : Bool := (fs.find? path).isSome

def isDirectory (fs : Files) (path : String) : Bool := (fs.find? path).any Node.isDirectory

/-! ## 2. Reading -/

/-- The bytes of a file. -/
def read (fs : Files) (path : String) : Except FileError (List UInt8) := do
  match fs.node? (← fs.locate true path) with
  | some (.file bytes _) => return bytes
  | some .directory => throw .isDirectory
  | some (.link ..) => throw .linkLoop
  | none => throw .notFound

/-- The text of a file. -/
def readText (fs : Files) (path : String) : Except FileError String := do
  let bytes ← fs.read path
  match String.fromUTF8? ⟨bytes.toArray⟩ with
  | some text => return text
  | none => throw .notText

/-- The names that lead to some names from a directory above them. -/
def below? (directory names : List String) : Option (List String) :=
  if directory.isPrefixOf names && directory.length < names.length then
    some (names.drop directory.length)
  else none

/-- What stands anywhere below a directory, under the names that lead there from it. -/
def list (fs : Files) (path : String) : Except FileError (List (List String × Node)) := do
  let directory ← fs.locate true path
  match fs.node? directory with
  | some .directory =>
    return fs.nodes.filterMap fun (names, node) => (below? directory names).map (·, node)
  | some _ => throw .notDirectory
  | none => throw .notFound

end Files

end ScriptHost
