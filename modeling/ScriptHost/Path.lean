/-!
# Path — names of files, compared part by part

A path is kept as it was written, for messages show it so.  Two paths name the same file when their
components agree: repeated slashes, a slash at the end and inner `.` parts do not matter.
-/

namespace ScriptHost.Path

/-- A part of a path. -/
inductive Component where
  | root
  | current
  | parent
  | normal (name : String)
deriving DecidableEq, Inhabited

/-- The order of parts of different sorts. -/
def Component.rank : Component → Nat
  | root => 0
  | current => 1
  | parent => 2
  | normal _ => 3

/-- The order of two parts; names go by code point. -/
def Component.compare : Component → Component → Ordering
  | normal a, normal b => Ord.compare a b
  | a, b => Ord.compare a.rank b.rank

/-- The texts between slashes. -/
def segments (path : String) : List String :=
  (path.toList.splitOn '/').map String.ofList

/-- The part that a text between slashes stands for, unless it stands for none. -/
def componentOf? : String → Option Component
  | "" | "." => none
  | ".." => some .parent
  | name => some (.normal name)

/-- The parts of a path.  Only in front does `.` count. -/
def components (path : String) : List Component :=
  match segments path with
  | "" :: rest => if path.isEmpty then [] else .root :: rest.filterMap componentOf?
  | "." :: rest => .current :: rest.filterMap componentOf?
  | names => names.filterMap componentOf?

/-- Whether two paths name the same file. -/
def same (p q : String) : Bool := components p == components q

/-- The order of paths, part by part. -/
def compareParts : List Component → List Component → Ordering
  | [], [] => .eq
  | [], _ => .lt
  | _, [] => .gt
  | a :: as, b :: bs => (a.compare b).then (compareParts as bs)

def compare (p q : String) : Ordering := compareParts (components p) (components q)

def le (p q : String) : Bool := compare p q != .gt

/-- `inner` below `outer`; an absolute path stands for itself. -/
def join (outer inner : String) : String :=
  if inner.startsWith "/" || outer.isEmpty then inner
  else if outer.endsWith "/" then outer ++ inner
  else outer ++ "/" ++ inner

/-- Drops slashes and inner `.` parts at the end of a path in reverse, but not a root. -/
def trimReversed : List Char → List Char
  | ['/'] => ['/']
  | '/' :: rest => trimReversed rest
  | '.' :: '/' :: rest => trimReversed ('/' :: rest)
  | cs => cs
termination_by cs => cs.length

/-- The path without its last part; a root and the empty path have none. -/
def parent? (path : String) : Option String :=
  match (components path).getLast? with
  | none | some .root => none
  | some _ =>
    let whole := trimReversed path.toList.reverse
    some (String.ofList (trimReversed (whole.dropWhile (· != '/'))).reverse)

/-- The last part, where it is a name. -/
def fileName? (path : String) : Option String :=
  match (components path).getLast? with
  | some (.normal name) => some name
  | _ => none

/-- What stands behind the last point of a file's name; a point in front does not count. -/
def extension? (path : String) : Option String := do
  let name ← fileName? path
  let reversed := name.toList.reverse
  match reversed.dropWhile (· != '.') with
  | [] | ['.'] => none
  | _ => some (String.ofList (reversed.takeWhile (· != '.')).reverse)

end ScriptHost.Path
