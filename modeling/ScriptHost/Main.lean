import ScriptHost.Check
import ScriptHost.Headless

/-!
# Main — the command line

`check [SCRIPT_DIR] [EXPORT_DIR]` compiles the scripts below a directory and, given a second one, writes
the unit there.  Any other arguments are those of a headless run.  The files are named on the standard
input, a path on each line, as a listing of the directory gives them; a file that is not named is not
there.  All paths are relative.
-/

namespace ScriptHost.Shell

/-! ## 1. Names of units -/

/-- Parts of a text, of the given lengths, with dashes between them. -/
def dashed : List Nat → List Char → List Char
  | [], _ => []
  | [n], cs => cs.take n
  | n :: ns, cs => cs.take n ++ '-' :: dashed ns (cs.drop n)

/-- The name of the unit with a number: random digits, which differ from unit to unit. -/
def unitName (seed : List UInt8) (serial : Nat) : String :=
  let digits := (Hash.hexText (Hash.blake3 (seed ++ utf8 (toString serial)))).toList
  let marked := digits.take 12 ++ '4' :: (digits.drop 12).take 3 ++ 'a' :: digits.drop 15
  String.ofList (dashed [8, 4, 4, 4, 12] marked)

/-! ## 2. Files -/

/-- The bytes of a file, if it can be read. -/
def bytes? (path : String) : IO (Option (List UInt8)) := do
  try
    return some (← IO.FS.readBinFile path).data.toList
  catch _ => return none

/-- A tree after a look at each of the named files. -/
def refresh (fs : Files) : List String → IO Files
  | [] => return fs
  | path :: paths => do refresh (fs.observe path (← bytes? path)) paths

/-- The lines of the standard input. -/
def inputLines : IO (List String) := do
  let text ← (← IO.getStdin).readToEnd
  return (text.splitOn "\n").filter (· != "")

/-- Writes a file of a tree, with the directories above it. -/
def store (fs : Files) (path : String) : IO Unit := do
  match fs.read path with
  | .error _ => return
  | .ok bytes =>
    match Path.parent? path with
    | some directory => if directory != "" then IO.FS.createDirAll directory
    | none => pure ()
    IO.FS.writeBinFile path ⟨bytes.toArray⟩

/-- Prints what a console holds. -/
def flush (c : Console) : IO Unit := do
  c.output.forM IO.println
  c.errors.forM IO.eprintln

/-! ## 3. Programs -/

def check (arguments : List String) (naming : Nat → String) : IO UInt32 := do
  let request := Check.Request.ofArguments arguments
  let (finished, fs) := Check.run request naming (← refresh .empty (← inputLines))
  if finished.code == 0 then request.products.forM (store fs)
  flush finished.console
  return finished.code

/-- Plays frames one after the other, with a look at the files before each. -/
def play (paths : List String) : Nat → Headless.Session → Files → IO UInt32
  | 0, _, _ => return 0
  | n + 1, s, fs => do
    let now ← refresh fs paths
    let notices := if now.nodes == fs.nodes then [] else [Notice.changed]
    match s.frame? notices now with
    | none => do
      let finished := Headless.overrun .empty
      flush finished.console
      return finished.code
    | some s => do
      flush s.console
      play paths n { s with console := .empty } now

def headless (arguments : List String) (naming : Nat → String) : IO UInt32 := do
  let stop (e : Exit) : IO UInt32 := do
    flush e.console
    return e.code
  match Arguments.empty.addAll arguments with
  | .error e => stop (Headless.badArguments e)
  | .ok a => do
    let paths ← inputLines
    let fs ← refresh .empty (a.config.getD Headless.standardConfig :: paths)
    match Headless.configure a fs with
    | .error e => stop (Headless.badConfig e)
    | .ok c =>
      match Headless.Session.start? c naming with
      | none => stop (Headless.overrun .empty)
      | some s => play paths c.harness.frames s fs

/-- Runs the program that the arguments ask for. -/
def run (arguments : List String) : IO UInt32 := do
  let seed := (← IO.getRandomBytes 16).data.toList
  match arguments with
  | "check" :: rest => check rest (unitName seed)
  | _ => headless arguments (unitName seed)

end ScriptHost.Shell

def main (arguments : List String) : IO UInt32 := ScriptHost.Shell.run arguments
