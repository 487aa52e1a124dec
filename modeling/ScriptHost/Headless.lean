import ScriptHost.Clock
import ScriptHost.CommandLine
import ScriptHost.Console
import ScriptHost.Host.Sync

/-!
# Headless — a host and a world without a window

A run has a number of frames of equal length.  In each one the attachments follow the world, the scripts
run, their commands are applied, and the things move on.  Nobody plays: there is no input.
-/

namespace ScriptHost.Headless

/-- Where the settings are unless arguments say otherwise. -/
def standardConfig : String := "config/runtime.json"

/-- A run under way. -/
structure Session where
  host : Host
  world : World
  clock : Clock
  input : FrameInput
  console : Console

namespace Session

/-- A run at its start, with the entities of the settings; there is none where a step is too long for a
    clock. -/
def start? (c : Config) (naming : Nat → String) : Option Session :=
  (Clock.fixed? c.harness.step).map fun clock =>
    { host := .create c naming
      world := c.harness.entities.foldl (fun w e => (w.spawnAs e).2) .empty
      clock := clock
      input := .empty
      console := .empty }

/-- What to say about a reload: the errors of a unit that was rejected. -/
def complaints (r : ReloadReport) : List String :=
  if r.isActivated then [] else (r.diagnostics.filter Diagnostic.isError).map Diagnostic.describe

/-- The run after one frame, unless its clock has run out. -/
def frame? (s : Session) (notices : List Notice) (fs : Files) : Option Session :=
  (s.clock.advance? 1).map fun clock =>
    let dt := clock.step.seconds
    let (_, host) := s.host.sync s.world
    let (report, host) := host.frame notices fs dt s.input.carryOver
    let (logs, host) := host.takeLogs
    let (commands, host) := host.takeCommands
    let (_, world) := s.world.applyAll commands
    { s with
      host := host
      world := world.advance dt
      clock := clock
      console := (s.console.complainAll (report.toList.flatMap complaints)).printAll logs }

/-- The run after so many frames on files that stay as they are, and whether its clock has lasted. -/
def play (fs : Files) : Nat → Session → Bool × Session
  | 0, s => (true, s)
  | n + 1, s =>
    match s.frame? [] fs with
    | none => (false, s)
    | some s => play fs n s

end Session

/-- The end of a run on which a duration did not fit. -/
def overrun (c : Console) : Exit := ⟨101, (c.complain "").complain "the time of the clock is too long"⟩

/-- The settings that arguments ask for. -/
def configure (a : Arguments) (fs : Files) : Except ConfigError Config := do
  let c ← match a.config with
    | some path => Config.load fs path
    | none => .ok (Config.loadOrStandard fs standardConfig)
  return c.override a.overrides

def badArguments (e : ArgumentError) : Exit := ⟨2, Console.empty.complain ("[cli] " ++ e.message)⟩

def badConfig (e : ConfigError) : Exit :=
  ⟨1, Console.empty.complain ("Application error: " ++ e.message)⟩

/-- A run on files that stay as they are, from its arguments to its end. -/
def run (arguments : List String) (naming : Nat → String) (fs : Files) : Exit :=
  match Arguments.empty.addAll arguments with
  | .error e => badArguments e
  | .ok a =>
    match configure a fs with
    | .error e => badConfig e
    | .ok c =>
      match Session.start? c naming with
      | none => overrun .empty
      | some s =>
        match s.play fs c.harness.frames with
        | (true, s) => ⟨0, s.console⟩
        | (false, s) => overrun s.console

end ScriptHost.Headless
