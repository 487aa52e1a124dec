import ScriptHost.Watcher.Basic
import ScriptHost.Json.Reader
import ScriptHost.Json.Record
import ScriptHost.Script.Machine

/-!
# Config — the settings of a host

Settings are structured text in four sections.  What is not written stands at its default, and names
that mean nothing here are passed over.
-/

namespace ScriptHost

/-- Where the scripts are and how they are watched and compiled. -/
structure ScriptSettings where
  root : String
  extension : String
  recursive : Bool
  useNotices : Bool
  rescanInterval : Nat
  debugSymbols : Bool
deriving DecidableEq, Inhabited

structure ReloadSettings where
  /-- Whether instances are destroyed before they are replaced. -/
  callDestroy : Bool
  maxErrors : Nat
deriving DecidableEq, Inhabited

/-- An entity to start with. -/
structure EntitySettings where
  name : String
  behaviours : List String
  translation : Option (Float32 × Float32)
deriving Inhabited

/-- A run without a window: the length of a step in seconds, how many there are, and the entities. -/
structure HarnessSettings where
  step : Float32
  frames : Nat
  entities : List EntitySettings
deriving Inhabited

structure Config where
  scripts : ScriptSettings
  reload : ReloadSettings
  limits : Script.Limits
  harness : HarnessSettings
deriving Inhabited

/-! ## 1. Defaults -/

def ScriptSettings.standard : ScriptSettings := ⟨"assets/scripts", "ks", false, false, 120, false⟩

def ReloadSettings.standard : ReloadSettings := ⟨false, 100⟩

def standardLimits : Script.Limits := ⟨500000, 64⟩

def HarnessSettings.standard : HarnessSettings := ⟨1 / 60, 600, []⟩

def Config.standard : Config := ⟨.standard, .standard, standardLimits, .standard⟩

/-! ## 2. Reading -/

def ScriptSettings.ofJson? (j : Json) : Option ScriptSettings := do
  let d := ScriptSettings.standard
  let r ← j.record? ["root", "extension", "recursive", "use_notify", "notify_rescan_interval",
    "debug_symbols"]
  some ⟨← r.optional 0 d.root Json.string?, ← r.optional 1 d.extension Json.string?,
    ← r.optional 2 d.recursive Json.bool?, ← r.optional 3 d.useNotices Json.bool?,
    ← r.optional 4 d.rescanInterval (Json.nat? (1 <<< 32)), ← r.optional 5 d.debugSymbols Json.bool?⟩

def ReloadSettings.ofJson? (j : Json) : Option ReloadSettings := do
  let d := ReloadSettings.standard
  let r ← j.record? ["call_destroy_on_reload", "max_recorded_errors"]
  some ⟨← r.optional 0 d.callDestroy Json.bool?, ← r.optional 1 d.maxErrors (Json.nat? (1 <<< 64))⟩

def limitsOfJson? (j : Json) : Option Script.Limits := do
  let r ← j.record? ["max_operations", "max_call_levels"]
  some ⟨← r.optional 0 standardLimits.operations (Json.nat? (1 <<< 64)),
    ← r.optional 1 standardLimits.callLevels (Json.nat? (1 <<< 64))⟩

/-- Two numbers. -/
def pairOfJson? (j : Json) : Option (Float32 × Float32) := do
  match ← Json.listOf Json.float32? j with
  | [x, y] => some (x, y)
  | _ => none

def EntitySettings.ofJson? (j : Json) : Option EntitySettings := do
  let r ← j.record? ["name", "behaviours", "translation"]
  some ⟨← r.required 0 Json.string?, ← r.optional 1 [] (Json.listOf Json.string?),
    ← r.optional 2 none (Json.nullable pairOfJson?)⟩

def HarnessSettings.ofJson? (j : Json) : Option HarnessSettings := do
  let d := HarnessSettings.standard
  let r ← j.record? ["fixed_dt", "frames", "entities"]
  some ⟨← r.optional 0 d.step Json.float32?, ← r.optional 1 d.frames (Json.nat? (1 <<< 64)),
    ← r.optional 2 d.entities (Json.listOf EntitySettings.ofJson?)⟩

def Config.ofJson? (j : Json) : Option Config := do
  let d := Config.standard
  let r ← j.record? ["scripts", "reload", "limits", "harness"]
  some ⟨← r.optional 0 d.scripts ScriptSettings.ofJson?, ← r.optional 1 d.reload ReloadSettings.ofJson?,
    ← r.optional 2 d.limits limitsOfJson?, ← r.optional 3 d.harness HarnessSettings.ofJson?⟩

/-- Why there are no settings. -/
inductive ConfigError where
  | unreadable (path : String)
  | malformed (path : String)
deriving DecidableEq, Inhabited

def ConfigError.message : ConfigError → String
  | unreadable path => s!"Failed to read config file {path}"
  | malformed path => s!"Failed to parse config file {path}"

namespace Config

/-- Reads the settings in a file. -/
def load (fs : Files) (path : String) : Except ConfigError Config :=
  match fs.read path with
  | .error _ => .error (.unreadable path)
  | .ok bytes =>
    match (Json.readBytes? bytes).bind ofJson? with
    | none => .error (.malformed path)
    | some c => .ok c

/-- Reads the settings in a file, or takes the defaults where that fails. -/
def loadOrStandard (fs : Files) (path : String) : Config :=
  match load fs path with
  | .ok c => c
  | .error _ => standard

end Config

/-! ## 3. Overrides -/

/-- Settings given besides the file. -/
structure Overrides where
  scripts : Option String
  frames : Option Nat
  step : Option Float32
  debugSymbols : Option Bool
deriving Inhabited

namespace Overrides

def empty : Overrides := ⟨none, none, none, none⟩

/-- The names of the settings that are given. -/
def names (o : Overrides) : List String :=
  [("scripts", o.scripts.isSome), ("frames", o.frames.isSome), ("dt", o.step.isSome),
    ("debug-symbols", o.debugSymbols.isSome)].filterMap fun (name, given) =>
      if given then some name else none

def isEmpty (o : Overrides) : Bool := o.names.isEmpty

end Overrides

/-- Puts the given settings in place of those of the file. -/
def Config.override (c : Config) (o : Overrides) : Config :=
  { c with
    scripts := { c.scripts with
      root := o.scripts.getD c.scripts.root
      debugSymbols := o.debugSymbols.getD c.scripts.debugSymbols }
    harness := { c.harness with
      frames := o.frames.getD c.harness.frames
      step := o.step.getD c.harness.step } }

/-- The watcher that the settings ask for. -/
def ScriptSettings.watcher (s : ScriptSettings) : Watcher :=
  let w := Watcher.create s.root s.extension s.recursive
  if s.useNotices then w.withNotices s.rescanInterval else w

end ScriptHost
