import ScriptHost.Config
import ScriptHost.Decimal.Written

/-!
# CommandLine — settings given as arguments

Arguments come in pairs of a flag and a value.  Of several values for a flag the last one counts, but
every value has to be in order.
-/

namespace ScriptHost

/-- What is wrong with an argument. -/
inductive ArgumentError where
  | noFlag (argument : String)
  | noValue (flag : String)
  | unknownFlag (flag : String)
  | frameCount (value : String)
  | timestep (value : String)
  | timestepRange (value : String)
  | truthValue (flag value : String)
deriving DecidableEq, Inhabited

def ArgumentError.message : ArgumentError → String
  | noFlag argument => s!"Unexpected argument '{argument}'. Flags take the form --name value."
  | noValue flag => s!"Expected a value after '{flag}'"
  | unknownFlag flag =>
    s!"Unknown flag '{flag}'. " ++
      "Supported flags: --config, --scripts, --frames, --dt, --debug-symbols."
  | frameCount value => s!"Invalid frame count '{value}'"
  | timestep value => s!"Invalid timestep '{value}'"
  | timestepRange value => s!"Timestep must be a positive number of seconds, got '{value}'"
  | truthValue flag value => s!"Invalid {flag} value '{value}'. Use on/off or true/false."

/-- The file with the settings, if it is given, and the settings given besides. -/
structure Arguments where
  config : Option String
  overrides : Overrides
deriving Inhabited

namespace Arguments

def empty : Arguments := ⟨none, .empty⟩

/-- The truth value that a word stands for, in capitals or not. -/
def truth (flag value : String) : Except ArgumentError Bool :=
  let word := String.ofList (value.toList.map Char.toLower)
  if ["1", "true", "on", "yes"].contains word then .ok true
  else if ["0", "false", "off", "no"].contains word then .ok false
  else .error (.truthValue flag word)

/-- The length of a step: a positive finite number of seconds. -/
def timestep (value : String) : Except ArgumentError Float32 :=
  match Decimal.singleOf? value with
  | none => .error (.timestep value)
  | some x => if 0 < x && x.isFinite then .ok x else .error (.timestepRange value)

def frames (value : String) : Except ArgumentError Nat :=
  match Decimal.natOf? (1 <<< 64) value with
  | none => .error (.frameCount value)
  | some n => .ok n

/-- Takes in the value of a flag; `key` is the flag without its dashes. -/
def set (a : Arguments) (key value : String) : Except ArgumentError Arguments := do
  match key with
  | "config" => return { a with config := some value }
  | "scripts" => return { a with overrides := { a.overrides with scripts := some value } }
  | "frames" => return { a with overrides := { a.overrides with frames := some (← frames value) } }
  | "dt" => return { a with overrides := { a.overrides with step := some (← timestep value) } }
  | "debug-symbols" =>
    return { a with overrides := { a.overrides with debugSymbols := some (← truth key value) } }
  | _ => throw (.unknownFlag ("--" ++ key))

/-- The name of a flag, without its dashes. -/
def key? (argument : String) : Option String :=
  match argument.toList with
  | '-' :: '-' :: name => some (String.ofList name)
  | _ => none

/-- Takes in arguments from left to right. -/
def addAll (a : Arguments) : List String → Except ArgumentError Arguments
  | [] => .ok a
  | flag :: rest =>
    match key? flag, rest with
    | none, _ => .error (.noFlag flag)
    | some _, [] => .error (.noValue flag)
    | some key, value :: rest => do addAll (← a.set key value) rest

/-- Reads a command line, whose first word is the name of the program. -/
def parse (words : List String) : Except ArgumentError Arguments := addAll empty (words.drop 1)

end Arguments

end ScriptHost
