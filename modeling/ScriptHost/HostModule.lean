/-!
# HostModule — the modules that a host offers to scripts
-/

namespace ScriptHost

/-- A module of host functions. -/
inductive HostModule where
  | audio
  | entity
  | input
  | math
  | physics
deriving DecidableEq, Inhabited

namespace HostModule

/-- All modules, in the order of their names. -/
def all : List HostModule := [audio, entity, input, math, physics]

def name : HostModule → String
  | audio => "audio"
  | entity => "entity"
  | input => "input"
  | math => "math"
  | physics => "physics"

def ofName? (name : String) : Option HostModule := all.find? (·.name == name)

/-- The names of all modules, for a message. -/
def available : String := String.intercalate ", " (all.map name)

end HostModule

end ScriptHost
