/-!
# Console — what a program prints
-/

namespace ScriptHost

/-- The lines that a program has printed, and those about errors. -/
structure Console where
  output : Array String
  errors : Array String
deriving DecidableEq, Inhabited

namespace Console

def empty : Console := ⟨#[], #[]⟩

def print (c : Console) (line : String) : Console := { c with output := c.output.push line }

def printAll (c : Console) (lines : List String) : Console := lines.foldl print c

def complain (c : Console) (line : String) : Console := { c with errors := c.errors.push line }

def complainAll (c : Console) (lines : List String) : Console := lines.foldl complain c

end Console

/-- The end of a program: its exit code, and what it has printed. -/
structure Exit where
  code : UInt32
  console : Console
deriving DecidableEq, Inhabited

end ScriptHost
