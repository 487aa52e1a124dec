import ScriptHost.Decimal.Fixed
import ScriptHost.Script.Value

/-!
# Collision — two entities that touch

A collision names its entities in the order of their indices, whichever way they are given.
-/

namespace ScriptHost

open Script (Value Entries)

inductive Phase where
  | started
  | ended
deriving DecidableEq, Inhabited

def Phase.word : Phase → String
  | started => "started"
  | ended => "ended"

structure Collision where
  a : Entity
  b : Entity
  phase : Phase
  force : Float32
deriving Inhabited

namespace Collision

/-- The collision of two entities. -/
def between (a b : Entity) (phase : Phase) : Collision :=
  if a.index ≤ b.index then ⟨a, b, phase, 0⟩ else ⟨b, a, phase, 0⟩

def withForce (c : Collision) (force : Float32) : Collision := { c with force := force }

def involves (c : Collision) (e : Entity) : Bool := c.a == e || c.b == e

/-- The entity on the other side, if `e` is on one. -/
def other? (c : Collision) (e : Entity) : Option Entity :=
  if c.a == e then some c.b else if c.b == e then some c.a else none

/-- The collision as a script of `e` sees it. -/
def toValue (c : Collision) (e : Entity) : Value :=
  .map (Entries.ofList [("other", .int ((c.other? e).getD e).signedBits),
    ("phase", .text c.phase.word), ("force", .float c.force.toFloat)])

def describe (c : Collision) : String :=
  let phase := match c.phase with
    | .started => "Started"
    | .ended => "Ended"
  s!"Collision{phase} a={c.a.index} b={c.b.index} " ++
    s!"force={Decimal.fixed 3 (Decimal.ofFloat32 c.force)}"

theorem involves_iff (c : Collision) (e : Entity) : c.involves e = (c.other? e).isSome := by
  simp only [involves, other?]
  split <;> simp_all
  split <;> simp_all

end Collision

end ScriptHost
