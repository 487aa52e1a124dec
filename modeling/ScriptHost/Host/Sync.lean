import ScriptHost.Host.Basic
import ScriptHost.World.Basic

/-!
# Sync — attachments that follow the world

The things of a world say which behaviours they are to have.  Attachments that nothing asks for are
removed, in the order of entities and names; those that are missing are made, in the order of the rows.
-/

namespace ScriptHost

/-- A behaviour type on an entity. -/
structure Binding where
  entity : Entity
  typeName : String
deriving DecidableEq, Inhabited

def Binding.le (a b : Binding) : Bool :=
  a.entity.bits < b.entity.bits ||
    (a.entity.bits == b.entity.bits && decide (a.typeName ≤ b.typeName))

/-- The bindings that the things of the world ask for. -/
def World.bindings (w : World) : List Binding :=
  w.rows.flatMap fun t => t.behaviours.map fun name => ⟨t.entity, name⟩

/-- How many types were attached and detached. -/
structure SyncSummary where
  attached : Nat
  detached : Nat
deriving DecidableEq, Inhabited

namespace Host

/-- The bindings that there are. -/
def bindings (h : Host) : List Binding :=
  h.lifecycle.attachments.map fun a => ⟨a.owner, a.typeName⟩

/-- Runs a step on each binding, and counts those that it tells of. -/
def countEach (step : Host → Entity → String → Bool × Host) (h : Host) :
    List Binding → Nat × Host
  | [] => (0, h)
  | b :: bs =>
    let (done, h) := step h b.entity b.typeName
    let (n, h) := countEach step h bs
    ((if done then 1 else 0) + n, h)

/-- Brings the attachments in line with the world. -/
def sync (h : Host) (w : World) : SyncSummary × Host :=
  let wanted := w.bindings
  let existing := h.bindings
  let gone := (existing.filter (!wanted.contains ·)).mergeSort Binding.le
  let missing := wanted.filter (!existing.contains ·)
  let (detached, h) := countEach detach h gone
  let (attached, h) := countEach attach h missing
  (⟨attached, detached⟩, h)

end Host

end ScriptHost
