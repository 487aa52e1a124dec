import ScriptHost.Config
import ScriptHost.Lifecycle.Attachment

/-!
# Lifecycle — the attachments of a host

Every operation gives the lifecycle afterwards and the trace of the hooks that it ran; the errors of the
trace are in the log by then.
-/

namespace ScriptHost

open Script (Value Entries)

/-- The attachments in the order in which they were made, and the errors of their hooks. -/
structure Lifecycle where
  attachments : List Attachment
  errors : ErrorLog
  callDestroy : Bool
deriving Inhabited

/-- How many attachments of a reload have an instance, and how many have none. -/
structure Rebound where
  rebound : Nat
  failed : Nat
deriving DecidableEq, Inhabited

namespace Lifecycle

def create (s : ReloadSettings) : Lifecycle := ⟨[], .empty s.maxErrors, s.callDestroy⟩

def find? (l : Lifecycle) (owner : Entity) (typeName : String) : Option Attachment :=
  l.attachments.find? (·.isFor owner typeName)

/-- The lifecycle with other attachments, after a trace. -/
def settle (l : Lifecycle) (as : List Attachment) (t : Trace) : Lifecycle × Trace :=
  ({ l with attachments := as, errors := l.errors.recordAll t.errors }, t)

/-- Does the same to each attachment. -/
def each (l : Lifecycle) (f : Attachment → Attachment × Trace) : Lifecycle × Trace :=
  let (as, t) := Attachment.each f l.attachments
  l.settle as t

/-! ## 1. Attaching and detaching -/

/-- Attaches a type to an entity, unless it is attached already. -/
def attach (l : Lifecycle) (owner : Entity) (typeName : String) : Bool × Lifecycle :=
  if (l.find? owner typeName).isSome then (false, l)
  else (true, { l with attachments := l.attachments ++ [.create owner typeName] })

/-- Detaches a type from an entity; it tells whether it was attached. -/
def detach (l : Lifecycle) (s : Surroundings) (owner : Entity) (typeName : String) :
    Bool × Lifecycle × Trace :=
  match l.find? owner typeName with
  | none => (false, l, .empty)
  | some a => (true, l.settle (l.attachments.eraseP (·.isFor owner typeName)) (a.destroy s))

/-- Detaches all types from an entity; it tells how many there were. -/
def detachEntity (l : Lifecycle) (s : Surroundings) (owner : Entity) : Nat × Lifecycle × Trace :=
  let (gone, left) := l.attachments.partition (·.owner == owner)
  (gone.length, l.settle left (.concat (gone.map (·.destroy s))))

/-! ## 2. Frames -/

/-- Makes the instances that are waited for, once there is a unit, and updates those at work. -/
def tick (l : Lifecycle) (r : Registry) (s : Surroundings) (dt : Float32) : Lifecycle × Trace :=
  let (l, started) := if r.unit.isSome then l.each (·.start r s) else (l, .empty)
  let (l, updated) := l.each (·.receive s (.update dt))
  (l, started ++ updated)

/-- Tells the instances at work about something the player did. -/
def dispatchInput (l : Lifecycle) (s : Surroundings) (e : InputEvent) : Lifecycle × Trace :=
  l.each (·.receive s (.input e))

/-- Tells the instances at work on one of its entities about a collision. -/
def dispatchCollision (l : Lifecycle) (s : Surroundings) (c : Collision) : Lifecycle × Trace :=
  l.each fun a => if c.involves a.owner then a.receive s (.collision c) else (a, .empty)

/-! ## 3. Reloads -/

/-- Puts a fresh instance into every attachment; no field is carried over. -/
def renew (l : Lifecycle) (r : Registry) (s : Surroundings) : Lifecycle × Trace :=
  l.each (·.renew r s l.callDestroy)

def rebound (l : Lifecycle) : Rebound :=
  ⟨l.attachments.countP (·.running.isSome), l.attachments.countP (·.running.isNone)⟩

/-! ## 4. Fields and errors -/

/-- Puts fields in place of those of the instance of a type on an entity. -/
def putFields (l : Lifecycle) (owner : Entity) (typeName : String) (fields : Entries Value) :
    Lifecycle :=
  let put (a : Attachment) : Attachment :=
    { a with running := a.running.map fun i => { i with fields := fields } }
  { l with attachments :=
      l.attachments.map fun a => if a.isFor owner typeName then put a else a }

/-- The errors since they were taken last, as far as there was room for them. -/
def takeErrors (l : Lifecycle) : List RecordedError × Lifecycle :=
  (l.errors.entries, { l with errors := l.errors.clear })

end Lifecycle

end ScriptHost
