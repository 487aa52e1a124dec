import ScriptHost.Lifecycle.ErrorLog

/-!
# Attachment — an entity bound to a behaviour type by name

The instance belongs to the attachment, never to the entity.  What becomes of an attachment depends on
nothing but itself, the registry and the host, so an operation on many is one on each.
-/

namespace ScriptHost

/-! ## 1. Traces -/

/-- What calls of hooks leave behind, in the order of the calls. -/
structure Trace where
  commands : List Command
  logs : List String
  errors : List RecordedError
deriving Inhabited

namespace Trace

def empty : Trace := ⟨[], [], []⟩

def append (s t : Trace) : Trace := ⟨s.commands ++ t.commands, s.logs ++ t.logs, s.errors ++ t.errors⟩

instance : Append Trace := ⟨append⟩

/-- The traces of calls one after the other. -/
def concat : List Trace → Trace
  | [] => empty
  | t :: ts => t ++ concat ts

end Trace

/-! ## 2. Attachments -/

inductive AttachmentState where
  /-- It waits for the next tick. -/
  | pending
  | live
  /-- A hook failed: there are no more calls until the next reload. -/
  | faulted
  /-- The registry does not know the type; the next reload may. -/
  | failed
deriving DecidableEq, Inhabited

def AttachmentState.name : AttachmentState → String
  | pending => "Pending"
  | live => "Live"
  | faulted => "Faulted"
  | failed => "Failed"

structure Attachment where
  owner : Entity
  typeName : String
  state : AttachmentState
  running : Option Instance
deriving Inhabited

namespace Attachment

def create (owner : Entity) (typeName : String) : Attachment := ⟨owner, typeName, .pending, none⟩

def isFor (a : Attachment) (owner : Entity) (typeName : String) : Bool :=
  a.owner == owner && a.typeName == typeName

/-- Whether it gets the calls of a frame. -/
def isReceiving (a : Attachment) : Bool := a.state == .live && a.running.isSome

/-- Calls a hook of the instance, if there is one.  An error other than one of `on_destroy` puts the
    attachment at fault. -/
def deliver (s : Surroundings) (c : HookCall) (a : Attachment) : Attachment × Trace :=
  match a.running with
  | none => (a, .empty)
  | some i =>
    let r := i.call s c
    let state := if r.error.isSome && c.hook != .destroy then .faulted else a.state
    ({ a with running := some r.after, state := state },
      ⟨r.commands, r.logs, (r.error.map fun e => ⟨a.owner, e⟩).toList⟩)

/-- Calls a hook if the attachment gets calls. -/
def receive (s : Surroundings) (c : HookCall) (a : Attachment) : Attachment × Trace :=
  if a.isReceiving then a.deliver s c else (a, .empty)

/-- Makes an instance, which starts with `on_create`; without one the attachment has failed. -/
def instantiate (r : Registry) (s : Surroundings) (a : Attachment) : Attachment × Trace :=
  match r.instantiate? a.typeName a.owner with
  | none => ({ a with state := .failed }, .empty)
  | some i => { a with running := some i, state := .live }.deliver s .create

/-- Makes an instance if the attachment waits for one. -/
def start (r : Registry) (s : Surroundings) (a : Attachment) : Attachment × Trace :=
  if a.state == .pending then a.instantiate r s else (a, .empty)

/-- Puts a fresh instance in place of the one there is. -/
def renew (r : Registry) (s : Surroundings) (callDestroy : Bool) (a : Attachment) : Attachment × Trace :=
  let left := if callDestroy then (a.deliver s .destroy).2 else .empty
  let (b, more) := (create a.owner a.typeName).instantiate r s
  (b, left ++ more)

/-- The trace of the end of an attachment: its instance is destroyed even if it is at fault. -/
def destroy (s : Surroundings) (a : Attachment) : Trace := (a.deliver s .destroy).2

/-- Does the same to each attachment in order. -/
def each (f : Attachment → Attachment × Trace) (as : List Attachment) : List Attachment × Trace :=
  (as.map fun a => (f a).1, .concat (as.map fun a => (f a).2))

end Attachment

end ScriptHost
