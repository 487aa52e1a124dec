import ScriptHost.Export
import ScriptHost.Lifecycle.Basic

/-!
# Host — scripts at work and their reload

A host owns everything that a reload touches: the watcher, the compiler, the active unit, the
registry and the attachments.  A reload replaces all of it or, where the unit has errors, nothing.
-/

namespace ScriptHost

/-! ## 1. Reports -/

inductive ReloadOutcome where
  /-- The unit is active, with so many types registered. -/
  | activated (unit : UnitId) (types : Nat) (attachments : Rebound)
  /-- The unit has so many errors, and the one before is still active. -/
  | rejected (errors : Nat)
deriving DecidableEq, Inhabited

structure ReloadReport where
  outcome : ReloadOutcome
  diagnostics : List Diagnostic
deriving Inhabited

def ReloadReport.isActivated (r : ReloadReport) : Bool :=
  match r.outcome with
  | .activated .. => true
  | .rejected _ => false

/-! ## 2. Hosts -/

/-- A host: commands and log lines are those that nobody has taken yet, diagnostics those of the last
    compilation. -/
structure Host where
  config : Config
  input : FrameInput
  commands : List Command
  logs : List String
  watcher : Watcher
  compiler : Compiler
  active : Option ScriptUnit
  registry : Registry
  lifecycle : Lifecycle
  diagnostics : List Diagnostic

namespace Host

/-- A host without a unit; `naming` gives the names of units to come. -/
def create (config : Config) (naming : Nat → String) : Host where
  config := config
  input := .empty
  commands := []
  logs := []
  watcher := config.scripts.watcher
  compiler := .create naming config.scripts.debugSymbols
  active := none
  registry := .empty
  lifecycle := .create config.reload
  diagnostics := []

/-- What hooks may reach in this frame. -/
def surroundings (h : Host) : Surroundings := ⟨h.config.limits, h.input⟩

/-- The host with a lifecycle and what its hooks left behind. -/
def absorb (h : Host) (l : Lifecycle) (t : Trace) : Host :=
  { h with lifecycle := l, commands := h.commands ++ t.commands, logs := h.logs ++ t.logs }

/-- The host after a step of its lifecycle. -/
def after (h : Host) (step : Lifecycle × Trace) : Host := h.absorb step.1 step.2

/-! ## 3. Reloading -/

/-- Puts a unit to work, unless it has errors. -/
def activate (h : Host) (u : ScriptUnit) : ReloadReport × Host :=
  let h := { h with diagnostics := u.diagnostics }
  if u.passed then
    let registry := Registry.ofUnit u
    let h := { h with registry := registry }.after (h.lifecycle.renew registry h.surroundings)
    let outcome := .activated u.id registry.entries.length h.lifecycle.rebound
    (⟨outcome, u.diagnostics⟩, { h with active := some u })
  else (⟨.rejected u.errors.length, u.diagnostics⟩, h)

/-- Compiles a corpus and puts it to work. -/
def reload (h : Host) (batch : Batch) : ReloadReport × Host :=
  let (u, compiler) := h.compiler.compile batch
  { h with compiler := compiler }.activate u

/-- Reloads from texts that are given. -/
def reloadFrom (h : Host) (files : List Source) : ReloadReport × Host := h.reload ⟨files, []⟩

/-- Reloads if the watcher sees changes. -/
def reloadIfChanged (h : Host) (notices : List Notice) (fs : Files) :
    Option ReloadReport × Host :=
  let (changes, watcher) := h.watcher.poll notices fs
  let h := { h with watcher := watcher }
  match changes with
  | none => (none, h)
  | some _ =>
    let (report, h) := h.reload (watcher.load fs)
    (some report, h)

/-- Reloads in any case; a directory that cannot be looked through is as it was. -/
def forceReload (h : Host) (fs : Files) : ReloadReport × Host :=
  let watcher := match h.watcher.rescan fs with
    | .ok (_, w) => w
    | .error _ => h.watcher
  { h with watcher := watcher }.reload (watcher.load fs)

/-! ## 4. Frames -/

def tick (h : Host) (dt : Float32) : Host :=
  h.after (h.lifecycle.tick h.registry h.surroundings dt)

def dispatchInput (h : Host) (e : InputEvent) : Host :=
  h.after (h.lifecycle.dispatchInput h.surroundings e)

def dispatchCollision (h : Host) (c : Collision) : Host :=
  h.after (h.lifecycle.dispatchCollision h.surroundings c)

/-- One frame: a reload if there are changes, a tick, and then the events of the frame. -/
def frame (h : Host) (notices : List Notice) (fs : Files) (dt : Float32) (input : FrameInput) :
    Option ReloadReport × Host :=
  let (report, h) := { h with input := input }.reloadIfChanged notices fs
  (report, input.events.foldl dispatchInput (h.tick dt))

/-! ## 5. Attachments -/

def attach (h : Host) (e : Entity) (typeName : String) : Bool × Host :=
  let (done, l) := h.lifecycle.attach e typeName
  (done, { h with lifecycle := l })

def detach (h : Host) (e : Entity) (typeName : String) : Bool × Host :=
  let (done, step) := h.lifecycle.detach h.surroundings e typeName
  (done, h.after step)

def detachEntity (h : Host) (e : Entity) : Nat × Host :=
  let (n, step) := h.lifecycle.detachEntity h.surroundings e
  (n, h.after step)

/-! ## 6. Inspection -/

/-- The table of a type and its instance on an entity. -/
def inspect (h : Host) (e : Entity) (typeName : String) :
    Except Field.Refusal (Field.Table × Instance) :=
  match h.registry.get? typeName with
  | none => .error (.unknownType typeName)
  | some entry =>
    match (h.lifecycle.find? e typeName).bind (·.running) with
    | none => .error (.noInstance e typeName)
    | some i => .ok (entry.table, i)

def listFields (h : Host) (e : Entity) (typeName : String) :
    Except Field.Refusal (List Field.Entry) := do
  let (table, i) ← h.inspect e typeName
  return table.list i.store

def getField (h : Host) (e : Entity) (typeName field : String) :
    Except Field.Refusal Field.Value := do
  let (table, i) ← h.inspect e typeName
  table.get i.store field

def setField (h : Host) (e : Entity) (typeName field : String) (v : Field.Value) :
    Except Field.Refusal Unit × Host :=
  match h.inspect e typeName with
  | .error refusal => (.error refusal, h)
  | .ok (table, i) =>
    let (done, store) := table.put field v i.store
    (done, { h with lifecycle := h.lifecycle.putFields e typeName store.fields })

/-! ## 7. What the host takes -/

/-- Writes the active unit to files. -/
def exportTo (h : Host) (fs : Files) (directory name : String) :
    Except ExportError Exported × Files :=
  match h.active with
  | none => (.error .noActiveUnit, fs)
  | some u => u.exportTo fs directory name

def takeCommands (h : Host) : List Command × Host := (h.commands, { h with commands := [] })

def takeLogs (h : Host) : List String × Host := (h.logs, { h with logs := [] })

def takeErrors (h : Host) : List RecordedError × Host :=
  let (es, l) := h.lifecycle.takeErrors
  (es, { h with lifecycle := l })

end Host

end ScriptHost
