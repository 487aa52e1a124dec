import ScriptHost.Collision
import ScriptHost.Input
import ScriptHost.Registry
import ScriptHost.Script.Eval

/-!
# Instance — a behaviour at work on an entity

An instance is the program of its type together with fields of its own.  A hook runs with `this` bound
to the fields; what it does to them is kept, whether it succeeds or not.  Nothing else passes from one
call to the next but the seed of random numbers and what closures in the fields share, so that instances
cannot get in each other's way.
-/

namespace ScriptHost

open Corpus (Program)
open Script (Value Entries Failure Machine)

/-! ## 1. Calls -/

/-- A call of a hook, with what it tells the script. -/
inductive HookCall where
  | create
  | update (dt : Float32)
  | destroy
  | input (event : InputEvent)
  | collision (event : Collision)
deriving Inhabited

namespace HookCall

def hook : HookCall → Hook
  | create => .create
  | update _ => .update
  | destroy => .destroy
  | input _ => .input
  | collision _ => .collision

/-- What the script of `owner` is given besides its context. -/
def arguments (owner : Entity) : HookCall → List Value
  | create | destroy => []
  | update dt => [.float dt.toFloat]
  | input e => [e.toValue]
  | collision c => [c.toValue owner]

theorem arguments_length (owner : Entity) (c : HookCall) :
    (c.arguments owner).length + 1 = c.hook.arity := by
  cases c <;> rfl

end HookCall

/-- What hooks may reach while they run. -/
structure Surroundings where
  limits : Script.Limits
  input : FrameInput
deriving Inhabited

/-! ## 2. Errors -/

/-- A hook that failed, with the place in the source where it is known. -/
structure HookError where
  typeName : String
  hook : Hook
  message : String
  location : Option Location
deriving DecidableEq, Inhabited

namespace HookError

/-- The error behind a failure: the function in which the trouble arose tells the file. -/
def ofFailure (p : Program) (h : Hook) (f : Failure) : HookError where
  typeName := p.typeName
  hook := h
  message := f.trouble.message
  location := (Entries.get? (f.function?.getD h.name) p.origins).map (·.map f.innermost)

def describe (e : HookError) : String :=
  let place := match e.location with
    | some l => s!" at {l.describe}"
    | none => ""
  s!"{e.typeName}.{e.hook.name} failed{place}: {e.message}"

end HookError

/-! ## 3. Instances -/

structure Instance where
  program : Program
  owner : Entity
  fields : Entries Value
  seed : UInt64
  heap : Script.Heap
deriving Inhabited

/-- What a call gives: the instance afterwards, what it asks of the host, and its error. -/
structure CallResult where
  after : Instance
  commands : List Command
  logs : List String
  error : Option HookError
deriving Inhabited

namespace Instance

/-- The seed that an entity starts with. -/
def seedOf (owner : Entity) : UInt64 :=
  Machine.nextSeed (Machine.initial.seed + UInt64.ofNat owner.bits)

/-- An instance with the declared defaults; no hook has run. -/
def fresh (p : Program) (owner : Entity) : Instance := ⟨p, owner, p.initialFields, seedOf owner, .empty⟩

/-- The fields, for inspection. -/
def store (i : Instance) : Field.Store := ⟨i.program.typeName, i.fields⟩

/-- What is left of the fields: a script that makes `this` anything but a map gets the defaults back. -/
def fieldsAfter (i : Instance) : Value → Entries Value
  | .map fields => fields
  | _ => i.program.initialFields

/-- The context of a call. -/
def context (s : Surroundings) (i : Instance) : Script.Context :=
  ⟨i.owner, i.program.typeName, s.input.held⟩

/-- The failure in an ending; a script without an answer counts as one that did too much. -/
def failure? : Script.Ending → Option Failure
  | .value _ => none
  | .failure f => some f
  | .exhausted | .stuck => some (.raised .tooManyOperations none)

/-- The result of a call, from how the script ended, what it left of `this`, and the machine. -/
def finish (i : Instance) (h : Hook) (r : Script.Ending × Value × Machine) : CallResult where
  after := { i with fields := i.fieldsAfter r.2.1, seed := r.2.2.seed, heap := r.2.2.heap }
  commands := r.2.2.commands.toList
  logs := r.2.2.logs.toList
  error := (failure? r.1).map (HookError.ofFailure i.program h)

/-- Runs the function that serves a hook. -/
def run (s : Surroundings) (i : Instance) (c : HookCall) (f : Script.Function) : CallResult :=
  i.finish c.hook (Script.callFunction i.program.function? s.limits f (.map i.fields)
    (.context (i.context s) :: c.arguments i.owner)
    { Machine.initial with seed := i.seed, heap := i.heap })

/-- Calls a hook.  One that the type does not have does nothing. -/
def call (s : Surroundings) (i : Instance) (c : HookCall) : CallResult :=
  if i.program.hooks.contains c.hook then
    match i.program.function? c.hook.name c.hook.arity with
    | some f => i.run s c f
    | none =>
      let missing := Failure.raised (.functionNotFound c.hook.name) none
      ⟨i, [], [], some (.ofFailure i.program c.hook missing)⟩
  else ⟨i, [], [], none⟩

theorem finish_owner (i : Instance) (h : Hook) (r : Script.Ending × Value × Machine) :
    (i.finish h r).after.owner = i.owner := rfl

theorem finish_program (i : Instance) (h : Hook) (r : Script.Ending × Value × Machine) :
    (i.finish h r).after.program = i.program := rfl

theorem call_owner (s : Surroundings) (i : Instance) (c : HookCall) :
    (i.call s c).after.owner = i.owner := by
  unfold call
  by_cases hc : i.program.hooks.contains c.hook
  · rw [if_pos hc]
    cases i.program.function? c.hook.name c.hook.arity with
    | some f => exact finish_owner i c.hook _
    | none => exact Eq.refl i.owner
  · rw [if_neg hc]

theorem call_program (s : Surroundings) (i : Instance) (c : HookCall) :
    (i.call s c).after.program = i.program := by
  unfold call
  by_cases hc : i.program.hooks.contains c.hook
  · rw [if_pos hc]
    cases i.program.function? c.hook.name c.hook.arity with
    | some f => exact finish_program i c.hook _
    | none => exact Eq.refl i.program
  · rw [if_neg hc]

theorem call_of_not_contains {s : Surroundings} {i : Instance} {c : HookCall}
    (absent : i.program.hooks.contains c.hook = false) : i.call s c = ⟨i, [], [], none⟩ := by
  unfold call
  rw [absent]
  exact if_neg Bool.false_ne_true

end Instance

/-- A fresh instance of a registered type. -/
def Registry.instantiate? (r : Registry) (name : String) (owner : Entity) : Option Instance :=
  (r.get? name).map fun e => .fresh e.program owner

end ScriptHost
