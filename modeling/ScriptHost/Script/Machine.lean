import ScriptHost.Script.Library
import ScriptHost.Script.Tree

/-!
# Machine — what a running script reads and changes

A step changes the machine whether it succeeds or not: what a script did before it failed stays done.
-/

namespace ScriptHost.Script

open Text (Position)

/-- How much a script may do: operations in all, zero for any number, and calls within calls. -/
structure Limits where
  operations : Nat
  callLevels : Nat
deriving DecidableEq, Inhabited

/-- A variable of a running script. -/
structure Variable where
  name : String
  value : Value
  isConstant : Bool
deriving Inhabited

/-- Where the value of a variable is: with the variable, or in a cell that closures share with it. -/
inductive Slot where
  | own (value : Value)
  | cell (number : Nat)
deriving Inhabited

/-- A variable as the scope keeps it. -/
structure Local where
  name : String
  slot : Slot
  isConstant : Bool
deriving Inhabited

def Local.ofVariable (x : Variable) : Local := ⟨x.name, .own x.value, x.isConstant⟩

def Local.isShared (x : Local) : Bool :=
  match x.slot with
  | .cell _ => true
  | .own _ => false

/-- A value that variables share. -/
structure Cell where
  value : Value
  isConstant : Bool
deriving Inhabited

/-- What belongs to a function pointer besides its name: the closure that it is made of, if it is, and the
    arguments that it holds, which come first in every call. -/
structure Pointed where
  closure : Option Closure
  held : List Slot
deriving Inhabited

/-- The cells and the function pointers of a script, in the order in which they were made. -/
structure Heap where
  cells : Array Cell
  pointers : Array Pointed
deriving Inhabited

namespace Heap

def empty : Heap := ⟨#[], #[]⟩

def cell (h : Heap) (n : Nat) : Cell := h.cells.getD n default

def put (h : Heap) (n : Nat) (v : Value) : Heap :=
  { h with cells := h.cells.modify n fun c => { c with value := v } }

def pointed (h : Heap) (key : Option Nat) : Pointed := (key.bind (h.pointers[·]?)).getD ⟨none, []⟩

def value (h : Heap) : Slot → Value
  | .own v => v
  | .cell n => (h.cell n).value

/-- A variable with its value.  A cell that was made for a constant stays one. -/
def read (h : Heap) (x : Local) : Variable :=
  match x.slot with
  | .own v => ⟨x.name, v, x.isConstant⟩
  | .cell n => ⟨x.name, (h.cell n).value, x.isConstant || (h.cell n).isConstant⟩

end Heap

/-- The state of a running script: variables, the innermost one first, inside a function those around
    the first call, the value that `this` stands for and whether that is a constant, counters, what closures
    share, and what has been asked of the host so far. -/
structure Machine where
  scope : List Local
  outer : Option (List Local)
  this : Option Value
  thisConstant : Bool
  level : Nat
  operations : Nat
  seed : UInt64
  heap : Heap
  commands : Array Command
  logs : Array String
deriving Inhabited

namespace Machine

def initial : Machine := ⟨[], none, none, false, 0, 0, 0x9E3779B97F4A7C15, .empty, #[], #[]⟩

/-- The machine at the start of a script that sees some variables; what was asked of the host stays, and what
    closures share. -/
def start (m : Machine) (given : List Variable) : Machine :=
  { m with
    scope := given.map .ofVariable, outer := none, this := none, thisConstant := false, level := 0,
    operations := 0 }

/-- The seed behind `s`. -/
def nextSeed (s : UInt64) : UInt64 :=
  let a := s ^^^ (s <<< 13)
  let b := a ^^^ (a >>> 7)
  b ^^^ (b <<< 17)

/-- A number from zero up to and without one. -/
def noise (m : Machine) : Float := (m.seed >>> 11).toFloat.scaleB (-53)

/-- The innermost variable of that name. -/
def find? (m : Machine) (name : String) : Option Local := m.scope.find? (·.name == name)

/-- Puts the innermost variable of that name somewhere else. -/
def setSlot (name : String) (slot : Slot) : List Local → List Local
  | [] => []
  | x :: xs => if x.name == name then { x with slot := slot } :: xs else x :: setSlot name slot xs

/-- Changes the innermost variable of that name, for all that share it. -/
def assign (name : String) (v : Value) (m : Machine) : Machine :=
  match (m.find? name).map Local.slot with
  | some (.cell n) => { m with heap := m.heap.put n v }
  | _ => { m with scope := setSlot name (.own v) m.scope }

/-- Moves a variable into a cell, where it is not in one. -/
def share (x : Local) (m : Machine) : Machine :=
  match x.slot with
  | .cell _ => m
  | .own v => { m with
    scope := setSlot x.name (.cell m.heap.cells.size) m.scope
    heap := { m.heap with cells := m.heap.cells.push ⟨v, x.isConstant⟩ } }

/-- Keeps a function pointer, and gives it. -/
def point (name : String) (p : Pointed) (m : Machine) : Value × Machine :=
  (.pointer name (some m.heap.pointers.size),
    { m with heap := { m.heap with pointers := m.heap.pointers.push p } })

end Machine

/-- What interrupts a script: a failure, a word that leaves a function or a loop, a call that ends the whole
    script, no fuel, or an assignment to what is no place. -/
inductive Signal where
  | failed (failure : Failure)
  | ended (value : Value)
  | returned (value : Value)
  | left (value : Value)
  | continued
  | exhausted
  | stuck
deriving Inhabited

/-- A step of a running script. -/
abbrev Run := ExceptT Signal (StateM Machine)

/-- A script that is being run: the functions it may call, whether there are any, and its limits. -/
structure Env where
  functions : String → Nat → Option Function
  hasFunctions : Bool
  limits : Limits

namespace Run

def fail {α : Type} (t : Trouble) (p : Option Position) : Run α := throw (.failed (.raised t p))

def failAt {α : Type} (t : Trouble) (p : Position) : Run α := fail t (some p)

/-- A step that takes its interruption as a result. -/
def settle {α : Type} (step : Run α) : Run (Except Signal α) := fun m =>
  let (r, m) := step.run m
  (.ok r, m)

def resume {α : Type} : Except Signal α → Run α
  | .ok a => return a
  | .error s => throw s

/-- Counts an operation at `p`. -/
def count (env : Env) (p : Option Position) : Run Unit := do
  let n := (← get).operations + 1
  modify fun m => { m with operations := n }
  if env.limits.operations != 0 && env.limits.operations < n then fail .tooManyOperations p

/-- Counts the functions that an assignment at `p` calls to combine two values. -/
def countCalls (env : Env) (op : Option Operator) (old new : Value) (p : Position) : Run Unit :=
  (List.replicate (op.elim 0 fun op => op.assigningCalls old new) (some p)).forM (count env)

/-- The innermost variable of that name, as the scope keeps it. -/
def find (x : Ident) : Run Local := do
  match (← get).find? x.name with
  | some y => return y
  | none => failAt (.variableNotFound x.name) x.position

/-- The innermost variable of that name. -/
def lookup (name : String) (p : Position) : Run Variable := do
  let x ← find ⟨name, p⟩
  return (← get).heap.read x

def assign (name : String) (v : Value) : Run Unit := modify (Machine.assign name v)

def declare (name : String) (v : Value) (isConstant : Bool) : Run Unit :=
  modify fun m => { m with scope := ⟨name, .own v, isConstant⟩ :: m.scope }

/-- Forgets the variables declared since there were `n`. -/
def rewind (n : Nat) : Run Unit :=
  modify fun m => { m with scope := m.scope.drop (m.scope.length - n) }

/-- Hands what an answer asks for to the host. -/
def emit (a : Answer) : Run Unit :=
  modify fun m => { m with
    commands := m.commands ++ a.commands.toArray, logs := m.logs ++ a.logs.toArray }

/-- The value behind a check, or its trouble at `p`. -/
def check {α : Type} (p : Position) : Except Trouble α → Run α
  | .ok a => return a
  | .error t => failAt t p

/-- The truth value of a condition at `p`. -/
def truth (v : Value) (p : Position) : Run Bool :=
  match v with
  | .bool b => return b
  | v => failAt (.unfit v "bool") p

/-- A library function called from `p`; asking for a type costs nothing.  One of them ends the script. -/
def library (env : Env) (name : String) (args : List Value) (p : Position) : Run Answer := do
  if !(name == "type_of" && args.length == 1) then count env (some p)
  if name == "exit" && args.length ≤ 1 then throw (.ended (args.headD .unit))
  match callLibrary name args p with
  | none => failAt (.functionNotFound (signature name args)) p
  | some called =>
    let a ← check p called
    emit a
    return a

/-- A constant refuses to be changed by a library function that is called as its method from `p`. -/
def ensureChangeable (env : Env) (isConstant : Bool) (name : String) (args : List Value) (p : Position) :
    Run Unit := do
  let isThere := (errand? name args).isSome || (callLibrary name args p).isSome
  if isConstant && args.head?.any (mayChange name) && isThere then
    count env (some p)
    failAt (.constantMethod name) p

/-- A function of the module that `path` names, called from `p`. -/
def module (path : List Ident) (name : String) (args : List Value) (p : Position) : Run Answer := do
  let written := String.intercalate "::" (path.map Ident.name)
  let root := path.headD ⟨written, p⟩
  let unknown {α : Type} : Run α :=
    failAt (.functionNotFound (signature s!"{written}::{name}" args)) p
  match HostModule.ofName? root.name with
  | none => failAt (.moduleNotFound written) root.position
  | some m =>
    if path.length == 1 then
      let noise := (← get).noise
      modify fun m => { m with seed := Machine.nextSeed m.seed }
      match callModule noise m name args with
      | none => unknown
      | some called =>
        let a ← check p called
        emit a
        return a
    else unknown

end Run

end ScriptHost.Script
