import ScriptHost.Command
import ScriptHost.Script.Failure

/-!
# Basic — what calls of library functions give

A function is found by its name and the exact types of its arguments.  It may change its first
argument, queue commands and write log lines; it sees nothing else of the host.  One that is given a function
has it called, and goes on with what the call gives.
-/

namespace ScriptHost.Script

/-! ## 1. Answers -/

/-- What a call gives: its value, the new value of its first argument if that changed, and what it asks
    of the host. -/
structure Answer where
  value : Value
  target : Option Value
  commands : List Command
  logs : List String
deriving Inhabited

namespace Answer

/-- An answer without effects. -/
def pure (v : Value) : Answer := ⟨v, none, [], []⟩

/-- An answer that changes the first argument. -/
def change (v target : Value) : Answer := ⟨v, some target, [], []⟩

def log (line : String) : Answer := ⟨.unit, none, [], [line]⟩

def command (c : Command) : Answer := ⟨.unit, none, [c], []⟩

end Answer

/-- The result of a call of a library function; `none` if there is no such function. -/
abbrev Called := Option (Except Trouble Answer)

namespace Called

def value (v : Value) : Called := some (.ok (.pure v))

def change (v target : Value) : Called := some (.ok (.change v target))

def command (e : Entity) (effect : Effect) : Called := some (.ok (.command ⟨e, effect⟩))

end Called

/-! ## 2. Errands -/

/-- A function that is given as an argument. -/
structure Pointer where
  name : String
  key : Option Nat
deriving Inhabited

/-- A call that a library function wants.  What `subject` is, `this` stands for in it, or it is the argument
    at `place` among the others; the function that is called may do without the extra arguments.  Where the
    call may fail, a failure counts as the unit. -/
structure Request where
  pointer : Pointer
  subject : Option Value
  args : List Value
  extras : List Value
  place : Nat
  mayFail : Bool
deriving Inhabited

/-- One way to make a call: what `this` stands for, and the arguments. -/
structure Way where
  this : Option Value
  args : List Value
deriving Inhabited

/-- The ways to make a call, the first one that suits the function counts. -/
def Request.ways (r : Request) : List Way :=
  match r.subject with
  | none => [⟨none, r.args⟩, ⟨none, r.args ++ r.extras⟩]
  | some v => [
    ⟨some v, r.args⟩,
    ⟨none, r.args.insertIdx r.place v⟩,
    ⟨none, (r.args ++ r.extras).insertIdx r.place v⟩,
    ⟨some v, r.args ++ r.extras⟩]

/-- What a library function does with the functions that it is given: it is done, or wants a call and goes
    on with the value that the call gives and with what is left of the subject. -/
inductive Errand where
  | done (answer : Answer)
  | ask (request : Request) (next : Value → Value → Errand)

namespace Errand

variable {σ α : Type}

/-- Wants a call for one item after the other.  What `step` makes of the call is the state for those behind,
    or else the answer. -/
def walk (request : σ → Nat → α → Request) (step : σ → α → Value → Value → σ ⊕ Answer)
    (finish : σ → Answer) : Nat → σ → List α → Errand
  | _, s, [] => done (finish s)
  | i, s, a :: as =>
    ask (request s i a) fun v left =>
      match step s a v left with
      | .inl s => walk request step finish (i + 1) s as
      | .inr answer => done answer

end Errand

/-! ## 3. Places in a sequence -/

/-- The place of an index that may count from the end. -/
def indexFrom? (length : Nat) (i : Int) : Option Nat :=
  let j := if i < 0 then i + length else i
  if 0 ≤ j && j < length then some j.toNat else none

/-- The place of a start that may count from the end, and how many of `count` things there are from it on.
    A start before the first thing is the first thing. -/
def spanFrom (length : Nat) (start count : Int) : Nat × Nat :=
  let first := if start < 0 then (start + length).toNat else start.toNat
  if length ≤ first then (length, 0) else (first, min count.toNat (length - first))

/-- The start and the number of the things that arguments ask for: all from a start on, a number of them, or
    those of a range. -/
def spanOf? : List Value → Option (Int × Int)
  | [.int start] => some (start, 1 <<< 63 - 1)
  | [.int start, .int count] => some (start, count)
  | [.range a b closed] =>
    let start := max a 0
    some (start, max b start - start + if closed then 1 else 0)
  | _ => none

theorem spanFrom_le (length : Nat) (start count : Int) :
    (spanFrom length start count).1 + (spanFrom length start count).2 ≤ length := by
  simp only [spanFrom]
  generalize (if start < 0 then (start + length).toNat else start.toNat) = first
  split
  · simp
  · simp only
    omega

end ScriptHost.Script
