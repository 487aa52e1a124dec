/-!
# Hook — the functions of a behaviour that the host calls
-/

namespace ScriptHost

/-- A point in the life of an instance at which the host calls into its script. -/
inductive Hook where
  | create
  | update
  | destroy
  | input
  | collision
deriving DecidableEq, Inhabited

namespace Hook

def all : List Hook := [create, update, destroy, input, collision]

/-- The name of the function that serves the hook. -/
def name : Hook → String
  | create => "on_create"
  | update => "update"
  | destroy => "on_destroy"
  | input => "on_input"
  | collision => "on_collision"

/-- How many parameters that function takes, the context among them. -/
def arity : Hook → Nat
  | create | destroy => 1
  | update | input | collision => 2

def signature : Hook → String
  | create => "on_create(ctx)"
  | update => "update(ctx, dt)"
  | destroy => "on_destroy(ctx)"
  | input => "on_input(ctx, event)"
  | collision => "on_collision(ctx, other)"

def ofName? (name : String) : Option Hook := all.find? (·.name == name)

/-- The place of the hook in a bit set. -/
def bit : Hook → Nat
  | create => 0
  | update => 1
  | destroy => 2
  | input => 3
  | collision => 4

end Hook

/-- A set of hooks, by membership. -/
structure HookSet where
  contains : Hook → Bool
deriving Inhabited

namespace HookSet

def empty : HookSet := ⟨fun _ => false⟩

def singleton (h : Hook) : HookSet := ⟨fun g => g == h⟩

def union (s t : HookSet) : HookSet := ⟨fun h => s.contains h || t.contains h⟩

def insert (s : HookSet) (h : Hook) : HookSet := s.union (singleton h)

def isEmpty (s : HookSet) : Bool := !Hook.all.any s.contains

def toList (s : HookSet) : List Hook := Hook.all.filter s.contains

/-- The set as a number, one bit for each hook. -/
def bits (s : HookSet) : Nat := s.toList.foldl (fun n h => n + 1 <<< h.bit) 0

end HookSet

end ScriptHost
