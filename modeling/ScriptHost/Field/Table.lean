import ScriptHost.Field.Value

/-!
# Table — the fields of a type that are open to inspection

A table lists the exposed fields of a type with their kinds.  Reading and writing go through it: a name
it does not list is not exposed, whatever the instance holds.
-/

namespace ScriptHost.Field

open Script (Entries)

/-- Why a field cannot be read or written. -/
inductive Refusal where
  | notExposed (type field : String)
  | kindMismatch (field : String) (expected found : Kind)
  | corruptValue (field : String) (expected : Kind)
  | unknownType (type : String)
  | noInstance (entity : Entity) (type : String)
deriving DecidableEq, Inhabited

namespace Refusal

def message : Refusal → String
  | notExposed type field => s!"field `{field}` is not exposed on `{type}`"
  | kindMismatch field expected found =>
    s!"field `{field}` expects a {expected.keyword} value, got {found.keyword}"
  | corruptValue field expected => s!"field `{field}` holds a value that is not a {expected.keyword}"
  | unknownType type => s!"behaviour type `{type}` is not registered"
  | noInstance entity type => s!"no live `{type}` instance on entity {entity.describe}"

/-- The name of the sort of refusal. -/
def name : Refusal → String
  | notExposed .. => "NotExposed"
  | kindMismatch .. => "KindMismatch"
  | corruptValue .. => "CorruptValue"
  | unknownType _ => "UnknownType"
  | noInstance .. => "NoInstance"

end Refusal

/-- An exposed field. -/
structure Accessor where
  name : String
  kind : Kind
deriving DecidableEq, Inhabited

/-- What holds the fields of an instance, under the name of its type. -/
structure Store where
  typeName : String
  fields : Entries Script.Value
deriving Inhabited

namespace Store

def read? (s : Store) (name : String) : Option Script.Value := Entries.get? name s.fields

/-- Replaces the value of a field that is there, and tells whether it is. -/
def write (name : String) (v : Script.Value) (s : Store) : Bool × Store :=
  if (s.read? name).isSome then (true, { s with fields := Entries.insert name v s.fields }) else (false, s)

/-- The store with the value of a field that is there replaced. -/
def write? (s : Store) (name : String) (v : Script.Value) : Option Store :=
  let (written, s) := s.write name v
  if written then some s else none

end Store

namespace Accessor

/-- The value of the field in a store. -/
def get (a : Accessor) (s : Store) : Except Refusal Value :=
  match s.read? a.name with
  | none => .error (.notExposed s.typeName a.name)
  | some v =>
    match Value.ofScript? a.kind v with
    | none => .error (.corruptValue a.name a.kind)
    | some w => .ok w

/-- Sets the field in a store. -/
def put (a : Accessor) (v : Value) (s : Store) : Except Refusal Unit × Store :=
  match v.coerce? a.kind with
  | none => (.error (.kindMismatch a.name a.kind v.kind), s)
  | some w =>
    let (written, s) := s.write a.name w.toScript
    (if written then .ok () else .error (.notExposed s.typeName a.name), s)

/-- The store with the field set. -/
def set (a : Accessor) (s : Store) (v : Value) : Except Refusal Store :=
  let (done, s) := a.put v s
  done.map fun () => s

end Accessor

/-- The exposed fields of a type, in the order of their declarations. -/
structure Table where
  typeName : String
  accessors : List Accessor
deriving DecidableEq, Inhabited

/-- A field as an inspector lists it. -/
structure Entry where
  name : String
  kind : Kind
  value : Value
deriving DecidableEq, Inhabited

namespace Table

/-- The table of the given fields; those of kinds that cannot be edited are left out. -/
def ofFields (typeName : String) (fields : List (String × Kind)) : Table :=
  ⟨typeName, (fields.filter (·.2.isSupported)).map fun f => ⟨f.1, f.2⟩⟩

def accessor (t : Table) (name : String) : Except Refusal Accessor :=
  match t.accessors.find? (·.name == name) with
  | some a => .ok a
  | none => .error (.notExposed t.typeName name)

def get (t : Table) (s : Store) (name : String) : Except Refusal Value := do
  (← t.accessor name).get s

/-- Sets a field in a store. -/
def put (t : Table) (name : String) (v : Value) (s : Store) : Except Refusal Unit × Store :=
  match t.accessor name with
  | .error refusal => (.error refusal, s)
  | .ok a => a.put v s

/-- The store with a field set. -/
def set (t : Table) (s : Store) (name : String) (v : Value) : Except Refusal Store :=
  let (done, s) := t.put name v s
  done.map fun () => s

/-- The exposed fields whose values are in order. -/
def list (t : Table) (s : Store) : List Entry :=
  t.accessors.filterMap fun a =>
    match a.get s with
    | .ok v => some ⟨a.name, a.kind, v⟩
    | .error _ => none

end Table

end ScriptHost.Field
