import ScriptHost.Compiler
import ScriptHost.Field.Table

/-!
# Registry — the behaviour types that entities can carry

A type is registered when it can have instances and no other type of the unit shares its name.  The
registry of a unit with errors is empty and belongs to no unit.
-/

namespace ScriptHost

open Corpus (ScriptType Program FieldSpec)
open Script (Entries)

/-! ## 1. Descriptions -/

/-- A public field of a registered type; the default is there for kinds that can be inspected. -/
structure FieldDescriptor where
  name : String
  kind : Field.Kind
  isSupported : Bool
  default : Option Field.Value
deriving Inhabited

structure TypeDescriptor where
  name : String
  ancestry : List String
  hooks : HookSet
  fields : List FieldDescriptor
  location : Location
deriving Inhabited

namespace TypeDescriptor

def field? (d : TypeDescriptor) (name : String) : Option FieldDescriptor :=
  d.fields.find? (·.name == name)

def ofType (t : ScriptType) : TypeDescriptor where
  name := t.name
  ancestry := t.ancestry
  hooks := t.hooks
  fields := t.publicFields.map fun f =>
    ⟨f.name, f.kind, f.kind.isSupported, Field.Value.ofScript? f.kind f.default⟩
  location := t.location

/-- The fields of the type that are open to inspection. -/
def table (d : TypeDescriptor) : Field.Table :=
  .ofFields d.name (d.fields.map fun f => (f.name, f.kind))

end TypeDescriptor

/-- A name that several types of a unit share. -/
structure DuplicateType where
  name : String
  locations : List Location
deriving DecidableEq, Inhabited

def DuplicateType.message (d : DuplicateType) : String :=
  let places := String.intercalate ", " (d.locations.map Location.describe)
  s!"type `{d.name}` is declared {d.locations.length} times ({places}); it is not registered"

/-! ## 2. Registries -/

structure RegistryEntry where
  descriptor : TypeDescriptor
  program : Program
  table : Field.Table
deriving Inhabited

/-- The registered types in the order of their names. -/
structure Registry where
  unit : Option UnitId
  entries : Entries RegistryEntry
  warnings : List DuplicateType
deriving Inhabited

namespace Registry

/-- The registry before there is a unit. -/
def empty : Registry := ⟨none, [], []⟩

/-- The types of that name. -/
def declared (types : List ScriptType) (name : String) : List ScriptType :=
  types.filter (·.name == name)

/-- The names that several types share, in order. -/
def duplicates (types : List ScriptType) : List DuplicateType :=
  let groups : Entries (List Location) :=
    types.foldl (fun es t =>
      Entries.insert t.name ((declared types t.name).map (·.location)) es) []
  groups.filterMap fun (name, locations) =>
    if 1 < locations.length then some ⟨name, locations⟩ else none

/-- What is registered for a type of a unit. -/
def register? (types : List ScriptType) (t : ScriptType) : Option RegistryEntry :=
  if !t.isInstantiable || 1 < (declared types t.name).length then none
  else t.program.map fun p =>
    let d := TypeDescriptor.ofType t
    ⟨d, p, d.table⟩

/-- The registry of a unit. -/
def ofUnit (u : ScriptUnit) : Registry :=
  if u.passed then
    let entries := u.types.filterMap fun t => (register? u.types t).map fun e => (t.name, e)
    ⟨some u.id, Entries.ofList entries, duplicates u.types⟩
  else empty

def get? (r : Registry) (name : String) : Option RegistryEntry := Entries.get? name r.entries

def names (r : Registry) : List String := r.entries.map (·.1)

end Registry

end ScriptHost
