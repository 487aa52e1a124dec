import ScriptHost.Instance

/-!
# Registry — what stands behind a registered name

A registered name stands for the program of a type that has this name in the unit of the registry.
-/

namespace ScriptHost

open Corpus (ScriptType Program)
open Script (Entries)

namespace Registry

variable {u : ScriptUnit} {r : Registry} {name : String} {entry : RegistryEntry}

/-- Each program goes by the name under which it is registered. -/
def Named (r : Registry) : Prop :=
  ∀ name entry, r.get? name = some entry → entry.program.typeName = name

theorem get?_empty (name : String) : empty.get? name = none := rfl

theorem named_empty : empty.Named := by
  intro name entry h
  rw [get?_empty] at h
  exact absurd h.symm (Option.some_ne_none entry)

theorem ofUnit_of_passed (passed : u.passed = true) :
    ofUnit u = ⟨some u.id,
      Entries.ofList (u.types.filterMap fun t => (register? u.types t).map fun e => (t.name, e)),
      duplicates u.types⟩ := if_pos passed

theorem unit_ofUnit (passed : u.passed = true) : (ofUnit u).unit = some u.id := by
  rw [ofUnit_of_passed passed]

/-- What is registered for a type runs the program of the type. -/
theorem program_of_register? {types : List ScriptType} {t : ScriptType}
    (h : register? types t = some entry) : t.program = some entry.program := by
  rw [register?] at h
  split at h
  · exact absurd h.symm (Option.some_ne_none entry)
  · obtain ⟨p, hp, rfl⟩ := Option.map_eq_some_iff.mp h
    exact hp

theorem descriptor_of_register? {types : List ScriptType} {t : ScriptType}
    (h : register? types t = some entry) : entry.descriptor = .ofType t := by
  rw [register?] at h
  split at h
  · exact absurd h.symm (Option.some_ne_none entry)
  · obtain ⟨p, -, rfl⟩ := Option.map_eq_some_iff.mp h
    rfl

/-- A name is registered for a type of the unit that has it. -/
theorem exists_type_of_get?_ofUnit (h : (ofUnit u).get? name = some entry) :
    ∃ t ∈ u.types, t.name = name ∧ register? u.types t = some entry := by
  by_cases passed : u.passed = true
  · rw [ofUnit_of_passed passed] at h
    have hm := Entries.mem_of_get?_ofList h
    obtain ⟨t, ht, he⟩ := List.mem_filterMap.mp hm
    obtain ⟨entry', hr, heq⟩ := Option.map_eq_some_iff.mp he
    obtain ⟨rfl, rfl⟩ := Prod.mk.inj heq
    exact ⟨t, ht, rfl, hr⟩
  · have he : ofUnit u = empty := if_neg passed
    rw [he, get?_empty] at h
    exact absurd h.symm (Option.some_ne_none entry)

theorem named_ofUnit (programs : ∀ t ∈ u.types, ∀ p, t.program = some p → p.typeName = t.name) :
    (ofUnit u).Named := by
  intro name entry h
  obtain ⟨t, ht, rfl, hr⟩ := exists_type_of_get?_ofUnit h
  exact programs t ht entry.program (program_of_register? hr)

/-- An instance is made of a registered name, and of no other. -/
theorem instantiate?_of_get?_none (h : r.get? name = none) (owner : Entity) :
    r.instantiate? name owner = none := by
  rw [instantiate?, h, Option.map_none]

theorem instantiate?_of_get?_some (h : r.get? name = some entry) (owner : Entity) :
    r.instantiate? name owner = some (.fresh entry.program owner) := by
  rw [instantiate?, h, Option.map_some]

end Registry

end ScriptHost
