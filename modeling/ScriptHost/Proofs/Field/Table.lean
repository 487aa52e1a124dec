import Mathlib.Data.List.Nodup
import ScriptHost.Field.Table

/-!
# Table — what a table shows is what it gives

A table decides by name which fields there are, and the store decides which of them have a value.  As long as
no name stands in the table twice, a field is listed exactly when it can be read, with the value that is read.
-/

namespace ScriptHost.Field

open Script (Entries)

variable {t : Table} {s : Store} {a : Accessor} {name : String} {v : Value}

/-- What is read has the kind of the field. -/
theorem Accessor.kind_of_get (h : a.get s = .ok v) : v.kind = a.kind := by
  unfold Accessor.get at h
  cases hr : s.read? a.name with
  | none => simp [hr] at h
  | some w =>
    cases hw : Value.ofScript? a.kind w with
    | none => simp [hr, hw] at h
    | some x =>
      obtain rfl : x = v := by simpa [hr, hw] using h
      exact Value.kind_of_ofScript? hw

theorem Store.write?_eq (s : Store) (name : String) (x : Script.Value) :
    s.write? name x =
      if (s.read? name).isSome then some { s with fields := Entries.insert name x s.fields } else none := by
  rw [write?, write]
  cases (s.read? name).isSome <;> rfl

/-- Where there is nothing to replace, a store stays as it is. -/
theorem Store.write_cases (s : Store) (name : String) (x : Script.Value) :
    (s.write name x = (false, s) ∧ s.write? name x = none) ∨
      ∃ s', s.write name x = (true, s') ∧ s.write? name x = some s' := by
  rw [write?_eq, write]
  split
  · exact .inr ⟨_, rfl, rfl⟩
  · exact .inl ⟨rfl, rfl⟩

theorem Accessor.set_eq (a : Accessor) (s : Store) (v : Value) :
    a.set s v = match v.coerce? a.kind with
      | none => .error (.kindMismatch a.name a.kind v.kind)
      | some w => (match s.write? a.name w.toScript with
        | none => .error (.notExposed s.typeName a.name)
        | some s => .ok s) := by
  rw [set, put]
  cases v.coerce? a.kind with
  | none => rfl
  | some w =>
    dsimp only
    rcases s.write_cases a.name w.toScript with ⟨kept, none⟩ | ⟨s', written, some⟩
    · rw [kept, none]
      rfl
    · rw [written, some]
      rfl

/-- Who is refused has changed nothing. -/
theorem Accessor.put_of_error {refusal : Refusal} (h : (a.put v s).1 = .error refusal) : (a.put v s).2 = s := by
  rw [put] at h ⊢
  cases coerced : v.coerce? a.kind with
  | none => rfl
  | some w =>
    rw [coerced] at h
    dsimp only at h ⊢
    rcases s.write_cases a.name w.toScript with ⟨kept, -⟩ | ⟨s', written, -⟩
    · rw [kept]
    · rw [written] at h
      exact nomatch h

namespace Table

theorem set_eq (t : Table) (s : Store) (name : String) (v : Value) :
    t.set s name v = t.accessor name >>= fun a => a.set s v := by
  rw [set, put]
  cases t.accessor name <;> rfl

theorem put_of_error {refusal : Refusal} (h : (t.put name v s).1 = .error refusal) : (t.put name v s).2 = s := by
  rw [put] at h ⊢
  cases found : t.accessor name with
  | error refusal => rfl
  | ok a =>
    rw [found] at h
    exact Accessor.put_of_error h

/-- No name stands in the table twice. -/
def Distinct (t : Table) : Prop := (t.accessors.map (·.name)).Nodup

/-- How a field is listed, if it is. -/
def entry? (s : Store) (a : Accessor) : Option Entry :=
  match a.get s with
  | .ok v => some ⟨a.name, a.kind, v⟩
  | .error _ => none

theorem list_eq (t : Table) (s : Store) : t.list s = t.accessors.filterMap fun a => entry? s a := rfl

theorem entry?_eq_some {e : Entry} :
    entry? s a = some e ↔ e.name = a.name ∧ e.kind = a.kind ∧ a.get s = .ok e.value := by
  obtain ⟨name, kind, value⟩ := e
  unfold entry?
  cases a.get s with
  | ok v => simp [eq_comm]
  | error refusal => simp

theorem mem_list {e : Entry} :
    e ∈ t.list s ↔ ∃ a ∈ t.accessors, e.name = a.name ∧ e.kind = a.kind ∧ a.get s = .ok e.value := by
  rw [list_eq, List.mem_filterMap]
  exact exists_congr fun a => and_congr_right fun _ => entry?_eq_some

/-- The fields are listed in their order, some of them perhaps not. -/
theorem list_sublist (t : Table) (s : Store) :
    ((t.list s).map fun e => (e.name, e.kind)).Sublist (t.accessors.map fun a => (a.name, a.kind)) := by
  rw [list_eq]
  induction t.accessors with
  | nil => exact .slnil
  | cons a as ih =>
    cases he : entry? s a with
    | none =>
      rw [List.filterMap_cons_none he]
      exact ih.cons _
    | some e =>
      obtain ⟨name, kind, -⟩ := entry?_eq_some.mp he
      rw [List.filterMap_cons_some he, List.map_cons, List.map_cons, name, kind]
      exact ih.cons_cons _

theorem Distinct.list (h : t.Distinct) (s : Store) : ((t.list s).map (·.name)).Nodup := by
  have names := (t.list_sublist s).map Prod.fst
  rw [List.map_map, List.map_map] at names
  exact h.sublist names

theorem kind_of_mem_list {e : Entry} (h : e ∈ t.list s) : e.value.kind = e.kind := by
  obtain ⟨a, -, -, kind, value⟩ := mem_list.mp h
  rw [kind]
  exact Accessor.kind_of_get value

theorem accessor_of_not_mem (h : name ∉ t.accessors.map (·.name)) :
    t.accessor name = .error (.notExposed t.typeName name) := by
  have none : t.accessors.find? (·.name == name) = none := by
    rw [List.find?_eq_none]
    intro a ha same
    exact h (List.mem_map.mpr ⟨a, ha, eq_of_beq same⟩)
  rw [accessor, none]

theorem accessor_of_mem (distinct : t.Distinct) (mem : a ∈ t.accessors) : t.accessor a.name = .ok a := by
  have found : t.accessors.find? (·.name == a.name) = some a := by
    cases hf : t.accessors.find? (·.name == a.name) with
    | none => exact absurd (beq_self_eq_true a.name) (List.find?_eq_none.mp hf a mem)
    | some b =>
      have same : b.name = a.name := by simpa using List.find?_some hf
      rw [List.inj_on_of_nodup_map distinct (List.mem_of_find?_eq_some hf) mem same]
  rw [accessor, found]

/-- A name that is not in the table is refused, whatever the store holds under it. -/
theorem get_of_not_mem (h : name ∉ t.accessors.map (·.name)) :
    t.get s name = .error (.notExposed t.typeName name) := by
  rw [get, accessor_of_not_mem h]
  rfl

theorem get_of_mem (distinct : t.Distinct) (mem : a ∈ t.accessors) : t.get s a.name = a.get s := by
  rw [get, accessor_of_mem distinct mem]
  rfl

/-- What can be read is what is listed. -/
theorem get_eq_ok_iff (distinct : t.Distinct) :
    t.get s name = .ok v ↔ ∃ kind, (⟨name, kind, v⟩ : Entry) ∈ t.list s := by
  constructor
  · intro h
    by_cases mem : name ∈ t.accessors.map (·.name)
    · obtain ⟨a, ha, rfl⟩ := List.mem_map.mp mem
      rw [get_of_mem distinct ha] at h
      exact ⟨a.kind, mem_list.mpr ⟨a, ha, rfl, rfl, h⟩⟩
    · rw [get_of_not_mem mem] at h
      exact absurd h (by simp)
  · rintro ⟨kind, mem⟩
    obtain ⟨a, ha, same, -, value⟩ := mem_list.mp mem
    change name = a.name at same
    rw [same, get_of_mem distinct ha]
    exact value

end Table

end ScriptHost.Field
