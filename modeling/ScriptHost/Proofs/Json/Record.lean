import ScriptHost.Json.Record
import Mathlib.Data.List.Nodup

/-!
# Record — records and lists read back

An object with every field of a record under its own name is read as that record; lists and values that may be
missing are read back if their parts are.
-/

namespace ScriptHost.Json

variable {α : Type} {f : α → Json} {read : Json → Option α} {members : List (String × Json)}

theorem eraseDups_of_nodup {names : List String} (distinct : names.Nodup) : names.eraseDups = names := by
  induction names with
  | nil => rfl
  | cons name names ih =>
    obtain ⟨notMem, distinct⟩ := List.nodup_cons.mp distinct
    have others : names.filter (fun n => !n == name) = names := by
      apply List.filter_eq_self.mpr
      intro n hn
      have : n ≠ name := fun same => notMem (same ▸ hn)
      simpa using this
    rw [List.eraseDups_cons, others, ih distinct]

theorem find?_of_mem {m : String × Json} (distinct : (members.map (·.1)).Nodup) (h : m ∈ members) :
    members.find? (·.1 == m.1) = some m := by
  induction members with
  | nil => cases h
  | cons first members ih =>
    obtain ⟨notMem, distinct⟩ : first.1 ∉ members.map (·.1) ∧ (members.map (·.1)).Nodup :=
      List.nodup_cons.mp distinct
    rcases List.mem_cons.mp h with rfl | h
    · exact List.find?_cons_of_pos (beq_self_eq_true _)
    · have other : first.1 ≠ m.1 := by
        intro same
        rw [same] at notMem
        exact notMem (List.mem_map_of_mem h)
      rw [List.find?_cons_of_neg (by simpa using other), ih distinct h]

theorem record?_members (distinct : (members.map (·.1)).Nodup) :
    record? (members.map (·.1)) (.object members) = some ⟨members.map fun m => some m.2⟩ := by
  have known : members.filter (fun m => (members.map (·.1)).contains m.1) = members := by
    apply List.filter_eq_self.mpr
    intro m hm
    exact List.contains_iff_mem.mpr (List.mem_map_of_mem hm)
  have values : (members.map (·.1)).map (fun name => (members.find? (·.1 == name)).map (·.2)) =
      members.map fun m => some m.2 := by
    rw [List.map_map]
    apply List.map_congr_left
    intro m hm
    simp [find?_of_mem distinct hm]
  simp only [record?, known, eraseDups_of_nodup distinct, List.length_map, beq_self_eq_true, if_true, values]

/-- The record with every field written. -/
def Record.full (values : List Json) : Record := ⟨values.map some⟩

/-- Values under the names of the fields are the fields. -/
theorem record?_object {names : List String} (values : List Json) (distinct : names.Nodup)
    (length : names.length = values.length) :
    record? names (.object (names.zip values)) = some (.full values) := by
  have first : (names.zip values).map (·.1) = names := List.map_fst_zip (Nat.le_of_eq length)
  have second : (names.zip values).map (fun m => some m.2) = values.map some := by
    have values' : (names.zip values).map (·.2) = values := List.map_snd_zip (Nat.le_of_eq length.symm)
    have both : ((names.zip values).map (·.2)).map some = (names.zip values).map fun m => some m.2 := List.map_map
    rw [← both, values']
  have record := record?_members (first.symm ▸ distinct)
  rw [first, second] at record
  exact record

theorem listOf_ofList {as : List α} (back : ∀ a ∈ as, read (f a) = some a) :
    listOf read (ofList f as) = some as := by
  show (as.map f).mapM read = some as
  induction as with
  | nil => rfl
  | cons a as ih =>
    obtain ⟨first, later⟩ := List.forall_mem_cons.mp back
    simp [first, ih later]

/-- What may be missing is read back, if nothing that is there is written as null. -/
theorem nullable_ofOption {a? : Option α} (back : ∀ a ∈ a?, read (f a) = some a ∧ f a ≠ .null) :
    nullable read (ofOption f a?) = some a? := by
  cases a? with
  | none => rfl
  | some a =>
    obtain ⟨same, notNull⟩ := back a rfl
    show nullable read (f a) = _
    rw [nullable]
    · rw [same]
      rfl
    · exact notNull

end ScriptHost.Json
