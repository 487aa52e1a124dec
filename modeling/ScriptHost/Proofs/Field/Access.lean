import Mathlib
import ScriptHost.Proofs.Field.Table
import ScriptHost.Proofs.Script.Entries
import ScriptHost.Proofs.Step

/-!
# Access — what is written is what is read

The fields of an instance are read and written through the table of its type.  A write is heard when the field is
exposed, the value goes over to its kind and the instance has something to replace; then the field reads as the value
that went over, whatever stood there before, and nothing else is different.
-/

namespace ScriptHost.Field

open Script (Entries)

/-! ## 1. Values and their kinds -/

namespace Value

/-- What a value is among those of a kind: itself if it is one of them, and a whole number is a float too. -/
inductive Coerces : Value → Kind → Value → Prop
  | same (v : Value) : Coerces v v.kind v
  | widened (n : Int) : Coerces (.int n) .float (.float (Float.ofInt n))

/-- What a script value shows in a field of a kind: the value it is written for, among those of the kind. -/
def Shows (stored : Script.Value) (k : Kind) (w : Value) : Prop :=
  ∃ v : Value, v.toScript = stored ∧ v.Coerces k w

variable {v w : Value} {k : Kind} {stored : Script.Value}

theorem coerce?_eq_some : v.coerce? k = some w ↔ v.Coerces k w := by
  constructor
  · intro h
    unfold coerce? at h
    split at h
    · cases h
      exact .widened _
    · split at h
      · next equal =>
        cases h
        exact equal ▸ .same _
      · cases h
  · rintro (_ | n)
    · cases v <;> rfl
    · rfl

/-- A value goes over to one of the kind it is for. -/
theorem Coerces.kind (h : v.Coerces k w) : w.kind = k := kind_of_coerce? (coerce?_eq_some.mpr h)

theorem ofScript?_eq_some : ofScript? k stored = some w ↔ Shows stored k w := by
  constructor
  · intro h
    unfold ofScript? at h
    split at h
    all_goals cases h
    exacts [⟨int _, rfl, .same (int _)⟩, ⟨float _, rfl, .same (float _)⟩, ⟨int _, rfl, .widened _⟩,
      ⟨bool _, rfl, .same (bool _)⟩, ⟨text _, rfl, .same (text _)⟩, ⟨vector2 .., rfl, .same (vector2 ..)⟩,
      ⟨vector3 .., rfl, .same (vector3 ..)⟩, ⟨vector4 .., rfl, .same (vector4 ..)⟩]
  · rintro ⟨v, rfl, coerces⟩
    cases coerces with
    | same => exact ofScript?_toScript _
    | widened n => rfl

/-- What went over to a kind is shown as it is. -/
theorem Coerces.shows (h : v.Coerces k w) : Shows w.toScript k w := ⟨w, rfl, h.kind ▸ .same w⟩

end Value

/-! ## 2. Stores -/

namespace Store

variable {s s' : Store} {name other : String} {x y : Script.Value}

theorem write?_eq_some :
    s.write? name x = some s' ↔
      (s.read? name).isSome = true ∧ s' = { s with fields := Entries.insert name x s.fields } := by
  rw [write?_eq]
  by_cases there : (s.read? name).isSome = true
  · rw [if_pos there, Option.some.injEq, and_iff_right there, eq_comm]
  · rw [if_neg there]
    exact iff_of_false (fun h => nomatch h) (fun h => there h.1)

theorem read?_of_write (h : s.write? name x = some s') : s'.read? name = some x := by
  obtain ⟨-, rfl⟩ := write?_eq_some.mp h
  exact Entries.get?_insert_self name x s.fields

theorem read?_of_write_of_ne (h : s.write? name x = some s') (apart : other ≠ name) :
    s'.read? other = s.read? other := by
  obtain ⟨-, rfl⟩ := write?_eq_some.mp h
  exact Entries.get?_insert_of_ne apart x s.fields

theorem typeName_of_write (h : s.write? name x = some s') : s'.typeName = s.typeName := by
  obtain ⟨-, rfl⟩ := write?_eq_some.mp h
  rfl

/-- A write behind a write to the same field is as if it were the only one. -/
theorem write?_of_write (h : s.write? name x = some s') (y : Script.Value) : s'.write? name y = s.write? name y := by
  have there : (s'.read? name).isSome = true := by
    rw [read?_of_write h]
    rfl
  obtain ⟨before, rfl⟩ := write?_eq_some.mp h
  rw [write?_eq, write?_eq, if_pos there, if_pos before]
  exact congrArg (fun fields => some { s with fields }) (Entries.insert_insert name x y s.fields)

end Store

/-! ## 3. Accessors -/

namespace Accessor

variable {a : Accessor} {s s' : Store} {v w : Value} {stored : Script.Value}

theorem get_eq_ok : a.get s = .ok w ↔ ∃ stored, s.read? a.name = some stored ∧ Value.Shows stored a.kind w := by
  simp only [← Value.ofScript?_eq_some, get]
  cases s.read? a.name with
  | none => simp
  | some stored =>
    simp only [Option.some.injEq, exists_eq_left']
    cases Value.ofScript? a.kind stored <;> simp

theorem get_of_corrupt (there : s.read? a.name = some stored) (corrupt : ∀ w, ¬ Value.Shows stored a.kind w) :
    a.get s = .error (.corruptValue a.name a.kind) := by
  have nothing : Value.ofScript? a.kind stored = none :=
    Option.eq_none_iff_forall_ne_some.mpr fun w h => corrupt w (Value.ofScript?_eq_some.mp h)
  rw [get, there]
  simp only [nothing]

/-- What is read from a field depends on nothing but the value of the field. -/
theorem get_congr (same : s'.read? a.name = s.read? a.name) (type : s'.typeName = s.typeName) : a.get s' = a.get s := by
  rw [get, get, same, type]

theorem set_eq_ok :
    a.set s v = .ok s' ↔ ∃ w, v.Coerces a.kind w ∧ s.write? a.name w.toScript = some s' := by
  simp only [← Value.coerce?_eq_some, set_eq]
  cases v.coerce? a.kind with
  | none => simp
  | some w =>
    simp only [Option.some.injEq, exists_eq_left']
    cases s.write? a.name w.toScript <;> simp

/-- A field that can be set once can be set again, as if it were the first time. -/
theorem set_of_set (h : a.set s v = .ok s') (u : Value) : a.set s' u = a.set s u := by
  obtain ⟨w, -, written⟩ := set_eq_ok.mp h
  simp only [set_eq]
  cases u.coerce? a.kind with
  | none => rfl
  | some x => simp only [Store.write?_of_write written, Store.typeName_of_write written]

end Accessor

/-! ## 4. Tables -/

namespace Table

variable {t : Table} {s s' : Store} {name : String} {v w : Value} {k : Kind} {typeName : String}
  {fields : List (String × Kind)}

/-- A field of a type is exposed if its kind can be edited. -/
def Exposed (fields : List (String × Kind)) (name : String) (k : Kind) : Prop :=
  (name, k) ∈ fields ∧ k.isSupported = true

/-- How a declared field is listed, if it can be read. -/
def shown? (t : Table) (s : Store) (f : String × Kind) : Option Entry :=
  (t.get s f.1).toOption.map fun w => ⟨f.1, f.2, w⟩

theorem mem_ofFields {a : Accessor} : a ∈ (ofFields typeName fields).accessors ↔ Exposed fields a.name a.kind := by
  obtain ⟨name, kind⟩ := a
  simp [ofFields, Exposed]

theorem distinct_ofFields (distinct : (fields.map (·.1)).Nodup) : (ofFields typeName fields).Distinct := by
  have names : (ofFields typeName fields).accessors.map (·.name) = (fields.filter (·.2.isSupported)).map (·.1) := by
    rw [ofFields, List.map_map]
    rfl
  rw [Distinct, names]
  exact distinct.sublist (List.filter_sublist.map _)

/-- The accessor that is found under a name is one of the table and bears the name. -/
theorem of_accessor {a : Accessor} (found : t.accessor name = .ok a) : a ∈ t.accessors ∧ a.name = name := by
  rw [accessor] at found
  cases first : t.accessors.find? (·.name == name) with
  | none =>
    rw [first] at found
    cases found
  | some b =>
    rw [first] at found
    cases found
    exact ⟨List.mem_of_find?_eq_some first, by simpa using List.find?_some first⟩

theorem accessor_eq_ok (distinct : t.Distinct) {a : Accessor} :
    t.accessor name = .ok a ↔ a ∈ t.accessors ∧ a.name = name := by
  refine ⟨of_accessor, ?_⟩
  rintro ⟨mem, rfl⟩
  exact accessor_of_mem distinct mem

/-- What is done through a table is done by one of its accessors. -/
theorem through_accessor_eq_ok {α : Type} (distinct : t.Distinct) {use : Accessor → Except Refusal α} {x : α} :
    (t.accessor name >>= use) = .ok x ↔ ∃ a ∈ t.accessors, a.name = name ∧ use a = .ok x := by
  constructor
  · intro h
    obtain ⟨a, found, done⟩ := exists_of_bind h
    obtain ⟨mem, same⟩ := of_accessor found
    exact ⟨a, mem, same, done⟩
  · rintro ⟨a, mem, rfl, done⟩
    rw [accessor_of_mem distinct mem]
    exact done

theorem get_eq_ok (distinct : t.Distinct) :
    t.get s name = .ok w ↔ ∃ a ∈ t.accessors, a.name = name ∧ a.get s = .ok w :=
  through_accessor_eq_ok distinct

theorem set_eq_ok (distinct : t.Distinct) :
    t.set s name v = .ok s' ↔ ∃ a ∈ t.accessors, a.name = name ∧ a.set s v = .ok s' := by
  rw [set_eq]
  exact through_accessor_eq_ok distinct

theorem set_of_mem (distinct : t.Distinct) {a : Accessor} (mem : a ∈ t.accessors) :
    t.set s a.name v = a.set s v := by
  rw [set_eq, accessor_of_mem distinct mem]
  rfl

/-- What is read under a name depends on nothing but the value under that name. -/
theorem get_congr (same : s'.read? name = s.read? name) (type : s'.typeName = s.typeName) :
    t.get s' name = t.get s name := by
  rw [get, get]
  cases found : t.accessor name with
  | error refusal => rfl
  | ok a =>
    obtain rfl : a.name = name := (of_accessor found).2
    exact Accessor.get_congr same type

/-- The fields are listed in the order of their declarations, each as it is read. -/
theorem list_ofFields (distinct : (fields.map (·.1)).Nodup) (s : Store) :
    (ofFields typeName fields).list s = fields.filterMap ((ofFields typeName fields).shown? s) := by
  have tabled : (ofFields typeName fields).Distinct := distinct_ofFields distinct
  rw [list_eq]
  change ((fields.filter (·.2.isSupported)).map fun f => (⟨f.1, f.2⟩ : Accessor)).filterMap _ = _
  rw [List.filterMap_map, List.filterMap_filter]
  refine List.filterMap_congr fun f mem => ?_
  obtain ⟨name, k⟩ := f
  by_cases supported : k.isSupported = true
  · have exposed : (⟨name, k⟩ : Accessor) ∈ (ofFields typeName fields).accessors :=
      mem_ofFields.mpr ⟨mem, supported⟩
    rw [if_pos supported, shown?, get_of_mem tabled exposed]
    simp only [Function.comp_apply, entry?]
    cases Accessor.get ⟨name, k⟩ s <;> rfl
  · -- No other field bears the name, so a kind that cannot be edited leaves it without an accessor.
    have hidden : name ∉ (ofFields typeName fields).accessors.map (·.name) := by
      intro listed
      obtain ⟨⟨_, k'⟩, exposed, rfl⟩ := List.mem_map.mp listed
      obtain ⟨mem', supported'⟩ := mem_ofFields.mp exposed
      cases List.inj_on_of_nodup_map distinct mem mem' rfl
      exact supported supported'
    rw [if_neg supported, shown?, get_of_not_mem hidden]
    rfl

/-- The field `name` of kind `k` holds `w`, and nothing else is different. -/
structure Holds (t : Table) (fields : List (String × Kind)) (s : Store) (name : String) (k : Kind) (w : Value)
    (s' : Store) : Prop where
  value : t.get s' name = .ok w
  others : ∀ other, other ≠ name → s'.read? other = s.read? other
  type : s'.typeName = s.typeName
  list : t.list s' = fields.filterMap fun f => if f.1 = name then some ⟨name, k, w⟩ else t.shown? s f
  again : ∀ u, t.set s' name u = t.set s name u

theorem holds_of_set (distinct : (fields.map (·.1)).Nodup) (exposed : Exposed fields name k) (coerces : v.Coerces k w)
    (h : (⟨name, k⟩ : Accessor).set s v = .ok s') :
    (ofFields typeName fields).Holds fields s name k w s' := by
  have tabled : (ofFields typeName fields).Distinct := distinct_ofFields distinct
  have mem : (⟨name, k⟩ : Accessor) ∈ (ofFields typeName fields).accessors := mem_ofFields.mpr exposed
  obtain ⟨w', coerces', written⟩ := Accessor.set_eq_ok.mp h
  obtain rfl : w' = w := Option.some.inj <|
    (Value.coerce?_eq_some.mpr coerces').symm.trans (Value.coerce?_eq_some.mpr coerces)
  have value : (ofFields typeName fields).get s' name = .ok w' := by
    rw [get_of_mem tabled mem]
    exact Accessor.get_eq_ok.mpr ⟨_, Store.read?_of_write written, coerces.shows⟩
  have others (other : String) (apart : other ≠ name) : s'.read? other = s.read? other :=
    Store.read?_of_write_of_ne written apart
  have type := Store.typeName_of_write written
  refine ⟨value, others, type, ?_, fun u => ?_⟩
  · rw [list_ofFields distinct]
    refine List.filterMap_congr fun f listed => ?_
    by_cases same : f.1 = name
    · obtain rfl : f = (name, k) := List.inj_on_of_nodup_map distinct listed exposed.1 same
      rw [if_pos rfl, shown?, value]
      rfl
    · -- The others are shown from what the write has left alone.
      rw [if_neg same, shown?, shown?, get_congr (others f.1 same) type]
  · rw [set_of_mem tabled mem, set_of_mem tabled mem, Accessor.set_of_set h u]

/-- **Reading and writing fields.**  Let a table be made of fields with different names.  A field is read if it is
    exposed, the instance has a value for it and this value shows one of its kind; a value that shows none is reported
    as corrupt.  The list holds the fields that can be read, in the order of their declarations.  A write succeeds if
    the field is exposed, the value goes over to its kind and the instance has something in its place, of any type; the
    field then reads as the value that went over, everything else is as it was, in the list too, and one more write to
    the field does what it would have done in the first place. -/
theorem access_exact (typeName : String) (distinct : (fields.map (·.1)).Nodup) (s : Store) :
    let t := ofFields typeName fields
    (∀ name a, t.accessor name = .ok a ↔ Exposed fields a.name a.kind ∧ a.name = name) ∧
      (∀ name w, t.get s name = .ok w ↔
        ∃ k stored, Exposed fields name k ∧ s.read? name = some stored ∧ Value.Shows stored k w) ∧
      (∀ name k stored, Exposed fields name k → s.read? name = some stored →
        (∀ w, ¬ Value.Shows stored k w) → t.get s name = .error (.corruptValue name k)) ∧
      t.list s = fields.filterMap (t.shown? s) ∧
      ∀ name v,
        ((∃ s', t.set s name v = .ok s') ↔
          ∃ k w, Exposed fields name k ∧ v.Coerces k w ∧ (s.read? name).isSome = true) ∧
        ∀ s', t.set s name v = .ok s' →
          ∃ k w, Exposed fields name k ∧ v.Coerces k w ∧ t.Holds fields s name k w s' := by
  have tabled : (ofFields typeName fields).Distinct := distinct_ofFields distinct
  refine ⟨fun name a => ?_, fun name w => ?_, fun name k stored exposed there corrupt => ?_, list_ofFields distinct s,
    fun name v => ⟨⟨?_, ?_⟩, fun s' h => ?_⟩⟩
  · rw [accessor_eq_ok tabled, mem_ofFields]
  · rw [get_eq_ok tabled]
    constructor
    · rintro ⟨a, mem, rfl, h⟩
      obtain ⟨stored, there, shows⟩ := Accessor.get_eq_ok.mp h
      exact ⟨a.kind, stored, mem_ofFields.mp mem, there, shows⟩
    · rintro ⟨k, stored, exposed, there, shows⟩
      exact ⟨⟨name, k⟩, mem_ofFields.mpr exposed, rfl, Accessor.get_eq_ok.mpr ⟨stored, there, shows⟩⟩
  · rw [get_of_mem tabled (mem_ofFields (a := ⟨name, k⟩).mpr exposed)]
    exact Accessor.get_of_corrupt there corrupt
  · rintro ⟨s', h⟩
    obtain ⟨a, mem, rfl, done⟩ := (set_eq_ok tabled).mp h
    obtain ⟨w, coerces, written⟩ := Accessor.set_eq_ok.mp done
    exact ⟨a.kind, w, mem_ofFields.mp mem, coerces, (Store.write?_eq_some.mp written).1⟩
  · rintro ⟨k, w, exposed, coerces, there⟩
    have written : s.write? name w.toScript = some _ := Store.write?_eq_some.mpr ⟨there, rfl⟩
    exact ⟨_, (set_eq_ok tabled).mpr ⟨⟨name, k⟩, mem_ofFields.mpr exposed, rfl,
      Accessor.set_eq_ok.mpr ⟨w, coerces, written⟩⟩⟩
  · obtain ⟨a, mem, rfl, done⟩ := (set_eq_ok tabled).mp h
    obtain ⟨w, coerces, -⟩ := Accessor.set_eq_ok.mp done
    exact ⟨a.kind, w, mem_ofFields.mp mem, coerces, holds_of_set distinct (mem_ofFields.mp mem) coerces done⟩

/-- A probe whose speed was overwritten with a text, and which has lost its label. -/
def probe : Store := ⟨"Probe", [("lit", .bool true), ("path", .array []), ("speed", .text "fast")]⟩

def probeFields : List (String × Kind) := [("speed", .float), ("label", .text), ("path", .array), ("lit", .bool)]

/-- The speed is corrupt until a whole number is written to it; then it is listed in front of the light. -/
theorem access_probe :
    (probeFields.map (·.1)).Nodup ∧
      (let t := ofFields "Probe" probeFields
       t.get probe "speed" = .error (.corruptValue "speed" .float) ∧
         t.list probe = [⟨"lit", .bool, .bool true⟩] ∧
         ∃ s', t.set probe "speed" (.int 3) = .ok s' ∧ t.get s' "speed" = .ok (.float (Float.ofInt 3)) ∧
           t.list s' = [⟨"speed", .float, .float (Float.ofInt 3)⟩, ⟨"lit", .bool, .bool true⟩]) := by
  have distinct : (probeFields.map (·.1)).Nodup := by decide +kernel
  obtain ⟨-, -, corrupt, list, writes⟩ := access_exact "Probe" distinct probe
  obtain ⟨heard, holds⟩ := writes "speed" (.int 3)
  have exposed : Exposed probeFields "speed" .float := ⟨.head _, rfl⟩
  have unshown (w : Value) : ¬ Value.Shows (.text "fast") .float w := fun shown =>
    nomatch Value.ofScript?_eq_some.mpr shown
  obtain ⟨s', done⟩ := heard.mpr ⟨.float, _, exposed, .widened 3, rfl⟩
  obtain ⟨k, w, exposed', coerces, held⟩ := holds s' done
  obtain rfl : k = .float := congrArg Prod.snd (List.inj_on_of_nodup_map distinct exposed'.1 exposed.1 rfl)
  obtain rfl : .float (Float.ofInt 3) = w := Option.some.inj (Value.coerce?_eq_some.mpr coerces)
  have there : probe.read? "speed" = some (.text "fast") := by cbv
  have before : (ofFields "Probe" probeFields).list probe = [⟨"lit", .bool, .bool true⟩] := by cbv
  have after (w : Value) :
      (probeFields.filterMap fun f => if f.1 = "speed" then some ⟨"speed", .float, w⟩
        else (ofFields "Probe" probeFields).shown? probe f) =
      [⟨"speed", .float, w⟩, ⟨"lit", .bool, .bool true⟩] := by cbv
  exact ⟨distinct, corrupt "speed" .float _ exposed there unshown, before, s', done, held.value,
    held.list.trans (after _)⟩

end Table

end ScriptHost.Field
