import ScriptHost.Proofs.Compiler.Active
import ScriptHost.Proofs.Corpus.Descent
import ScriptHost.Proofs.Registry
import ScriptHost.Proofs.Script.Entries

/-!
# Membership — which names are registered

Two checks look for names that several types share: linking, along the bases of each type, and the registry,
among the types themselves.  Together they register a name exactly where it is declared once, for a type that
is not abstract, and descends from the built-in base by way of names that are declared once as well.
-/

namespace ScriptHost

open Corpus
open Relation (ReflTransGen)
open Script (Entries)

variable {ns : List Node} {ms : List Module} {emit : Bool} {types : List ScriptType} {t : ScriptType}
  {name : String} {names : List String} {entry : RegistryEntry}

/-! ## 1. The types of a unit and their declarations -/

/-- The type is what the declaration `i` was linked to, with its program. -/
structure Corpus.LinkedAt (ns : List Node) (t : ScriptType) (i : Nat) : Prop where
  declares : Declares ns t.name i
  isAbstract : ∀ n, ns[i]? = some n → n.decl.isAbstract = t.isAbstract
  isBehaviour : t.isBehaviour = (walk ns i).ancestry.isBehaviour
  ancestry : t.ancestry = namesOf ns ((walk ns i).ancestry.chain i)
  program : t.program.isSome = t.isInstantiable

theorem Corpus.linkedAt_equip {i : Nat} {n : Node} (there : ns[i]? = some n) :
    LinkedAt ns (equip ms ns (resolvedAt ns i n)) i := by
  by_cases instantiable : (resolvedAt ns i n).type.isInstantiable = true
  · rw [equip_of_instantiable instantiable]
    exact ⟨⟨n, there, rfl⟩, fun m hm => Option.some.inj (hm.symm.trans there) ▸ rfl, rfl, rfl,
      instantiable.symm⟩
  · rw [equip_of_not_instantiable instantiable]
    exact ⟨⟨n, there, rfl⟩, fun m hm => Option.some.inj (hm.symm.trans there) ▸ rfl, rfl, rfl,
      (Bool.eq_false_iff.mpr instantiable).symm⟩

/-- Every type was linked from a declaration. -/
theorem Corpus.exists_linkedAt (made : makesPrograms ms emit = true) (ht : t ∈ (link ms emit).types) :
    ∃ i, LinkedAt (Node.ofModules ms) t i := by
  rw [types_of_makes made] at ht
  obtain ⟨r, hr, rfl⟩ := List.mem_map.mp ht
  obtain ⟨i, n, there, rfl⟩ := mem_resolveAll.mp hr
  exact ⟨i, linkedAt_equip there⟩

/-- Every declaration was linked to a type. -/
theorem Corpus.exists_type_of_declares {i : Nat} (made : makesPrograms ms emit = true)
    (h : Declares (Node.ofModules ms) name i) :
    ∃ t ∈ (link ms emit).types, t.name = name ∧ LinkedAt (Node.ofModules ms) t i := by
  obtain ⟨n, there, rfl⟩ := h
  have linked : LinkedAt _ (equip ms _ _) i := linkedAt_equip there
  refine ⟨_, ?_, ?_, linked⟩
  · rw [types_of_makes made]
    exact List.mem_map_of_mem (mem_resolveAll.mpr ⟨i, n, there, rfl⟩)
  · exact equip_name ms _ _

/-- Types stand in the order of their declarations, each with its name and its place. -/
theorem Corpus.types_places (made : makesPrograms ms emit = true) :
    (link ms emit).types.map (fun t => (t.name, t.location)) =
      (Node.ofModules ms).map fun n => (n.name, n.location) := by
  have place : ∀ r ∈ resolveAll (Node.ofModules ms),
      ((equip ms (Node.ofModules ms) r).name, (equip ms (Node.ofModules ms) r).location) =
        (r.type.name, r.type.location) := by
    intro r _
    by_cases instantiable : r.type.isInstantiable = true
    · rw [equip_of_instantiable instantiable]
    · rw [equip_of_not_instantiable instantiable]
  rw [types_of_makes made, List.map_map]
  refine (List.map_congr_left place).trans ?_
  rw [resolveAll, List.map_map]
  show (Node.ofModules ms).zipIdx.map ((fun n => (n.name, n.location)) ∘ Prod.fst) = _
  rw [← List.map_map, List.zipIdx_map_fst]

namespace Registry

/-- The types that go by a name are those that were declared under it. -/
theorem locations_declared
    (places : types.map (fun t => (t.name, t.location)) = ns.map fun n => (n.name, n.location))
    (name : String) :
    (declared types name).map (·.location) = (declarations ns name).map Node.location := by
  have chosen := congrArg (fun ps => (ps.filter fun p : String × Location => p.1 == name).map (·.2)) places
  simp only [List.filter_map, List.map_map] at chosen
  exact chosen

/-! ## 2. Registered names -/

theorem register?_isSome_iff (program : t.program.isSome = t.isInstantiable) :
    (register? types t).isSome = true ↔ t.isInstantiable = true ∧ (declared types t.name).length ≤ 1 := by
  rw [register?]
  split
  · next refused =>
    rw [Bool.or_eq_true, Bool.not_eq_true', decide_eq_true_iff] at refused
    constructor
    · exact fun h => absurd h.symm (by simp)
    · rintro ⟨instantiable, once⟩
      rcases refused with refused | refused
      · exact absurd (instantiable.symm.trans refused) (by decide)
      · omega
  · next accepted =>
    rw [Bool.or_eq_true, Bool.not_eq_true', decide_eq_true_iff, not_or, Bool.not_eq_false, not_lt]
      at accepted
    rw [Option.isSome_map, program]
    exact ⟨fun _ => accepted, And.left⟩

theorem ancestry_of_register? (h : register? types t = some entry) :
    entry.descriptor.ancestry = t.ancestry := by
  rw [descriptor_of_register? h]
  rfl

/-- A type alone of its name is what is found under the name, if it is registered at all. -/
theorem get?_ofUnit_of_register? {u : ScriptUnit} (passed : u.passed = true) (ht : t ∈ u.types)
    (once : (declared u.types t.name).length ≤ 1) (h : register? u.types t = some entry) :
    (ofUnit u).get? t.name = some entry := by
  have put : t.name ∈ (u.types.filterMap fun t => (register? u.types t).map fun e => (t.name, e)).map
      (·.1) :=
    List.mem_map.mpr ⟨(t.name, entry), List.mem_filterMap.mpr ⟨t, ht, by rw [h]; rfl⟩, rfl⟩
  obtain ⟨entry', found⟩ := Entries.exists_get?_ofList put
  have found' : (ofUnit u).get? t.name = some entry' := by
    rw [get?, ofUnit_of_passed passed]
    exact found
  obtain ⟨t', ht', named, h'⟩ := exists_type_of_get?_ofUnit found'
  -- Both types have the name, and there is room for one.
  have mem : t ∈ declared u.types t.name := List.mem_filter.mpr ⟨ht, beq_iff_eq.mpr rfl⟩
  have mem' : t' ∈ declared u.types t.name := List.mem_filter.mpr ⟨ht', beq_iff_eq.mpr named⟩
  have same : t = t' := by
    match declared u.types t.name, mem, mem', once with
    | [_], mem, mem', _ => exact (List.mem_singleton.mp mem).trans (List.mem_singleton.mp mem').symm
    | _ :: _ :: _, _, _, once => exact absurd once (by simp)
  rw [found', ← h', ← same, h]

/-! ## 3. Warnings -/

theorem mem_duplicates {d : DuplicateType} :
    d ∈ duplicates types ↔ 1 < (declared types d.name).length ∧
      d.locations = (declared types d.name).map (·.location) := by
  rw [duplicates]
  simp only [List.mem_filterMap]
  constructor
  · rintro ⟨⟨name, locations⟩, mem, made⟩
    obtain ⟨same, -⟩ := (Entries.mem_foldl_insert (k := ScriptType.name)
      (v := fun name => (declared types name).map (·.location))).mp mem
    dsimp only at same
    split at made
    · next several =>
      obtain rfl := Option.some.inj made
      rw [same, List.length_map] at several
      exact ⟨several, same⟩
    · exact nomatch made
  · rintro ⟨several, same⟩
    have first : ∃ t ∈ types, t.name = d.name := by
      obtain ⟨t, ht⟩ := List.exists_mem_of_length_pos (Nat.zero_lt_of_lt several)
      obtain ⟨mem, named⟩ := List.mem_filter.mp ht
      exact ⟨t, mem, eq_of_beq named⟩
    refine ⟨(d.name, d.locations), (Entries.mem_foldl_insert (k := ScriptType.name)
      (v := fun name => (declared types name).map (·.location))).mpr ⟨same, first⟩, if_pos ?_⟩
    show 1 < d.locations.length
    rw [same, List.length_map]
    exact several

/-- There is one warning for a name, and the names ascend. -/
theorem duplicates_sorted (types : List ScriptType) :
    ((duplicates types).map (·.name)).Pairwise (· < ·) := by
  let put (t : ScriptType) := (t.name, (declared types t.name).map (·.location))
  have sorted : Entries.Sorted (types.foldl (fun es t => Entries.insert (put t).1 (put t).2 es) []) :=
    Entries.sorted_foldl List.Pairwise.nil
  refine List.Pairwise.sublist ?_ sorted
  rw [duplicates]
  -- A warning keeps the name of its group.
  generalize types.foldl _ [] = groups
  induction groups with
  | nil => exact List.Sublist.refl _
  | cons g groups ih =>
    rw [List.filterMap_cons]
    split
    · exact ih.cons _
    · next d made =>
      obtain ⟨-, made⟩ := Option.ite_none_right_eq_some.mp made
      obtain rfl := Option.some.inj made
      exact ih.cons_cons _

/-! ## 4. The registry of a corpus -/

/-- The name can be registered: one type has it, which is not abstract and descends from the built-in base
    by way of `names`, each declared exactly once. -/
structure Registrable (ns : List Node) (name : String) (names : List String) : Prop where
  concrete : ∀ n ∈ declarations ns name, n.decl.isAbstract = false
  descends : Descends ns name names

/-- What a registry says of the declarations of its unit, no more and no less. -/
structure Exact (ns : List Node) (r : Registry) : Prop where
  registered_iff : ∀ name names,
    (∃ entry, r.get? name = some entry ∧ entry.descriptor.ancestry = names) ↔ Registrable ns name names
  /-- One warning for each name that is declared again, with all its places. -/
  warned_iff : ∀ d, d ∈ r.warnings ↔
    DeclaredAgain ns d.name ∧ d.locations = (declarations ns d.name).map Node.location
  warned_once : (r.warnings.map (·.name)).Pairwise (· < ·)
  /-- A name below one that is declared again, however far, is not registered. -/
  below : ∀ name base, ReflTransGen (Derives ns) name base → DeclaredAgain ns base → r.get? name = none

variable {i : Nat}

/-- A type is registered where it can be instantiated and its name is declared once. -/
theorem Registrable.of_registered (linked : LinkedAt ns t i) (once : DeclaresAlone ns t.name i)
    (instantiable : t.isInstantiable = true) : Registrable ns t.name t.ancestry := by
  obtain ⟨behaviour, concrete⟩ := Bool.and_eq_true_iff.mp instantiable
  obtain ⟨n, there, alone⟩ := declaresAlone_iff.mp once
  have inside : i < ns.length := once.1.lt_length
  constructor
  · intro m hm
    rw [alone] at hm
    obtain rfl := List.mem_singleton.mp hm
    rw [linked.isAbstract m there]
    exact (Bool.not_eq_true' _).mp concrete
  · rw [linked.isBehaviour] at behaviour
    rw [linked.ancestry]
    cases ha : (walk ns i).ancestry with
    | behaviour chain => exact ((ancestry_behaviour_iff inside).mp ha).descends once
    | plain | broken =>
      rw [ha] at behaviour
      exact absurd behaviour Bool.false_ne_true

/-- A type whose name can be registered can be instantiated, and names its ancestors. -/
theorem Registrable.instantiable (h : Registrable ns name names) (once : DeclaresAlone ns name i)
    (linked : LinkedAt ns t i) : t.isInstantiable = true ∧ t.ancestry = names := by
  obtain ⟨i', chain, once', reaches, rfl⟩ := h.descends.reaches
  obtain rfl : i' = i := once.2 i' once'.1
  have inside : i' < ns.length := once.1.lt_length
  have ha := (ancestry_behaviour_iff inside).mpr reaches
  obtain ⟨n, there, alone⟩ := declaresAlone_iff.mp once
  have concrete := h.concrete n (alone ▸ List.mem_singleton_self n)
  constructor
  · rw [ScriptType.isInstantiable, linked.isBehaviour, ha, ← linked.isAbstract n there]
    show (true && !n.decl.isAbstract) = true
    rw [concrete]
    rfl
  · rw [linked.ancestry, ha]
    rfl

theorem length_declared_le_one_iff
    (places : types.map (fun t => (t.name, t.location)) = ns.map fun n => (n.name, n.location)) :
    (declared types name).length ≤ 1 ↔ ¬ DeclaredAgain ns name := by
  have same := congrArg List.length (locations_declared places name)
  rw [List.length_map, List.length_map] at same
  rw [declaredAgain_iff, same, not_lt]

theorem exact_ofUnit {u : ScriptUnit} (passed : u.passed = true) (types : u.types = (link ms emit).types)
    (made : makesPrograms ms emit = true) : Exact (Node.ofModules ms) (ofUnit u) := by
  have places : u.types.map (fun t => (t.name, t.location)) =
      (Node.ofModules ms).map fun n => (n.name, n.location) := types ▸ types_places made
  have registered_iff : ∀ name names,
      (∃ entry, (ofUnit u).get? name = some entry ∧ entry.descriptor.ancestry = names) ↔
        Registrable (Node.ofModules ms) name names := by
    intro name names
    -- From the type that is registered to its declaration, and back from the only declaration of the name.
    constructor
    · rintro ⟨entry, found, rfl⟩
      obtain ⟨t, ht, rfl, registered⟩ := exists_type_of_get?_ofUnit found
      obtain ⟨i, linked⟩ := exists_linkedAt made (types ▸ ht)
      obtain ⟨instantiable, once⟩ := (register?_isSome_iff linked.program).mp
        (Option.isSome_iff_exists.mpr ⟨entry, registered⟩)
      have alone : DeclaresAlone (Node.ofModules ms) t.name i := by
        refine ⟨linked.declares, fun j hj => ?_⟩
        by_contra different
        exact (length_declared_le_one_iff places).mp once ⟨j, i, different, hj, linked.declares⟩
      rw [ancestry_of_register? registered]
      exact .of_registered linked alone instantiable
    · intro h
      obtain ⟨i, once⟩ := h.descends.alone
      obtain ⟨t, ht, rfl, linked⟩ := exists_type_of_declares made once.1
      obtain ⟨instantiable, ancestry⟩ := h.instantiable once linked
      have few := (length_declared_le_one_iff places).mpr once.not_again
      obtain ⟨entry, registered⟩ := Option.isSome_iff_exists.mp
        ((register?_isSome_iff linked.program).mpr ⟨instantiable, few⟩)
      exact ⟨entry, get?_ofUnit_of_register? passed (types ▸ ht) few registered,
        (ancestry_of_register? registered).trans ancestry⟩
  refine ⟨registered_iff, fun d => ?_, ?_, fun name base up again => ?_⟩
  · rw [ofUnit_of_passed passed, mem_duplicates, locations_declared places, ← not_le,
      length_declared_le_one_iff places, not_not]
  · rw [ofUnit_of_passed passed]
    exact duplicates_sorted u.types
  · by_contra found
    obtain ⟨entry, found⟩ := Option.ne_none_iff_exists'.mp found
    have h := (registered_iff name _).mp ⟨entry, found, rfl⟩
    obtain ⟨names', above⟩ := h.descends.above up
    obtain ⟨i, once⟩ := above.alone
    exact once.not_again again

/-- Membership is exact for every corpus: an active unit registers what its declarations call for, a unit with
    an error registers nothing, and a registered name stays registered in any other active unit that declares
    the names of its ancestry alike, whatever else is declared there, once or again. -/
theorem membership_exact (c : Compiler) (batch : Batch) :
    ((c.compile batch).1.isActive = true →
      Exact (Node.ofModules (c.modules batch.files)) (ofUnit (c.compile batch).1)) ∧
    ((∃ d ∈ (c.compile batch).1.diagnostics, d.severity = .error) →
      ofUnit (c.compile batch).1 = empty) ∧
    ∀ (c' : Compiler) (batch' : Batch), (c.compile batch).1.isActive = true →
      (c'.compile batch').1.isActive = true →
        ∀ name entry, (ofUnit (c.compile batch).1).get? name = some entry →
          (∀ x ∈ entry.descriptor.ancestry, headings (Node.ofModules (c'.modules batch'.files)) x =
            headings (Node.ofModules (c.modules batch.files)) x) →
          ∃ entry', (ofUnit (c'.compile batch').1).get? name = some entry' ∧
            entry'.descriptor.ancestry = entry.descriptor.ancestry := by
  have exact {c : Compiler} {batch : Batch} (active : (c.compile batch).1.isActive = true) :
      Exact (Node.ofModules (c.modules batch.files)) (ofUnit (c.compile batch).1) := by
    have stands := Compiler.stands_of_active active
    have passed := (Compiler.compile_gated c batch).2.isActive_eq.symm.trans active
    exact exact_ofUnit passed stands.types stands.linked
  refine ⟨exact, ?_, ?_⟩
  · rintro ⟨d, hd, error⟩
    have gated := (Compiler.compile_gated c batch).2
    exact if_neg fun passed => gated.passed_iff.mp passed d hd error
  · intro c' batch' active active' name entry found same
    have registrable := ((exact active).registered_iff name _).mp ⟨entry, found, rfl⟩
    refine ((exact active').registered_iff name _).mpr ⟨?_, registrable.descends.transfer same⟩
    -- The name itself is the first of its ancestry, so that it is as concrete as it was.
    intro n' hn'
    have own : name ∈ entry.descriptor.ancestry := registrable.descends.self_mem
    have heading := List.mem_map_of_mem (f := fun n : Node => (n.decl.base.map (·.1), n.decl.isAbstract)) hn'
    change _ ∈ headings _ name at heading
    rw [same name own] at heading
    obtain ⟨n, hn, agree⟩ := List.mem_map.mp heading
    rw [← (Prod.mk.inj agree).2]
    exact registrable.concrete n hn

/-- A type below another one, and a name that two types have. -/
def lamps : Batch :=
  ⟨[⟨"door.ks", "type Door : Thing \x7b \x7d abstract type Thing : Behaviour \x7b fn update(ctx, dt) \x7b \x7d \x7d",
      .time 0⟩,
    ⟨"lamp.ks", "type Lamp \x7b \x7d type Lamp : Thing \x7b \x7d", .time 0⟩], []⟩

/-- The same type below the same other one. -/
def doorsOnly : Batch := ⟨lamps.files.take 1, []⟩

/-- The two lamps are not registered, and leave the door alone; without what it derives from there is an error,
    and nothing is registered. -/
theorem door_registered_beside_lamps :
    let c := Compiler.create toString false
    let u := (c.compile lamps).1
    let v := (c.compile doorsOnly).1
    let w := (c.compile ⟨lamps.files.drop 1, []⟩).1
    u.isActive = true ∧ v.isActive = true ∧ (∃ d ∈ w.diagnostics, d.severity = .error) ∧
      Exact (Node.ofModules (c.modules lamps.files)) (ofUnit u) ∧ ofUnit w = empty ∧
      ∃ entry, (ofUnit v).get? "Door" = some entry ∧
        (∀ x ∈ entry.descriptor.ancestry, headings (Node.ofModules (c.modules lamps.files)) x =
          headings (Node.ofModules (c.modules doorsOnly.files)) x) ∧
        ∃ entry', (ofUnit u).get? "Door" = some entry' ∧
          entry'.descriptor.ancestry = entry.descriptor.ancestry := by
  dsimp only
  let c := Compiler.create toString false
  obtain ⟨active, active', error, ancestry, same⟩ : (c.compile lamps).1.isActive = true ∧
      (c.compile doorsOnly).1.isActive = true ∧
      (∃ d ∈ (c.compile ⟨lamps.files.drop 1, []⟩).1.diagnostics, d.severity = .error) ∧
      ((ofUnit (c.compile doorsOnly).1).get? "Door").map (·.descriptor.ancestry) = some ["Door", "Thing"] ∧
      ∀ x ∈ ["Door", "Thing"], headings (Node.ofModules (c.modules lamps.files)) x =
        headings (Node.ofModules (c.modules doorsOnly.files)) x := by
    decide +kernel
  obtain ⟨entry, found, named⟩ := Option.map_eq_some_iff.mp ancestry
  refine ⟨active, active', error, (membership_exact c lamps).1 active,
    (membership_exact c ⟨lamps.files.drop 1, []⟩).2.1 error, entry, found, named ▸ same, ?_⟩
  exact (membership_exact c doorsOnly).2.2 c lamps active' active "Door" entry found (named ▸ same)

end Registry

end ScriptHost
