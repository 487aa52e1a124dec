import ScriptHost.Corpus.Link

/-!
# Program — which types of a corpus have programs

A linked type is a resolved one, with a program put in where programs were asked for.  The program of a
type carries the type's own name.
-/

namespace ScriptHost.Corpus

variable {ms : List Module} {emit : Bool} {t : ScriptType} {p : Program}

theorem resolveType_program (ns : List Node) (own : Nat → List FieldSpec) (i : Nat) (n : Node)
    (a : Ancestry) : (resolveType ns own i n a).type.program = none := rfl

/-- The type `i` of a corpus, resolved by its walk. -/
def resolvedAt (ns : List Node) (i : Nat) (n : Node) : Resolved :=
  let own := ns.map fun n => (FieldSpec.own n).1
  resolveType ns (fun j => (own[j]?).getD []) i n (walk ns i).ancestry

/-- The fields that the types of a corpus declare themselves. -/
def ownFields (ns : List Node) (j : Nat) : List FieldSpec := ((ns.map fun n => (FieldSpec.own n).1)[j]?).getD []

theorem mem_resolveAll {ns : List Node} {r : Resolved} :
    r ∈ resolveAll ns ↔ ∃ i n, ns[i]? = some n ∧ r = resolvedAt ns i n := by
  constructor
  · intro h
    obtain ⟨⟨n, i⟩, mem, rfl⟩ := List.mem_map.mp h
    exact ⟨i, n, List.mem_zipIdx_iff_getElem?.mp mem, rfl⟩
  · rintro ⟨i, n, there, rfl⟩
    exact List.mem_map.mpr ⟨(n, i), List.mem_zipIdx_iff_getElem?.mpr there, rfl⟩

theorem program_of_mem_resolveAll {ns : List Node} {r : Resolved} (h : r ∈ resolveAll ns) :
    r.type.program = none := by
  obtain ⟨⟨n, i⟩, -, rfl⟩ := List.mem_map.mp h
  exact resolveType_program _ _ _ _ _

theorem equip_of_instantiable {ns : List Node} {r : Resolved} (h : r.type.isInstantiable = true) :
    equip ms ns r = { r.type with program := some (programOf ms ns r) } := if_pos h

theorem equip_of_not_instantiable {ns : List Node} {r : Resolved}
    (h : ¬ r.type.isInstantiable = true) : equip ms ns r = r.type := if_neg h

/-- Whether the linker makes programs at all. -/
def makesPrograms (ms : List Module) (emit : Bool) : Bool :=
  emit && Diagnostic.passes (linkFindings ms)

theorem types_of_makes (made : makesPrograms ms emit = true) :
    (link ms emit).types =
      (resolveAll (Node.ofModules ms)).map (equip ms (Node.ofModules ms)) := if_pos made

theorem types_of_not_makes (made : ¬ makesPrograms ms emit = true) :
    (link ms emit).types = (resolveAll (Node.ofModules ms)).map (·.type) := if_neg made

theorem equip_name (ms : List Module) (ns : List Node) (r : Resolved) :
    (equip ms ns r).name = r.type.name := by
  by_cases hi : r.type.isInstantiable = true
  · rw [equip_of_instantiable hi]
  · rw [equip_of_not_instantiable hi]

theorem resolveAll_names (ns : List Node) :
    (resolveAll ns).map (·.type.name) = ns.map Node.name := by
  rw [resolveAll, List.map_map]
  show ns.zipIdx.map (fun e => e.1.name) = ns.map Node.name
  rw [← Function.comp_def Node.name Prod.fst, ← List.map_map, List.zipIdx_map_fst]

/-- The types of a corpus stand in the order of their declarations, with or without programs. -/
theorem types_names (ms : List Module) (emit : Bool) :
    (link ms emit).types.map (·.name) = (Node.ofModules ms).map Node.name := by
  by_cases made : makesPrograms ms emit = true
  · rw [types_of_makes made, List.map_map, ← resolveAll_names]
    exact List.map_congr_left fun r _ => equip_name ms _ r
  · rw [types_of_not_makes made, List.map_map, ← resolveAll_names]
    rfl

/-- Where there are programs, the concrete behaviour types have one and the others do not. -/
theorem isSome_program_of_makes (made : makesPrograms ms emit = true)
    (h : t ∈ (link ms emit).types) : t.program.isSome = t.isInstantiable := by
  rw [types_of_makes made, List.mem_map] at h
  obtain ⟨r, hr, rfl⟩ := h
  by_cases hi : r.type.isInstantiable = true
  · rw [equip_of_instantiable hi]
    exact hi.symm
  · rw [equip_of_not_instantiable hi, program_of_mem_resolveAll hr]
    exact (Bool.eq_false_iff.mpr hi).symm

/-- A program is made of a resolved type of the same name. -/
theorem exists_resolved (h : t ∈ (link ms emit).types) (hp : t.program = some p) :
    ∃ r ∈ resolveAll (Node.ofModules ms), t.name = r.type.name ∧ p = programOf ms (Node.ofModules ms) r := by
  by_cases made : makesPrograms ms emit = true
  · rw [types_of_makes made, List.mem_map] at h
    obtain ⟨r, hr, rfl⟩ := h
    refine ⟨r, hr, equip_name ms _ r, ?_⟩
    by_cases hi : r.type.isInstantiable = true
    · rw [equip_of_instantiable hi] at hp
      exact (Option.some.inj hp).symm
    · rw [equip_of_not_instantiable hi, program_of_mem_resolveAll hr] at hp
      exact absurd hp.symm (Option.some_ne_none p)
  · -- Nothing was asked for.
    rw [types_of_not_makes made, List.mem_map] at h
    obtain ⟨r, hr, rfl⟩ := h
    rw [program_of_mem_resolveAll hr] at hp
    exact absurd hp.symm (Option.some_ne_none p)

/-- A program goes by the name of its type. -/
theorem typeName_program (h : t ∈ (link ms emit).types) (hp : t.program = some p) :
    p.typeName = t.name := by
  obtain ⟨r, -, name, rfl⟩ := exists_resolved h hp
  exact name.symm

end ScriptHost.Corpus
