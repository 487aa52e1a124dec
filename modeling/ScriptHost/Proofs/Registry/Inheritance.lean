import ScriptHost.Proofs.Compiler.Violations
import ScriptHost.Proofs.Corpus.Defaults
import ScriptHost.Proofs.Declaration.Soundness
import ScriptHost.Proofs.Host.Exposure

/-!
# Inheritance — the fields of a type and what a fresh instance starts with

Linking passes over a field whose name is taken, and says so where the field is declared.  In a corpus without errors
nothing was passed over, neither in a type itself nor in the types that it descends from.  So a type has every field
that its chain declares, and a fresh instance starts with the declared defaults.
-/

namespace ScriptHost

open Corpus
open Declaration (FieldDecl Literal)
open Diagnostic (passes)
open Script (Entries)

/-! ## 1. Chains -/

namespace Corpus

variable {ms : List Module} {ns : List Node} {n : Node} {i j : Nat} {chain : List Nat}

/-- The walk of `i` comes to an end by way of `chain`, at the built-in base or at a type without a base. -/
def Arrives (ns : List Node) (i : Nat) (chain : List Nat) : Prop :=
  ReachesBuiltIn ns i chain ∨ ReachesRoot ns i chain

theorem Arrives.nodup (h : Arrives ns i chain) : chain.Nodup := h.elim ReachesBuiltIn.nodup ReachesRoot.nodup

/-- A trail ends with the type that it started at; what comes before is a trail of its base. -/
theorem Trail.split_last (t : Trail ns i (j :: chain)) :
    (chain = [] ∧ j = i) ∨ ∃ p rest, chain = rest ++ [i] ∧ Trail ns p (j :: rest) := by
  generalize hc : j :: chain = c at t
  induction t generalizing j chain with
  | start =>
    obtain ⟨rfl, rfl⟩ := List.cons.inj hc
    exact .inl ⟨rfl, rfl⟩
  | step t up ih =>
    obtain ⟨rfl, rfl⟩ := List.cons.inj hc
    right
    rcases ih rfl with ⟨rfl, rfl⟩ | ⟨p, rest, rfl, before⟩
    · exact ⟨_, [], rfl, .start⟩
    · exact ⟨p, _ :: rest, rfl, before.step up⟩

/-- The chain of a type is that of its base, if it has one, and the type itself. -/
theorem Arrives.split_last (h : Arrives ns i chain) :
    ∃ bases, chain = bases ++ [i] ∧ (bases = [] ∨ ∃ p, Arrives ns p bases) := by
  rcases h with ⟨j, rest, rfl, trail, last⟩ | ⟨j, rest, rfl, trail, last⟩ <;>
    rcases trail.split_last with ⟨rfl, rfl⟩ | ⟨p, bases, rfl, before⟩
  · exact ⟨[], rfl, .inl rfl⟩
  · exact ⟨j :: bases, rfl, .inr ⟨p, .inl ⟨j, bases, rfl, before, last⟩⟩⟩
  · exact ⟨[], rfl, .inl rfl⟩
  · exact ⟨j :: bases, rfl, .inr ⟨p, .inr ⟨j, bases, rfl, before, last⟩⟩⟩

theorem chain_of_arrives (hn : ns[i]? = some n) (h : Arrives ns i chain) : (resolvedAt ns i n).chain = chain := by
  have inside : i < ns.length := (List.getElem?_eq_some_iff.mp hn).1
  rw [chain_resolvedAt]
  rcases h with reaches | root
  · rw [(ancestry_behaviour_iff inside).mpr reaches]
    rfl
  · rw [(ancestry_plain_iff inside).mpr root]
    rfl

/-! ## 2. Fields of a chain -/

namespace FieldSpec

variable {fields more : List FieldSpec} {own : Nat → List FieldSpec}

/-- Fields with new names are all taken in. -/
theorem extend_of_apart (distinct : Distinct more) (apart : ∀ f ∈ more, ∀ g ∈ fields, g.name ≠ f.name) :
    extend fields more = fields ++ more := by
  induction more generalizing fields with
  | nil => exact (List.append_nil fields).symm
  | cons f more ih =>
    obtain ⟨fresh, later⟩ := List.nodup_cons.mp distinct
    have free : ¬ fields.any (·.name == f.name) = true := by
      rw [List.any_eq_true]
      rintro ⟨g, hg, same⟩
      exact apart f List.mem_cons_self g hg (eq_of_beq same)
    rw [extend_cons, if_neg free, ih later, List.append_assoc, List.singleton_append]
    intro e he g hg same
    rcases List.mem_append.mp hg with hg | hg
    · exact apart e (List.mem_cons_of_mem f he) g hg same
    · rw [List.mem_singleton.mp hg] at same
      exact fresh (List.mem_map.mpr ⟨e, he, same.symm⟩)

/-- Where no type takes a name of its bases again, a chain has all the fields that its types have themselves. -/
theorem ofChain_eq_flatMap (distinct : ∀ j, Distinct (own j))
    (apart : ∀ j chain, Arrives ns j chain → ∀ f ∈ own j, ∀ g ∈ ofChain own (chain.filter (· != j)), g.name ≠ f.name)
    (h : Arrives ns i chain) : ofChain own chain = chain.flatMap own := by
  -- From the root on: each type adds its own fields to those of its base.
  induction chain using List.reverseRecOn generalizing i with
  | nil => rfl
  | append_singleton bases k ih =>
    obtain ⟨bases', same, below⟩ := h.split_last
    obtain ⟨rfl, last⟩ := List.append_inj' same rfl
    obtain rfl := (List.cons.inj last).1
    have others : (bases ++ [k]).filter (· != k) = bases := by
      have new : k ∉ bases := fun mem => List.disjoint_of_nodup_append h.nodup mem (List.mem_singleton_self k)
      have keep : bases.filter (· != k) = bases := by
        rw [List.filter_eq_self]
        intro j hj
        simpa using fun same : j = k => new (same ▸ hj)
      rw [List.filter_append, keep]
      simp
    have inherited : ofChain own bases = bases.flatMap own := by
      rcases below with rfl | ⟨p, arrives⟩
      · rfl
      · exact ih arrives
    have here := apart k _ h
    rw [others] at here
    have step : ofChain own (bases ++ [k]) = extend (ofChain own bases) (own k) := by
      rw [ofChain, List.foldl_append]
      rfl
    rw [step, extend_of_apart (distinct k) here, inherited, List.flatMap_append, List.flatMap_singleton]

theorem apart_of_shadowed {inherited own : List FieldSpec} (clean : shadowed n inherited own = []) :
    ∀ f ∈ own, ∀ g ∈ inherited, g.name ≠ f.name := by
  intro f hf g hg same
  have free := List.filterMap_eq_nil_iff.mp clean f hf
  rw [Option.map_eq_none_iff, List.find?_eq_none] at free
  exact free g hg (beq_iff_eq.mpr same)

end FieldSpec

theorem fields_resolvedAt (ns : List Node) (i : Nat) (n : Node) : (resolvedAt ns i n).type.fields =
    FieldSpec.ofChain (ownFields ns) (resolvedAt ns i n).chain := rfl

/-- The fields that the types of a chain declare, those of the root first, each with the type that declares it. -/
def declaredFields (ns : List Node) (chain : List Nat) : List (Node × FieldDecl) :=
  chain.flatMap fun j => ((ns[j]?).map fun n => n.decl.fields.map (n, ·)).getD []

theorem own_of_nodup (distinct : (n.decl.fields.map FieldDecl.name).Nodup) :
    (FieldSpec.own n).1 = n.decl.fields.map (FieldSpec.ofDecl n.name) := by
  rw [FieldSpec.own_eq_extend, FieldSpec.extend_of_apart, List.nil_append]
  · show ((n.decl.fields.map (FieldSpec.ofDecl n.name)).map FieldSpec.name).Nodup
    rw [List.map_map]
    exact distinct
  · exact fun _ _ _ h => absurd h List.not_mem_nil

theorem flatMap_ownFields (order : InOrder ms) (chain : List Nat) :
    chain.flatMap (ownFields (Node.ofModules ms)) =
      (declaredFields (Node.ofModules ms) chain).map fun d => FieldSpec.ofDecl d.1.name d.2 := by
  rw [declaredFields, List.map_flatMap]
  refine List.flatMap_congr fun j _ => ?_
  rw [ownFields, List.getElem?_map]
  cases hn : (Node.ofModules ms)[j]? with
  | none => rfl
  | some n =>
    show (FieldSpec.own n).1 = (n.decl.fields.map (n, ·)).map _
    rw [own_of_nodup (order.fields n (List.mem_of_getElem? hn)), List.map_map]
    rfl

theorem distinct_ownFields (ns : List Node) (j : Nat) : FieldSpec.Distinct (ownFields ns j) := by
  rw [ownFields, List.getElem?_map]
  cases ns[j]? with
  | none => exact List.nodup_nil
  | some n =>
    show FieldSpec.Distinct (FieldSpec.own n).1
    rw [FieldSpec.own_eq_extend]
    exact (show FieldSpec.Distinct [] from List.nodup_nil).extend _

/-- Linking a corpus without an error finds no field again that a base has. -/
theorem apart_of_passes (passed : passes (linkFindings ms) = true) (j : Nat) (chain : List Nat)
    (h : Arrives (Node.ofModules ms) j chain) : ∀ f ∈ ownFields (Node.ofModules ms) j,
      ∀ g ∈ FieldSpec.ofChain (ownFields (Node.ofModules ms)) (chain.filter (· != j)), g.name ≠ f.name := by
  cases hn : (Node.ofModules ms)[j]? with
  | none =>
    intro f hf
    rw [ownFields, List.getElem?_map, hn] at hf
    exact absurd hf List.not_mem_nil
  | some n =>
    -- A field of a base that comes again is found where the type is resolved, and the finding is an error.
    rw [← chain_of_arrives hn h]
    refine FieldSpec.apart_of_shadowed (n := n) (List.eq_nil_iff_forall_not_mem.mpr fun d said => ?_)
    have here : d ∈ (resolvedAt (Node.ofModules ms) j n).findings :=
      List.mem_append_left _ (List.mem_append_left _ said)
    have clean := Module.isError_of_mem passed
      (List.mem_append_right _ (List.mem_flatMap.mpr ⟨_, mem_resolveAll.mpr ⟨j, n, hn, rfl⟩, here⟩))
    rw [Diagnostic.isError, Diagnostic.severity, shadowed_code said] at clean
    exact absurd clean.symm Bool.false_ne_true

/-- Linked without an error, a type has the fields that its chain declares. -/
theorem fields_of_passes (passed : passes (linkFindings ms) = true) (hn : (Node.ofModules ms)[i]? = some n)
    (h : Arrives (Node.ofModules ms) i chain) : (resolvedAt (Node.ofModules ms) i n).type.fields =
      (declaredFields (Node.ofModules ms) chain).map fun d => FieldSpec.ofDecl d.1.name d.2 := by
  rw [fields_resolvedAt, chain_of_arrives hn h,
    FieldSpec.ofChain_eq_flatMap (distinct_ownFields _) (apart_of_passes passed) h,
    flatMap_ownFields (inOrder_of_passes passed)]

/-! ## 3. Values -/

/-- The field of a type is the one that is declared there, with the value that it starts with. -/
structure Inherits (f : FieldSpec) (declared : Node × FieldDecl) : Prop where
  name : f.name = declared.2.name
  kind : f.kind = declared.2.kind
  isPublic : f.isPublic = declared.2.isPublic
  declaredIn : f.declaredIn = declared.1.name
  default : Starts declared.2.kind declared.2.default f.default
  ofKind : HasKind declared.2.kind f.default

theorem hasKind_of_suits {kind : Field.Kind} {l : Literal} (suits : Suits kind l)
    (denotes : Denotes l (literalValue l)) : ∃ v, defaultValue? kind l = some v ∧ Starts kind (some l) v := by
  cases suits with
  | whole n => exact ⟨_, rfl, .whole n⟩
  | int | float | bool | text | vec2 | vec3 | vec4 | array | map =>
    exact ⟨_, rfl, .written denotes (by constructor)⟩

theorem inherits_ofDecl {f : FieldDecl} (suits : ∀ l, f.default = some l → Suits f.kind l)
    (written : ∀ l, f.default = some l → IsWritten l) : Inherits (FieldSpec.ofDecl n.name f) (n, f) := by
  have starts : Starts f.kind f.default (FieldSpec.ofDecl n.name f).default := by
    rw [FieldSpec.ofDecl]
    cases hl : f.default with
    | none => exact .unwritten (isZero_zero f.kind)
    | some l =>
      obtain ⟨v, hv, starts⟩ := hasKind_of_suits (suits l hl) (denotes_of_isWritten (written l hl))
      show Starts f.kind (some l) ((defaultValue? f.kind l).getD f.kind.zero)
      rw [hv]
      exact starts
  exact ⟨rfl, rfl, rfl, rfl, starts, starts.hasKind⟩

theorem mem_declaredFields {d : Node × FieldDecl} (hd : d ∈ declaredFields ns chain) :
    d.1 ∈ ns ∧ d.2 ∈ d.1.decl.fields := by
  obtain ⟨j, -, hd⟩ := List.mem_flatMap.mp hd
  cases hn : ns[j]? with
  | none =>
    rw [hn] at hd
    exact absurd hd List.not_mem_nil
  | some n =>
    rw [hn] at hd
    obtain ⟨f, hf, rfl⟩ := List.mem_map.mp hd
    exact ⟨List.mem_of_getElem? hn, hf⟩

/-- In files without a fault every default is a literal of the grammar. -/
theorem isWritten_of_node (read : ∀ m ∈ ms, m.IsRead) (passed : ∀ m ∈ ms, passes m.diagnostics = true)
    (hn : n ∈ Node.ofModules ms) {f : FieldDecl} (hf : f ∈ n.decl.fields) {l : Literal} (written : f.default = some l) :
    IsWritten l := by
  obtain ⟨m, hm, t, ht, rfl⟩ := exists_of_mem_ofModules hn
  have declared : t.decl ∈ m.tree.types := Module.map_decl (read m hm) ▸ List.mem_map_of_mem ht
  have clean := passed m hm
  obtain ⟨path, content, rfl⟩ := read m hm
  exact isWritten_of_sentence (Declaration.sentence_of_parse (Module.faultless_of_passes clean)) declared hf written

end Corpus

/-! ## 4. Registered types -/

namespace Registry

/-- The description shows a declared field, with what it starts with if its kind can be edited. -/
structure Shows (f : FieldDescriptor) (declared : Node × FieldDecl) : Prop where
  name : f.name = declared.2.name
  kind : f.kind = declared.2.kind
  isSupported : f.isSupported = declared.2.kind.isSupported
  present : f.default.isSome = declared.2.kind.isSupported
  default : ∀ v, f.default = some v → Starts declared.2.kind declared.2.default v.toScript

/-- How a field is described. -/
def description (f : FieldSpec) : FieldDescriptor :=
  ⟨f.name, f.kind, f.kind.isSupported, Field.Value.ofScript? f.kind f.default⟩

theorem shows_of_inherits {f : FieldSpec} {declared : Node × FieldDecl} (h : Inherits f declared) :
    Shows (description f) declared := by
  have shown := h.ofKind.ofScript?
  constructor
  case name => exact h.name
  case kind => exact h.kind
  case isSupported => exact congrArg Field.Kind.isSupported h.kind
  case present =>
    show (Field.Value.ofScript? f.kind f.default).isSome = _
    rw [h.kind, ← Option.isSome_map, shown]
    cases declared.2.kind.isSupported <;> rfl
  case default =>
    intro v hv
    change Field.Value.ofScript? f.kind f.default = some v at hv
    rw [← h.kind, hv, Option.map_some, eq_comm, Option.ite_none_right_eq_some, Option.some.injEq] at shown
    exact shown.2 ▸ h.default

variable {t : ScriptType}

/-- What is listed of the defaults of a type are those that its description shows. -/
theorem list_initial (distinct : FieldSpec.Distinct t.fields) (kinds : ∀ f ∈ t.fields, HasKind f.kind f.default)
    (typeName : String) :
    (TypeDescriptor.ofType t).table.list
        ⟨typeName, Entries.ofList (t.fields.map fun f => (f.name, f.default))⟩ =
      (TypeDescriptor.ofType t).fields.filterMap fun f => f.default.map fun v => ⟨f.name, f.kind, v⟩ := by
  simp only [Field.Table.list_eq, TypeDescriptor.table, TypeDescriptor.ofType, Field.Table.ofFields, List.map_map,
    List.filter_map, List.filterMap_map, List.filterMap_filter]
  refine List.filterMap_congr fun f hf => ?_
  have hf := (List.mem_filter.mp hf).1
  have shown := (kinds f hf).ofScript?
  -- Under its name the field is found with its default, as no other field has the name.
  have read : Entries.get? f.name (Entries.ofList (t.fields.map fun f => (f.name, f.default))) = some f.default := by
    have named : f.name ∈ (t.fields.map fun f => (f.name, f.default)).map (·.1) := by
      rw [List.map_map]
      exact List.mem_map_of_mem hf
    obtain ⟨v, found⟩ := Entries.exists_get?_ofList named
    obtain ⟨g, hg, same⟩ := List.mem_map.mp (Entries.mem_of_get?_ofList found)
    obtain ⟨name, rfl⟩ := Prod.mk.inj same
    rw [List.inj_on_of_nodup_map distinct hg hf name] at found
    exact found
  have entry : Field.Table.entry? ⟨typeName, Entries.ofList (t.fields.map fun f => (f.name, f.default))⟩
      ⟨f.name, f.kind⟩ = (Field.Value.ofScript? f.kind f.default).map fun v => ⟨f.name, f.kind, v⟩ := by
    rw [Field.Table.entry?, Field.Accessor.get, Field.Store.read?, read]
    dsimp only
    cases Field.Value.ofScript? f.kind f.default <;> rfl
  simp only [Function.comp_apply, entry]
  split
  · rfl
  · next unsupported =>
    rw [if_neg unsupported, Option.map_eq_none_iff] at shown
    rw [shown]
    rfl

end Registry

/-! ## 5. Active units -/

namespace Compiler

variable {c : Compiler} {batch : Batch}

/-- The types of an active unit are its declarations, each as it was resolved. -/
theorem types_getElem? (stands : Stands batch (c.modules batch.files) (c.compile batch).1) (i : Nat) :
    (c.compile batch).1.types[i]? = ((Node.ofModules (c.modules batch.files))[i]?).map fun n =>
      equip (c.modules batch.files) (Node.ofModules (c.modules batch.files))
        (resolvedAt (Node.ofModules (c.modules batch.files)) i n) := by
  rw [stands.types, linkedTypes, types_of_makes stands.linked, resolveAll, List.map_map, List.getElem?_map,
    List.getElem?_zipIdx, Option.map_map, Nat.zero_add]
  rfl

/-- A program has the fields of its type. -/
theorem fields_program {ms : List Module} {ns : List Node} {r : Resolved} {p : Program}
    (h : (equip ms ns r).program = some p) (none : r.type.program = none) : p.fields = (equip ms ns r).fields := by
  by_cases instantiable : r.type.isInstantiable = true
  · rw [equip_of_instantiable instantiable] at h ⊢
    exact Option.some.inj h ▸ rfl
  · rw [equip_of_not_instantiable instantiable, none] at h
    exact nomatch h

section Active

variable (active : (c.compile batch).1.isActive = true) (read : ∀ m ∈ c.modules batch.files, m.IsRead)
include active read

theorem inherits_declared (chain : List Nat) :
    ∀ d ∈ declaredFields (Node.ofModules (c.modules batch.files)) chain, Inherits (.ofDecl d.1.name d.2) d := by
  intro d hd
  have stands := stands_of_active active
  have linked := stands.linked
  rw [makesPrograms, Bool.and_eq_true] at linked
  obtain ⟨hn, hf⟩ := mem_declaredFields hd
  exact inherits_ofDecl ((inOrder_of_passes linked.2).defaults d.1 hn d.2 hf)
    fun _ => isWritten_of_node read stands.passed hn hf

omit read in
/-- A type of an active unit has just the fields that its chain declares. -/
theorem fields_of_active {i : Nat} {n : Node} {chain : List Nat}
    (hn : (Node.ofModules (c.modules batch.files))[i]? = some n)
    (h : Arrives (Node.ofModules (c.modules batch.files)) i chain) :
    (equip (c.modules batch.files) (Node.ofModules (c.modules batch.files))
        (resolvedAt (Node.ofModules (c.modules batch.files)) i n)).fields =
      (declaredFields (Node.ofModules (c.modules batch.files)) chain).map fun d => .ofDecl d.1.name d.2 := by
  have linked := (stands_of_active active).linked
  rw [makesPrograms, Bool.and_eq_true] at linked
  rw [fields_equip, fields_of_passes linked.2 hn h]

theorem exists_inherited {i : Nat} {n : Node} {chain : List Nat}
    (hn : (Node.ofModules (c.modules batch.files))[i]? = some n)
    (h : Arrives (Node.ofModules (c.modules batch.files)) i chain) :
    ∃ t, (c.compile batch).1.types[i]? = some t ∧ t.name = n.name ∧
      List.Forall₂ Inherits t.fields (declaredFields (Node.ofModules (c.modules batch.files)) chain) ∧
      (t.fields.map (·.name)).Nodup := by
  have there := types_getElem? (stands_of_active active) i
  rw [hn, Option.map_some] at there
  refine ⟨_, there, equip_name _ _ _, ?_, ?_⟩
  · rw [fields_of_active active hn h, List.forall₂_map_left_iff]
    exact List.forall₂_same.mpr (inherits_declared active read chain)
  · rw [fields_equip]
    exact FieldSpec.distinct_ofChain _ _

theorem exists_shown {name : String} {entry : RegistryEntry}
    (found : (Registry.ofUnit (c.compile batch).1).get? name = some entry) :
    let ns := Node.ofModules (c.modules batch.files)
    ∃ i n chain, ns[i]? = some n ∧ n.name = name ∧ ReachesBuiltIn ns i chain ∧
      List.Forall₂ Registry.Shows entry.descriptor.fields ((declaredFields ns chain).filter (·.2.isPublic)) ∧
      ∀ owner, ∃ x, (Registry.ofUnit (c.compile batch).1).instantiate? name owner = some x ∧
        entry.table.list x.store =
          entry.descriptor.fields.filterMap fun f => f.default.map fun v => ⟨f.name, f.kind, v⟩ := by
  intro ns
  obtain ⟨i, n, t, chain, hn, -, made, -, named, reaches, registered⟩ := exists_registered active found
  obtain ⟨instantiable, table⟩ := Registry.instantiable_of_register? registered
  have descriptor := Registry.descriptor_of_register? registered
  have program := Registry.program_of_register? registered
  have fields : t.fields = (declaredFields ns chain).map fun d => .ofDecl d.1.name d.2 :=
    made ▸ fields_of_active active hn (.inl reaches)
  refine ⟨i, n, chain, hn, named, reaches, ?_, fun owner => ?_⟩
  · have shown : (TypeDescriptor.ofType t).fields =
        ((declaredFields ns chain).filter (·.2.isPublic)).map fun d => Registry.description (.ofDecl d.1.name d.2) := by
      show t.publicFields.map Registry.description = _
      rw [ScriptType.publicFields, fields, List.filter_map, List.map_map]
      rfl
    rw [descriptor, shown, List.forall₂_map_left_iff]
    refine List.forall₂_same.mpr fun d hd => ?_
    exact Registry.shows_of_inherits (inherits_declared active read chain d (List.mem_filter.mp hd).1)
  · refine ⟨_, Registry.instantiate?_of_get?_some found owner, ?_⟩
    have initial : entry.program.initialFields = Entries.ofList (t.fields.map fun f => (f.name, f.default)) := by
      rw [Program.initialFields, fields_program (made ▸ program) rfl, ← made]
    have distinct : FieldSpec.Distinct t.fields := by
      rw [made, fields_equip]
      exact FieldSpec.distinct_ofChain _ _
    have kinds : ∀ f ∈ t.fields, HasKind f.kind f.default := by
      rw [fields]
      refine List.forall_mem_map.mpr fun d hd => ?_
      exact (inherits_declared active read chain d hd).ofKind
    rw [table, descriptor, ← Registry.list_initial distinct kinds entry.program.typeName, ← initial]
    rfl

end Active

/-- The fields of an active unit, whatever its compiler was asked before: a type whose walk comes to an end has exactly
    the fields that its chain declares, those of the root first, each by another name and with its declared default;
    and for a registered type the description shows those that are public, and a fresh instance is listed with just the
    defaults that are shown. -/
theorem fields_inherited (naming : Nat → String) (debugSymbols : Bool) (history : List Compilation)
    (now : Compilation)
    (active : (((create naming debugSymbols).after history).perform now).1.isActive = true) :
    let u := (((create naming debugSymbols).after history).perform now).1
    let ns := Node.ofModules (((create naming debugSymbols).after history).modules now.batch.files)
    (∀ i n chain, ns[i]? = some n → Arrives ns i chain → ∃ t, u.types[i]? = some t ∧ t.name = n.name ∧
      List.Forall₂ Inherits t.fields (declaredFields ns chain) ∧ (t.fields.map (·.name)).Nodup) ∧
    ∀ name entry, (Registry.ofUnit u).get? name = some entry →
      ∃ i n chain, ns[i]? = some n ∧ n.name = name ∧ ReachesBuiltIn ns i chain ∧
        List.Forall₂ Registry.Shows entry.descriptor.fields ((declaredFields ns chain).filter (·.2.isPublic)) ∧
        ∀ owner, ∃ x, (Registry.ofUnit u).instantiate? name owner = some x ∧ entry.table.list x.store =
          entry.descriptor.fields.filterMap fun f => f.default.map fun v => ⟨f.name, f.kind, v⟩ := by
  intro u ns
  have read : ∀ m ∈ ((create naming debugSymbols).after history).modules now.batch.files, m.IsRead := fun m hm =>
    isRead_of_mem_modules (made_of_history naming debugSymbols history) hm
  exact ⟨fun i n chain hn h => exists_inherited active read hn h,
    fun name entry found => exists_shown active read found⟩

/-- A lamp with fields of its own beside those of its base, which stands in another file. -/
def glowing : Compilation :=
  ⟨⟨[⟨"a.ks", "type Lamp : Glow \x7b pub spot: vec2 = vec2(1, 2.5); pub marks: array = [1, \"a\"]; fn update(ctx, dt) \x7b \x7d \x7d",
      .time 0⟩,
    ⟨"b.ks", "abstract type Glow : Behaviour \x7b pub level: float = 3; let wear: int; \x7d", .time 0⟩], []⟩, false⟩

/-- What nothing is written for starts with the zero of its kind. -/
theorem lamp_inherits :
    let u := (((create toString false).after []).perform glowing).1
    let ns := Node.ofModules (((create toString false).after []).modules glowing.batch.files)
    u.isActive = true ∧ ∃ entry i n chain t, (Registry.ofUnit u).get? "Lamp" = some entry ∧
      ns[i]? = some n ∧ n.name = "Lamp" ∧ ReachesBuiltIn ns i chain ∧ u.types[i]? = some t ∧
      List.Forall₂ Inherits t.fields (declaredFields ns chain) ∧
      List.Forall₂ Registry.Shows entry.descriptor.fields ((declaredFields ns chain).filter (·.2.isPublic)) ∧
      t.fields.map (fun f => (f.name, f.declaredIn, f.default matches .int 0)) =
        [("level", "Glow", false), ("wear", "Glow", true), ("spot", "Lamp", false), ("marks", "Lamp", false)] := by
  dsimp only
  let c := (create toString false).after []
  obtain ⟨active, registered, zeros⟩ : (c.perform glowing).1.isActive = true ∧
      ((Registry.ofUnit (c.perform glowing).1).get? "Lamp").isSome = true ∧
      ∀ t ∈ (c.perform glowing).1.types, t.name = "Lamp" →
        t.fields.map (fun f => (f.name, f.declaredIn, f.default matches .int 0)) =
          [("level", "Glow", false), ("wear", "Glow", true), ("spot", "Lamp", false), ("marks", "Lamp", false)] := by
    decide +kernel
  obtain ⟨entry, found⟩ := Option.isSome_iff_exists.mp registered
  obtain ⟨inherited, shown⟩ := fields_inherited toString false [] glowing active
  obtain ⟨i, n, chain, hn, named, reaches, shows, -⟩ := shown "Lamp" entry found
  obtain ⟨t, ht, same, fields, -⟩ := inherited i n chain hn (.inl reaches)
  exact ⟨active, entry, i, n, chain, t, found, hn, named, reaches, ht, fields, shows,
    zeros t (List.mem_of_getElem? ht) (same.trans named)⟩

end Compiler

end ScriptHost
