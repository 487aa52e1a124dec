import ScriptHost.Proofs.Compiler.Reading
import ScriptHost.Proofs.Registry.Membership

/-!
# Order — a corpus compiled in another order

A unit goes by the declarations of its files.  Compiled in another order, a corpus is as active as it was, with as
many findings of each code.  Where it is active the same names are registered: each name stands for a type that is
declared once, below types that are declared once, so that its file is the same one.
-/

namespace ScriptHost

open Corpus
open Declaration (FnDecl TypeDecl)
open Diagnostic (passes passes_append)

variable {files files' : List Source} {ms ms' : List Module}

/-- What the same files are read as in two orders. -/
structure Source.Reordered (files files' : List Source) (ms ms' : List Module) : Prop where
  perm : files'.Perm files
  here : ReadAs files ms
  there : ReadAs files' ms'

namespace Source.Reordered

theorem symm (o : Reordered files files' ms ms') : Reordered files' files ms' ms := ⟨o.perm.symm, o.there, o.here⟩

theorem types (o : Reordered files files' ms ms') :
    ((Node.ofModules ms').map Node.decl).Perm ((Node.ofModules ms).map Node.decl) := by
  rw [o.here.decls, o.there.decls]
  exact o.perm.flatMap_right _

theorem functions (o : Reordered files files' ms ms') :
    (ms'.flatMap (·.tree.functions)).Perm (ms.flatMap (·.tree.functions)) := by
  rw [o.here.functions, o.there.functions]
  exact o.perm.flatMap_right _

theorem isSole (o : Reordered files files' ms ms') (sole : ∀ m ∈ ms, m.IsSole) : ∀ m ∈ ms', m.IsSole := by
  intro m' hm'
  obtain ⟨f, hf, rfl⟩ := o.there.paths m' hm'
  obtain ⟨m, hm, path, rfl⟩ := exists_of_forall₂ o.here.texts (o.perm.mem_iff.mp hf)
  exact Module.isSole_read (sole _ hm)

end Source.Reordered

/-! ## 1. Findings -/

namespace Compiler

theorem passes_of_codes {ds ds' : List Diagnostic} (perm : (codes ds').Perm (codes ds)) : passes ds' = passes ds := by
  have by_codes (ds : List Diagnostic) : passes ds = !(codes ds).any fun code => code.severity == .error := by
    rw [codes, List.any_map]
    rfl
  rw [by_codes, by_codes, perm.any_eq]

variable {notes notes' : List Diagnostic}

/-- Before a unit is written, the same was found, code by code. -/
theorem checked_perm (o : Source.Reordered files files' ms ms') (remarks : notes'.Perm notes) :
    (codes (checked notes' ms')).Perm (codes (checked notes ms)) := by
  simp only [checked, codes_append]
  refine (List.Perm.append (remarks.map _) ?_).append (linkFindings_perm o.types o.functions)
  rw [o.here.codes_diagnostics, o.there.codes_diagnostics]
  exact o.perm.flatMap_right _

/-- A unit is active where nothing is wrong and it can be written, and says what was found, whether it could not be
    written, and how much that is. -/
theorem build_codes (id : UnitId) (debugSymbols : Bool) (files : List Source) (notes : List Diagnostic)
    (ms : List Module) :
    (build id debugSymbols files notes ms).isActive = (passes (checked notes ms) && files.all (·.path.isText)) ∧
      codes (build id debugSymbols files notes ms).diagnostics = codes (checked notes ms) ++
        (if passes (checked notes ms) && !files.all (·.path.isText) then [.emitFailure] else []) ++
        [.unitSummary] := by
  have writable (a : Artefacts) (h : emit id debugSymbols files ms = .ok a) : files.all (·.path.isText) = true :=
    List.all_eq_true.mpr (emit_isOk_iff.mp ⟨a, h⟩)
  rcases build_cases id debugSymbols files notes ms with
    ⟨failed, h⟩ | ⟨d, passed, undone, h⟩ | ⟨a, passed, done, h⟩
  · rw [h, failed, codes_append]
    exact ⟨rfl, by simp [codes, summary, Diagnostic.code, Finding.code]⟩
  · have unwritable : files.all (·.path.isText) = false := by
      refine Bool.eq_false_iff.mpr fun text => ?_
      obtain ⟨a, written⟩ := emit_isOk_iff.mpr (List.all_eq_true.mp text)
      rw [undone] at written
      cases written
    rw [h, passed, unwritable, codes_append, codes_append]
    refine ⟨rfl, ?_⟩
    show codes (checked notes ms) ++ [d.code] ++ [.unitSummary] = _
    rw [emit_error undone]
    rfl
  · rw [h, passed, writable a done, codes_append]
    exact ⟨rfl, by simp [codes, summary, Diagnostic.code, Finding.code]⟩

/-- What a unit says and whether it is active are the same in another order. -/
theorem build_perm (o : Source.Reordered files files' ms ms') (remarks : notes'.Perm notes) (id id' : UnitId)
    (debugSymbols debugSymbols' : Bool) :
    (build id' debugSymbols' files' notes' ms').isActive = (build id debugSymbols files notes ms).isActive ∧
      (codes (build id' debugSymbols' files' notes' ms').diagnostics).Perm
        (codes (build id debugSymbols files notes ms).diagnostics) := by
  have found := checked_perm o remarks
  obtain ⟨active, said⟩ := build_codes id debugSymbols files notes ms
  obtain ⟨active', said'⟩ := build_codes id' debugSymbols' files' notes' ms'
  rw [passes_of_codes found, o.perm.all_eq] at active' said'
  rw [active, active', said, said']
  exact ⟨rfl, (found.append_right _).append_right _⟩

end Compiler

/-! ## 2. Declarations that are alone -/

namespace Corpus

variable {σ : Equiv.Perm Nat} {i j arity : Nat} {name : String} {n n' : Node} {chain : List Nat}

theorem Declares.alone {ns : List Node} (h : Declares ns name i) (once : ¬ DeclaredAgain ns name) :
    DeclaresAlone ns name i := by
  refine ⟨h, fun j hj => ?_⟩
  by_contra different
  exact once ⟨j, i, different, hj, h⟩

/-- Every type that a walk passes is alone of its name, if the first one is. -/
theorem ReachesBuiltIn.alone {ns : List Node} (reaches : ReachesBuiltIn ns i chain) (first : DeclaresAlone ns name i)
    (hj : j ∈ chain) : ∃ name, DeclaresAlone ns name j := by
  obtain ⟨k, rest, rfl, trail, -⟩ := reaches
  obtain ⟨rest', trail', -⟩ := trail.drop hj
  exact trail'.alone first

/-- A type that is alone of its name has the same declaration in the same file. -/
theorem same_node (o : Source.Reordered files files' ms ms')
    (r : Reorders σ (Node.ofModules ms) (Node.ofModules ms')) (alone : DeclaresAlone (Node.ofModules ms) name i)
    (hn : (Node.ofModules ms)[i]? = some n) (hn' : (Node.ofModules ms')[σ i]? = some n') :
    n'.path = n.path ∧ n'.decl = n.decl := by
  have same := r.decl_eq hn hn'
  obtain ⟨n₁, hn₁, one⟩ := declaresAlone_iff.mp alone
  obtain rfl : n₁ = n := Option.some.inj (hn₁.symm.trans hn)
  have few : ((files.flatMap fun f => Source.typesIn f.content).filter (·.name == name)).length ≤ 1 := by
    rw [← o.here.decls, List.filter_map, List.length_map]
    show (declarations (Node.ofModules ms) name).length ≤ 1
    rw [one]
    exact le_refl 1
  have named : (n₁.decl.name == name) = true := by
    obtain ⟨n, hn', rfl⟩ := alone.1
    obtain rfl := Option.some.inj (hn'.symm.trans hn)
    exact beq_iff_eq.mpr rfl
  -- Whatever file the declaration was read from in either order, there is one only that has it.
  obtain ⟨f, hf, path, declared⟩ := o.here.exists_of_node (List.mem_of_getElem? hn)
  obtain ⟨f', hf', path', declared'⟩ := o.there.exists_of_node (List.mem_of_getElem? hn')
  have file : f = f' := Source.eq_of_few few hf (o.perm.mem_iff.mp hf') declared named declared' (same ▸ named)
  exact ⟨by rw [path, path', file], same⟩

theorem methodsOf_eq (o : Source.Reordered files files' ms ms')
    (r : Reorders σ (Node.ofModules ms) (Node.ofModules ms')) (alone : DeclaresAlone (Node.ofModules ms) name i) :
    methodsOf (Node.ofModules ms') (σ i) = methodsOf (Node.ofModules ms) i := by
  obtain ⟨n, hn, -⟩ := alone.1
  obtain ⟨n', hn', -⟩ := r.exists_node hn
  obtain ⟨path, decl⟩ := same_node o r alone hn hn'
  rw [methodsOf, methodsOf, hn, hn', Option.map_some, Option.map_some, path, decl]

theorem Unambiguous.length_filter_le {ds : List Definition} (h : Unambiguous ds) (name : String) (arity : Nat) :
    (ds.filter (·.isCalled name arity)).length ≤ 1 := by
  have pairwise := List.Pairwise.filter (·.isCalled name arity) h
  have called : ∀ d ∈ ds.filter (·.isCalled name arity), d.isCalled name arity = true :=
    fun d hd => (List.mem_filter.mp hd).2
  generalize ds.filter (·.isCalled name arity) = es at pairwise called
  match es with
  | [] | [_] => simp
  | d :: e :: _ =>
    have other := (List.pairwise_cons.mp pairwise).1 e List.mem_cons_self name arity
    exact absurd ⟨called d List.mem_cons_self, called e (List.mem_cons_of_mem d List.mem_cons_self)⟩ other

theorem map_freeFunctions (ms : List Module) :
    (freeFunctions ms).map Definition.decl = ms.flatMap (·.tree.functions) := by
  rw [freeFunctions, List.map_flatMap]
  refine List.flatMap_congr fun m _ => ?_
  rw [List.map_map]
  exact List.map_id _

/-- What a free function is declared as, some free function is in the other order. -/
theorem exists_free (o : Source.Reordered files files' ms ms') {d : Definition} (hd : d ∈ freeFunctions ms) :
    ∃ d' ∈ freeFunctions ms', d'.decl = d.decl := by
  have decl := List.mem_map_of_mem (f := Definition.decl) hd
  rw [map_freeFunctions, ← o.functions.mem_iff, ← map_freeFunctions] at decl
  exact List.mem_map.mp decl

/-- A call means one free function at most, and that function stands in the same file. -/
theorem eq_of_called (o : Source.Reordered files files' ms ms') (unambiguous : Unambiguous (freeFunctions ms))
    {d d' : Definition} (hd : d ∈ freeFunctions ms) (hd' : d' ∈ freeFunctions ms')
    (called : d.isCalled name arity = true) (called' : d'.isCalled name arity = true) : d' = d := by
  have few : ((files.flatMap fun f => Source.functionsIn f.content).filter fun f =>
      f.name == name && f.params.length == arity).length ≤ 1 := by
    rw [← o.here.functions, ← map_freeFunctions, List.filter_map, List.length_map]
    exact unambiguous.length_filter_le name arity
  obtain ⟨e, he, decl⟩ := exists_free o.symm hd'
  have again : e.isCalled name arity = true := by
    rw [← called', Definition.isCalled, decl, Definition.isCalled]
  obtain rfl := unambiguous.eq he hd again called
  obtain ⟨f, hf, path, declared⟩ := o.here.exists_of_free hd
  obtain ⟨f', hf', path', declared'⟩ := o.there.exists_of_free hd'
  have file : f = f' := Source.eq_of_few few hf (o.perm.mem_iff.mp hf') declared called declared' called'
  have same : d'.path = e.path := by rw [path', path, file]
  cases d'
  cases e
  exact congrArg₂ Definition.mk same decl.symm

theorem find?_freeFunctions (o : Source.Reordered files files' ms ms') (unambiguous : Unambiguous (freeFunctions ms))
    (name : String) (arity : Nat) :
    (freeFunctions ms').find? (·.isCalled name arity) = (freeFunctions ms).find? (·.isCalled name arity) := by
  cases found : (freeFunctions ms).find? (·.isCalled name arity) with
  | none =>
    refine List.find?_eq_none.mpr fun d' hd' called' => ?_
    obtain ⟨d, hd, decl⟩ := exists_free o.symm hd'
    apply List.find?_eq_none.mp found d hd
    rw [← called', Definition.isCalled, decl, Definition.isCalled]
  | some d =>
    have hd := List.mem_of_find?_eq_some found
    have called := List.find?_some found
    obtain ⟨e, he, decl⟩ := exists_free o hd
    have again : e.isCalled name arity = true := by
      rw [← called, Definition.isCalled, decl, Definition.isCalled]
    obtain ⟨d', found'⟩ := Option.isSome_iff_exists.mp (List.find?_isSome.mpr ⟨e, he, again⟩)
    rw [found', eq_of_called o unambiguous hd (List.mem_of_find?_eq_some found') called (List.find?_some found')]

/-- A call within a type that is alone of its name means the same declared function. -/
theorem answer?_eq (o : Source.Reordered files files' ms ms')
    (r : Reorders σ (Node.ofModules ms) (Node.ofModules ms'))
    (unambiguous : Unambiguous (freeFunctions ms)) (reaches : ReachesBuiltIn (Node.ofModules ms) i chain)
    (alone : DeclaresAlone (Node.ofModules ms) name i) (called : String) (arity : Nat) :
    answer? ms' (Node.ofModules ms') (chain.map σ) called arity =
      answer? ms (Node.ofModules ms) chain called arity := by
  have methods (js : List Nat) (passed : ∀ j ∈ js, j ∈ chain) :
      (js.map σ).findSome? (fun j => (methodsOf (Node.ofModules ms') j).find? (·.isCalled called arity)) =
        js.findSome? fun j => (methodsOf (Node.ofModules ms) j).find? (·.isCalled called arity) := by
    induction js with
    | nil => rfl
    | cons j js ih =>
      obtain ⟨first, later⟩ := List.forall_mem_cons.mp passed
      obtain ⟨_, only⟩ := reaches.alone alone first
      rw [List.map_cons, List.findSome?_cons, List.findSome?_cons, methodsOf_eq o r only, ih later]
  rw [answer?, answer?, ← List.map_reverse, methods _ fun j hj => List.mem_reverse.mp hj,
    find?_freeFunctions o unambiguous]

end Corpus

/-! ## 3. Entries -/

/-- Two entries describe the same type, and their programs have the same hooks and fields. -/
structure RegistryEntry.Alike (e e' : RegistryEntry) : Prop where
  descriptor : e'.descriptor = e.descriptor
  table : e'.table = e.table
  hooks : e'.program.hooks = e.program.hooks
  fields : e'.program.fields = e.program.fields

/-- The program answers calls along the chain by which the type of that name descends from the built-in base. -/
def Corpus.RunsAlong (ms : List Module) (name : String) (chain : List Nat) (p : Program) : Prop :=
  (∃ i, DeclaresAlone (Node.ofModules ms) name i ∧ ReachesBuiltIn (Node.ofModules ms) i chain) ∧
    Dispatches ms (Node.ofModules ms) chain p

/-- The programs of a type in two corpora answer each call with the same declared function: the same declaration in
    the same file. -/
def Corpus.AnswerAlike (ms ms' : List Module) (name : String) (p p' : Program) : Prop :=
  ∃ chain chain', RunsAlong ms name chain p ∧ RunsAlong ms' name chain' p' ∧
    ∀ called arity, answer? ms' (Node.ofModules ms') chain' called arity =
      answer? ms (Node.ofModules ms) chain called arity

namespace Registry

variable {batch batch' : Batch} {u u' : ScriptUnit} {name : String} {e : RegistryEntry} {t t' : ScriptType}
  {σ : Equiv.Perm Nat} {i : Nat} {n n' : Node}

theorem mem_names {r : Registry} : name ∈ r.names ↔ ∃ e, r.get? name = some e :=
  Script.Entries.exists_get?_iff.symm

theorem sorted_names (u : ScriptUnit) : (ofUnit u).names.Pairwise (· < ·) := by
  by_cases passed : u.passed = true
  · rw [ofUnit_of_passed passed]
    exact Script.Entries.sorted_ofList _
  · rw [show ofUnit u = empty from if_neg passed]
    exact .nil

/-- What is registered for the type `i` of a corpus. -/
def entryAt (ms : List Module) (i : Nat) (n : Node) : RegistryEntry :=
  let r := resolvedAt (Node.ofModules ms) i n
  ⟨.ofType r.type, programOf ms (Node.ofModules ms) r, (TypeDescriptor.ofType r.type).table⟩

theorem register?_equip {types : List ScriptType} {ns : List Node} {r : Resolved}
    (instantiable : r.type.isInstantiable = true) (once : (declared types r.type.name).length ≤ 1) :
    register? types (equip ms ns r) =
      some ⟨.ofType r.type, programOf ms ns r, (TypeDescriptor.ofType r.type).table⟩ := by
  have accepted : ¬ (!r.type.isInstantiable || decide (1 < (declared types r.type.name).length)) = true := by
    rw [instantiable]
    simpa using once
  rw [equip_of_instantiable instantiable, register?]
  exact if_neg accepted

/-- A name is registered for the concrete behaviour type that is alone of it, as that type is resolved. -/
theorem get?_iff (stands : Compiler.Stands batch ms u) (passed : u.passed = true) :
    (ofUnit u).get? name = some e ↔ ∃ i n, (Node.ofModules ms)[i]? = some n ∧
      DeclaresAlone (Node.ofModules ms) name i ∧
      (resolvedAt (Node.ofModules ms) i n).type.isInstantiable = true ∧ e = entryAt ms i n := by
  have linkedTypes : u.types = (resolveAll (Node.ofModules ms)).map (equip ms (Node.ofModules ms)) :=
    stands.types.trans (types_of_makes stands.linked)
  have places : u.types.map (fun t => (t.name, t.location)) =
      (Node.ofModules ms).map fun n => (n.name, n.location) := by
    rw [stands.types]
    exact types_places stands.linked
  -- Types are registered by their names, and a name that is declared once belongs to one node.
  constructor
  · intro found
    obtain ⟨t, ht, rfl, there⟩ := exists_type_of_get?_ofUnit found
    rw [linkedTypes, List.mem_map] at ht
    obtain ⟨r, hr, rfl⟩ := ht
    obtain ⟨i, n, hn, rfl⟩ := mem_resolveAll.mp hr
    let r := resolvedAt (Node.ofModules ms) i n
    have linked : LinkedAt (Node.ofModules ms) (equip ms (Node.ofModules ms) r) i := linkedAt_equip hn
    obtain ⟨kind, once⟩ := (register?_isSome_iff linked.program).mp (Option.isSome_iff_exists.mpr ⟨e, there⟩)
    have alone := linked.declares.alone ((length_declared_le_one_iff places).mp once)
    have instantiable : r.type.isInstantiable = true := by
      have rest := congrArg ScriptType.isInstantiable (Compiler.equip_rest ms (Node.ofModules ms) r)
      exact rest.symm.trans kind
    rw [equip_name] at once
    exact ⟨i, n, hn, alone, instantiable, Option.some.inj (there.symm.trans (register?_equip instantiable once))⟩
  · rintro ⟨i, n, hn, alone, instantiable, rfl⟩
    obtain ⟨n', hn', rfl⟩ := alone.1
    obtain rfl : n' = n := Option.some.inj (hn'.symm.trans hn)
    have once : (declared u.types n'.name).length ≤ 1 := (length_declared_le_one_iff places).mpr alone.not_again
    have ht : equip ms (Node.ofModules ms) (resolvedAt (Node.ofModules ms) i n') ∈ u.types := by
      rw [linkedTypes]
      exact List.mem_map_of_mem (mem_resolveAll.mpr ⟨i, n', hn, rfl⟩)
    have found := get?_ofUnit_of_register? passed ht (equip_name ms _ _ ▸ once) (register?_equip instantiable once)
    rwa [equip_name] at found

theorem ofType_of_alike (alike : t.Alike id t') (location : t'.location = t.location) :
    TypeDescriptor.ofType t' = TypeDescriptor.ofType t := by
  unfold TypeDescriptor.ofType ScriptType.publicFields
  rw [alike.name, alike.ancestry, alike.hooks, alike.fields_eq, location]

/-- What is registered for a type that is alone of its name is the same in another order. -/
theorem entryAt_alike (o : Source.Reordered files files' ms ms')
    (r : Reorders σ (Node.ofModules ms) (Node.ofModules ms')) (alone : DeclaresAlone (Node.ofModules ms) name i)
    (hn : (Node.ofModules ms)[i]? = some n) (hn' : (Node.ofModules ms')[σ i]? = some n') :
    (entryAt ms i n).Alike (entryAt ms' (σ i) n') := by
  have alike := r.corresponds.resolvedAt_alike FieldSpec.name (fun _ => rfl) hn hn'
  obtain ⟨path, decl⟩ := same_node o r alone hn hn'
  have location : n'.location = n.location := by rw [Node.location, Node.location, path, decl]
  have descriptor := ofType_of_alike alike location
  exact ⟨descriptor, congrArg TypeDescriptor.table descriptor, alike.hooks, alike.fields_eq⟩

/-- Its program answers calls alike. -/
theorem entryAt_answerAlike (o : Source.Reordered files files' ms ms')
    (r : Reorders σ (Node.ofModules ms) (Node.ofModules ms')) (w : WellLinked ms) (w' : WellLinked ms')
    (alone : DeclaresAlone (Node.ofModules ms) name i) (hn : (Node.ofModules ms)[i]? = some n)
    (hn' : (Node.ofModules ms')[σ i]? = some n')
    (instantiable : (resolvedAt (Node.ofModules ms) i n).type.isInstantiable = true) :
    AnswerAlike ms ms' name (entryAt ms i n).program (entryAt ms' (σ i) n').program := by
  have inside : i < (Node.ofModules ms).length := alone.1.lt_length
  have renumbers := r.corresponds.renumbers
  obtain ⟨chain, ha, reaches⟩ := exists_chain hn (Bool.and_eq_true_iff.mp instantiable).1
  have reaches' : ReachesBuiltIn (Node.ofModules ms') (σ i) (chain.map σ) := by
    apply (ancestry_behaviour_iff (renumbers.inside_iff.mpr inside)).mp
    rw [renumbers.ancestry_eq inside, ha]
    rfl
  refine ⟨chain, chain.map σ, ⟨⟨i, alone, reaches⟩, w.dispatches hn reaches⟩,
    ⟨⟨σ i, renumbers.declaresAlone alone, reaches'⟩, w'.dispatches hn' reaches'⟩, ?_⟩
  exact answer?_eq o r (unambiguous_freeFunctions w.passes_functions) reaches alone

/-! ## 4. Registries -/

/-- Every name that is registered is registered in the other order, for the same type. -/
theorem exists_entry (o : Source.Reordered files files' ms ms') (stands : Compiler.Stands batch ms u)
    (stands' : Compiler.Stands batch' ms' u') (passed : u.passed = true) (passed' : u'.passed = true)
    (found : (ofUnit u).get? name = some e) :
    ∃ e', (ofUnit u').get? name = some e' ∧ e.Alike e' ∧
      ((∀ m ∈ ms, m.IsSole) → AnswerAlike ms ms' name e.program e'.program) := by
  obtain ⟨i, n, hn, alone, instantiable, rfl⟩ := (get?_iff stands passed).mp found
  obtain ⟨σ, r⟩ := exists_reorders o.types.symm
  obtain ⟨n', hn', -⟩ := r.exists_node hn
  have alike := r.corresponds.resolvedAt_alike FieldSpec.name (fun _ => rfl) hn hn'
  refine ⟨entryAt ms' (σ i) n', ?_, entryAt_alike o r alone hn hn', fun sole => ?_⟩
  · exact (get?_iff stands' passed').mpr ⟨σ i, n', hn', r.corresponds.renumbers.declaresAlone alone,
      alike.isInstantiable.trans instantiable, rfl⟩
  · have w : WellLinked ms := stands.wellLinked o.here.isRead sole
    have w' : WellLinked ms' := stands'.wellLinked o.there.isRead (o.isSole sole)
    exact entryAt_answerAlike o r w w' alone hn hn' instantiable

theorem names_eq (o : Source.Reordered files files' ms ms') (stands : Compiler.Stands batch ms u)
    (stands' : Compiler.Stands batch' ms' u') (passed : u.passed = true) (passed' : u'.passed = true) :
    (ofUnit u').names = (ofUnit u).names := by
  have same : (ofUnit u').names.Perm (ofUnit u).names := by
    apply (List.perm_ext_iff_of_nodup ((sorted_names u').imp ne_of_lt) ((sorted_names u).imp ne_of_lt)).mpr
    intro name
    rw [mem_names, mem_names]
    constructor
    · rintro ⟨e', found⟩
      obtain ⟨e, found, -⟩ := exists_entry o.symm stands' stands passed' passed found
      exact ⟨e, found⟩
    · rintro ⟨e, found⟩
      obtain ⟨e', found', -⟩ := exists_entry o stands stands' passed passed' found
      exact ⟨e', found'⟩
  -- Both are in ascending order.
  apply same.eq_of_pairwise (fun _ _ _ _ => le_antisymm)
  · exact (sorted_names u').imp le_of_lt
  · exact (sorted_names u).imp le_of_lt

/-- The order of files does not matter.  Of two units that are made of the same files and remarks in two orders,
    by compilers that keep of these files what reading them again would give, either both are active or neither is,
    and as many findings of each code are made of the one as of the other.  Where they are active the same names
    are registered, each for the same type with the same hooks and fields; and where each declaration compiles to
    one function, its own, the same declared function answers each call.  Files of one path are taken to differ in
    their digests where their texts do. -/
theorem order_irrelevant (c c' : Compiler) (batch batch' : Batch) (perm : batch'.files.Perm batch.files)
    (remarks : batch'.notes.Perm batch.notes) (discerned : Source.Discerned batch.files)
    (faithful : c.Faithful batch.files) (faithful' : c'.Faithful batch.files) :
    let u := (c.compile batch).1
    let u' := (c'.compile batch').1
    u'.isActive = u.isActive ∧
      (∀ code, (codes u'.diagnostics).count code = (codes u.diagnostics).count code) ∧
      (u.isActive = true →
        (ofUnit u').names = (ofUnit u).names ∧
          ∀ name e, (ofUnit u).get? name = some e → ∃ e', (ofUnit u').get? name = some e' ∧ e.Alike e' ∧
            ((∀ m ∈ c.modules batch.files, m.IsSole) →
              AnswerAlike (c.modules batch.files) (c'.modules batch'.files) name e.program e'.program)) := by
  intro u u'
  have o : Source.Reordered batch.files batch'.files (c.modules batch.files) (c'.modules batch'.files) :=
    ⟨perm, Compiler.readAs_modules faithful discerned,
      Compiler.readAs_modules (faithful'.perm perm) (discerned.perm perm)⟩
  obtain ⟨same, said⟩ : u'.isActive = u.isActive ∧ (codes u'.diagnostics).Perm (codes u.diagnostics) :=
    Compiler.build_perm o remarks _ _ _ _
  refine ⟨same, fun code => said.count_eq code, fun active => ?_⟩
  have active' : u'.isActive = true := same.trans active
  have stands := Compiler.stands_of_active active
  have stands' := Compiler.stands_of_active active'
  have passed : u.passed = true := (Compiler.compile_gated c batch).2.isActive_eq.symm.trans active
  have passed' : u'.passed = true := (Compiler.compile_gated c' batch').2.isActive_eq.symm.trans active'
  exact ⟨names_eq o stands stands' passed passed', fun name e found =>
    exists_entry o stands stands' passed passed' found⟩

/-- A type with its base and free functions in other files, the files in the other order. -/
theorem reversed_spinners_alike :
    let c := Compiler.create toString false
    let batch := Compiler.spinners.batch
    let batch' : Batch := ⟨batch.files.reverse, batch.notes⟩
    let u := (c.compile batch).1
    let u' := (c.compile batch').1
    (u.isActive = true ∧ u'.isActive = true) ∧
      (batch'.files.Perm batch.files ∧ Source.Discerned batch.files ∧ c.Faithful batch.files ∧
        ∀ m ∈ c.modules batch.files, m.IsSole) ∧
      ((ofUnit u).names = ["Spinner"] ∧ (ofUnit u').names = ["Spinner"]) ∧
        ∃ e e', (ofUnit u).get? "Spinner" = some e ∧ (ofUnit u').get? "Spinner" = some e' ∧ e.Alike e' ∧
          AnswerAlike (c.modules batch.files) (c.modules batch'.files) "Spinner" e.program e'.program := by
  dsimp only
  let c := Compiler.create toString false
  let batch := Compiler.spinners.batch
  let batch' : Batch := ⟨batch.files.reverse, batch.notes⟩
  obtain ⟨active, plain, names⟩ : (c.compile batch).1.isActive = true ∧
      (∀ m ∈ c.modules batch.files, ∀ d ∈ m.tree.declarations, Script.isPlainText d.body.text.toList = true) ∧
      (ofUnit (c.compile batch).1).names = ["Spinner"] := by
    decide +kernel
  have perm : batch'.files.Perm batch.files := List.reverse_perm _
  have apart : ∀ f ∈ batch.files, ∀ g ∈ batch.files, f.path.same g.path = true → f.content = g.content := by
    decide +kernel
  have discerned : Source.Discerned batch.files := fun f hf g hg same _ => apart f hf g hg same
  have faithful : c.Faithful batch.files := Compiler.faithful_create toString false _
  have read : ∀ m ∈ c.modules batch.files, m.IsRead := (Compiler.readAs_modules faithful discerned).isRead
  have sole : ∀ m ∈ c.modules batch.files, m.IsSole := fun m hm => Module.IsPlain.isSole (plain m hm) (read m hm)
  obtain ⟨same, -, registered⟩ := order_irrelevant c c batch batch' perm (.refl _) discerned faithful faithful
  obtain ⟨named, entries⟩ := registered active
  obtain ⟨e, found⟩ := mem_names.mp (names ▸ List.mem_singleton_self "Spinner")
  obtain ⟨e', found', alike, answers⟩ := entries "Spinner" e found
  exact ⟨⟨active, same.trans active⟩, ⟨perm, discerned, faithful, sole⟩, ⟨names, named.trans names⟩, e, e',
    found, found', alike, answers sole⟩

end Registry

end ScriptHost
