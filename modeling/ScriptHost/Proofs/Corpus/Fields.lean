import Mathlib.Data.List.Flatten
import Mathlib.Data.List.Nodup
import ScriptHost.Corpus.Link

/-!
# Fields — where the fields of a type come from

A type takes in the fields of its chain one after the other and passes over a name that is taken.  So its
fields are some of those that the chain declares, in the same order, and no two of them share a name.
-/

namespace ScriptHost.Corpus

open Declaration (FieldDecl)

namespace FieldSpec

variable {fields more : List FieldSpec}

/-- No two fields share a name. -/
def Distinct (fields : List FieldSpec) : Prop := (fields.map (·.name)).Nodup

theorem extend_cons (fields : List FieldSpec) (f : FieldSpec) (more : List FieldSpec) :
    extend fields (f :: more) =
      extend (if fields.any (·.name == f.name) then fields else fields ++ [f]) more := rfl

theorem Distinct.extend (h : Distinct fields) (more : List FieldSpec) : Distinct (extend fields more) := by
  induction more generalizing fields with
  | nil => exact h
  | cons f more ih =>
    rw [extend_cons]
    by_cases taken : fields.any (·.name == f.name) = true
    · rw [if_pos taken]
      exact ih h
    · rw [if_neg taken]
      refine ih ?_
      show ((fields ++ [f]).map (·.name)).Nodup
      rw [List.map_append]
      refine List.Nodup.append h (List.nodup_singleton _) fun name there same => ?_
      -- The name of the new field is none of those there are.
      obtain ⟨g, hg, rfl⟩ := List.mem_map.mp there
      exact taken (List.any_eq_true.mpr ⟨g, hg, beq_iff_eq.mpr (List.mem_singleton.mp same)⟩)

theorem extend_sublist (fields more : List FieldSpec) : (extend fields more).Sublist (fields ++ more) := by
  induction more generalizing fields with
  | nil => exact (List.append_nil fields).symm ▸ List.Sublist.refl fields
  | cons f more ih =>
    rw [extend_cons]
    split
    · exact (ih fields).trans ((List.sublist_cons_self f more).append_left fields)
    · have rest := ih (fields ++ [f])
      rw [List.append_assoc] at rest
      exact rest

/-- The fields that a type declares are taken in as those of a chain are. -/
theorem own_eq_extend (n : Node) : (own n).1 = extend [] (n.decl.fields.map (ofDecl n.name)) := by
  let step (state : List FieldSpec × List Diagnostic) (f : FieldDecl) : List FieldSpec × List Diagnostic :=
    if state.1.any (·.name == f.name) then
      (state.1, state.2 ++ [⟨.duplicateField f.name n.name, .atPosition n.path f.position⟩])
    else (state.1 ++ [ofDecl n.name f], state.2 ++ (mismatch? n f).toList)
  -- On the fields, for whatever has been taken in before.
  have taken_in : ∀ (decls : List FieldDecl) specs found,
      (decls.foldl step (specs, found)).1 = extend specs (decls.map (ofDecl n.name)) := by
    intro decls
    induction decls with
    | nil => exact fun _ _ => rfl
    | cons f decls ih =>
      intro specs found
      rw [List.foldl_cons, List.map_cons, extend_cons]
      by_cases taken : specs.any (·.name == f.name) = true
      · rw [show step (specs, found) f = (specs, _) from if_pos taken, ih]
        exact congrArg (extend · _) (if_pos taken).symm
      · rw [show step (specs, found) f = (specs ++ [ofDecl n.name f], _) from if_neg taken, ih]
        exact congrArg (extend · _) (if_neg taken).symm
  exact taken_in n.decl.fields [] []

theorem own_sublist (n : Node) : (own n).1.Sublist (n.decl.fields.map (ofDecl n.name)) := by
  rw [own_eq_extend]
  exact extend_sublist [] _

section Chain

variable {own : Nat → List FieldSpec}

theorem distinct_foldl (chain : List Nat) (h : Distinct fields) :
    Distinct (chain.foldl (fun fs i => extend fs (own i)) fields) := by
  induction chain generalizing fields with
  | nil => exact h
  | cons i chain ih => exact ih (h.extend (own i))

theorem foldl_sublist (chain : List Nat) (fields : List FieldSpec) :
    (chain.foldl (fun fs i => extend fs (own i)) fields).Sublist (fields ++ chain.flatMap own) := by
  induction chain generalizing fields with
  | nil => exact (List.append_nil fields).symm ▸ List.Sublist.refl fields
  | cons i chain ih =>
    rw [List.flatMap_cons, ← List.append_assoc]
    exact (ih _).trans ((extend_sublist fields (own i)).append_right _)

theorem distinct_ofChain (own : Nat → List FieldSpec) (chain : List Nat) : Distinct (ofChain own chain) :=
  distinct_foldl chain List.nodup_nil

theorem ofChain_sublist (own : Nat → List FieldSpec) (chain : List Nat) :
    (ofChain own chain).Sublist (chain.flatMap own) := foldl_sublist chain []

end Chain

end FieldSpec

/-! ## Fields open to inspection -/

/-- What a type declares as public and of a kind that can be edited. -/
def Node.exposes (n : Node) : List (String × Field.Kind) :=
  (n.decl.fields.filter fun f => f.isPublic && f.kind.isSupported).map fun f => (f.name, f.kind)

/-- What the types of a chain declare so, the first one of the chain first. -/
def exposes (ns : List Node) (chain : List Nat) : List (String × Field.Kind) :=
  chain.flatMap fun j => ((ns[j]?).map Node.exposes).getD []

/-- What of the fields of a type can be inspected. -/
def ScriptType.exposed (t : ScriptType) : List (String × Field.Kind) :=
  (t.fields.filter fun f => f.isPublic && f.kind.isSupported).map fun f => (f.name, f.kind)

theorem exposed_own_sublist (n : Node) :
    (((FieldSpec.own n).1.filter fun f => f.isPublic && f.kind.isSupported).map fun f => (f.name, f.kind)).Sublist
      n.exposes := by
  have kept := ((FieldSpec.own_sublist n).filter fun f => f.isPublic && f.kind.isSupported).map
    fun f => (f.name, f.kind)
  rw [List.filter_map, List.map_map] at kept
  exact kept

/-- A resolved type exposes some of what its chain declares so, in that order. -/
theorem exposed_resolveType_sublist (ns : List Node) (i : Nat) (n : Node) (a : Ancestry) :
    let own (j : Nat) := ((ns.map fun n => (FieldSpec.own n).1)[j]?).getD []
    (resolveType ns own i n a).type.exposed.Sublist (exposes ns (a.chain i)) := by
  intro own
  have kept := ((FieldSpec.ofChain_sublist own (a.chain i)).filter fun f => f.isPublic && f.kind.isSupported).map
    fun f => (f.name, f.kind)
  refine kept.trans ?_
  rw [List.filter_flatMap, List.map_flatMap]
  refine List.Sublist.flatMap_right _ fun j _ => ?_
  show (((((ns.map fun n => (FieldSpec.own n).1)[j]?).getD []).filter _).map _).Sublist _
  rw [List.getElem?_map]
  cases ns[j]? with
  | none => exact .slnil
  | some b => exact exposed_own_sublist b

end ScriptHost.Corpus
