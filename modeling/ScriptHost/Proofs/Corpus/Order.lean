import Mathlib.Data.Finset.Card
import Mathlib.Logic.Equiv.Basic
import ScriptHost.Proofs.Corpus.Module
import ScriptHost.Proofs.Corpus.Renumbering

/-!
# Order — a corpus under another order of its files

What is said of a corpus, counted by codes, does not depend on the order in which its declarations are taken, nor on
the paths they stand under.  Checks that compare declarations count what is there again, and a walk goes by names.
-/

namespace ScriptHost.Corpus

open Declaration (FnDecl FieldDecl TypeDecl Tree)

/-! ## 1. New numbers -/

/-- The numbers of a list with one more in front. -/
def liftNumbers (σ : Equiv.Perm Nat) : Equiv.Perm Nat where
  toFun
    | 0 => 0
    | i + 1 => σ i + 1
  invFun
    | 0 => 0
    | i + 1 => σ.symm i + 1
  left_inv := by rintro (_ | i) <;> simp
  right_inv := by rintro (_ | i) <;> simp

/-- What stands in another order stands there under new numbers. -/
theorem exists_renumbering {α : Type} {as bs : List α} (h : as.Perm bs) :
    ∃ σ : Equiv.Perm Nat, ∀ i, bs[σ i]? = as[i]? := by
  induction h with
  | nil => exact ⟨Equiv.refl Nat, fun _ => rfl⟩
  | cons a _ ih =>
    obtain ⟨σ, same⟩ := ih
    refine ⟨liftNumbers σ, fun i => ?_⟩
    cases i with
    | zero => rfl
    | succ i => exact same i
  | swap a b as =>
    refine ⟨Equiv.swap 0 1, fun i => ?_⟩
    match i with
    | 0 => rfl
    | 1 => rfl
    | i + 2 =>
      rw [Equiv.swap_apply_of_ne_of_ne (by omega) (by omega)]
      rfl
  | trans _ _ ih ih' =>
    obtain ⟨σ, same⟩ := ih
    obtain ⟨σ', same'⟩ := ih'
    exact ⟨σ.trans σ', fun i => (same' (σ i)).trans (same i)⟩

/-! ## 2. What declarations say -/

variable {n n' : Node} {ns ns' : List Node} {σ : Equiv.Perm Nat} {i : Nat}

theorem own_codes (same : n'.decl = n.decl) : codes (FieldSpec.own n').2 = codes (FieldSpec.own n).2 := by
  have name : n'.name = n.name := congrArg TypeDecl.name same
  let step (n : Node) (state : List FieldSpec × List Diagnostic) (f : FieldDecl) :
      List FieldSpec × List Diagnostic :=
    if state.1.any (·.name == f.name) then
      (state.1, state.2 ++ [⟨.duplicateField f.name n.name, .atPosition n.path f.position⟩])
    else (state.1 ++ [FieldSpec.ofDecl n.name f], state.2 ++ (FieldSpec.mismatch? n f).toList)
  have mismatch (f : FieldDecl) :
      codes (FieldSpec.mismatch? n' f).toList = codes (FieldSpec.mismatch? n f).toList := by
    unfold FieldSpec.mismatch?
    cases f.default with
    | none => rfl
    | some l =>
      simp only [Option.bind_eq_bind, Option.bind_some]
      split
      · rfl
      · rfl
  -- On the fields, for whatever has been taken in and found before; only the places of what is found differ.
  have from_any (fs : List FieldDecl) (specs : List FieldSpec) (found found' : List Diagnostic)
      (before : codes found' = codes found) :
      codes (fs.foldl (step n') (specs, found')).2 = codes (fs.foldl (step n) (specs, found)).2 := by
    induction fs generalizing specs found found' with
    | nil => exact before
    | cons f fs ih =>
      rw [List.foldl_cons, List.foldl_cons]
      by_cases taken : specs.any (·.name == f.name) = true
      · rw [show step n' (specs, found') f = (specs, _) from if_pos taken,
          show step n (specs, found) f = (specs, _) from if_pos taken]
        apply ih
        rw [codes_append, codes_append, before]
        rfl
      · rw [show step n' (specs, found') f = (specs ++ [FieldSpec.ofDecl n'.name f], _) from if_neg taken,
          show step n (specs, found) f = (specs ++ [FieldSpec.ofDecl n.name f], _) from if_neg taken, name]
        apply ih
        rw [codes_append, codes_append, before, mismatch]
  show codes (n'.decl.fields.foldl (step n') ([], [])).2 = codes (n.decl.fields.foldl (step n) ([], [])).2
  rw [same]
  exact from_any _ _ _ _ rfl

theorem own_of_decl (same : n'.decl = n.decl) : (FieldSpec.own n').1 = (FieldSpec.own n).1 := by
  have name : n'.name = n.name := congrArg TypeDecl.name same
  rw [FieldSpec.own_eq_extend, FieldSpec.own_eq_extend, name, same]

theorem shadowed_codes (n n' : Node) (inherited own : List FieldSpec) :
    codes (FieldSpec.shadowed n' inherited own) = codes (FieldSpec.shadowed n inherited own) := by
  simp only [codes, FieldSpec.shadowed, List.map_filterMap, Option.map_map]
  rfl

/-! ## 3. The same declarations under other numbers -/

/-- The type `i` of the first corpus is declared as the type `σ i` of the second one. -/
def Reorders (σ : Equiv.Perm Nat) (ns ns' : List Node) : Prop :=
  ∀ i, (ns'[σ i]?).map Node.decl = (ns[i]?).map Node.decl

theorem exists_reorders (perm : (ns.map Node.decl).Perm (ns'.map Node.decl)) :
    ∃ σ : Equiv.Perm Nat, Reorders σ ns ns' := by
  obtain ⟨σ, same⟩ := exists_renumbering perm
  refine ⟨σ, fun i => ?_⟩
  have there := same i
  rwa [List.getElem?_map, List.getElem?_map] at there

namespace Reorders

theorem decl_eq (r : Reorders σ ns ns') (hn : ns[i]? = some n) (hn' : ns'[σ i]? = some n') : n'.decl = n.decl :=
  eq_of_nodes (r i) hn hn'

theorem exists_node (r : Reorders σ ns ns') (hn : ns[i]? = some n) :
    ∃ n', ns'[σ i]? = some n' ∧ n'.decl = n.decl := by
  have same := r i
  rw [hn] at same
  exact Option.map_eq_some_iff.mp same

theorem symm (r : Reorders σ ns ns') : Reorders σ.symm ns' ns := by
  intro i
  have there := r (σ.symm i)
  rw [Equiv.apply_symm_apply] at there
  exact there.symm

theorem corresponds (r : Reorders σ ns ns') : Corresponds id σ ns ns' where
  renumbers := by
    intro i
    have heading : Node.heading = (fun t : TypeDecl => (t.name, t.base.map (·.1))) ∘ Node.decl := rfl
    rw [heading, ← Option.map_map, ← Option.map_map, r i]
  alike := by
    intro i n n' hn hn'
    have same := r.decl_eq hn hn'
    have calls : n'.decl.methods.map callOf = n.decl.methods.map callOf := by rw [same]
    exact ⟨by rw [same], declaredHooks_of_calls calls, (checkMethods_of_calls calls).1, by rw [own_of_decl same]⟩

/-- Where each type has its share in a list, the whole is the same up to order. -/
theorem perm_flatMap {β : Type} {f f' : Nat → List β} (r : Reorders σ ns ns')
    (same : ∀ i < ns.length, f' (σ i) = f i) :
    ((List.range ns'.length).flatMap f').Perm ((List.range ns.length).flatMap f) := by
  have numbers : (List.range ns'.length).Perm ((List.range ns.length).map σ) := by
    apply (List.perm_ext_iff_of_nodup List.nodup_range (List.nodup_range.map σ.injective)).mpr
    intro j
    rw [List.mem_range, List.mem_map]
    constructor
    · intro inside
      have inside' := r.symm.corresponds.renumbers.inside_iff.mpr inside
      exact ⟨σ.symm j, List.mem_range.mpr inside', Equiv.apply_symm_apply σ j⟩
    · rintro ⟨i, inside, rfl⟩
      exact r.corresponds.renumbers.inside_iff.mpr (List.mem_range.mp inside)
  refine (numbers.flatMap_right f').trans ?_
  rw [List.flatMap_map]
  exact .of_eq (List.flatMap_congr fun i hi => same i (List.mem_range.mp hi))

end Reorders

/-! ## 4. What linking says -/

theorem codes_reservedNames (ns : List Node) : codes (reservedNames ns) =
    (ns.map Node.decl).filterMap fun t => if t.name == behaviourBase then some .reservedTypeName else none := by
  rw [codes, reservedNames, List.map_filterMap, List.filterMap_map]
  refine List.filterMap_congr fun n _ => ?_
  show Option.map _ (if n.decl.name == behaviourBase then _ else _) = if n.decl.name == behaviourBase then _ else _
  split
  · rfl
  · rfl

theorem codes_baseFindings (ns : List Node) :
    codes (baseFindings ns) = (List.range ns.length).flatMap fun i => (walk ns i).codes i := by
  rw [baseFindings, codes_flatMap]
  exact List.flatMap_congr fun i hi => Walk.codes_findings (List.mem_range.mp hi) _

theorem codes_own (ns : List Node) : (codes (ns.flatMap fun n => (FieldSpec.own n).2)) =
    (ns.map Node.decl).flatMap fun t => codes (FieldSpec.own ⟨"", t, []⟩).2 := by
  rw [codes_flatMap, List.flatMap_map]
  exact List.flatMap_congr fun n _ => own_codes rfl

/-- The codes of what there is to say about the resolved type `i`. -/
def resolvedCodes (ns : List Node) (i : Nat) : List Code :=
  ((ns[i]?).map fun n => codes (resolvedAt ns i n).findings).getD []

/-- A list with its numbers, number by number. -/
theorem flatMap_zipIdx {α β : Type} (f : α → Nat → List β) (as : List α) :
    as.zipIdx.flatMap (fun p => f p.1 p.2) =
      (List.range as.length).flatMap fun i => ((as[i]?).map (f · i)).getD [] := by
  induction as using List.reverseRecOn with
  | nil => rfl
  | append_singleton as a ih =>
    have before : ∀ i ∈ List.range as.length, (((as ++ [a])[i]?).map (f · i)).getD [] =
        ((as[i]?).map (f · i)).getD [] := by
      intro i hi
      rw [List.getElem?_append_left (List.mem_range.mp hi)]
    rw [List.zipIdx_append, List.flatMap_append, ih, List.length_append, List.length_singleton, List.range_succ,
      List.flatMap_append, List.flatMap_congr before]
    simp

theorem codes_resolveAll (ns : List Node) :
    codes ((resolveAll ns).flatMap (·.findings)) = (List.range ns.length).flatMap (resolvedCodes ns) := by
  have all : (resolveAll ns).flatMap (·.findings) = ns.zipIdx.flatMap fun p => (resolvedAt ns p.2 p.1).findings :=
    List.flatMap_map ..
  rw [all, codes_flatMap, flatMap_zipIdx fun n i => codes (resolvedAt ns i n).findings]
  rfl

/-- The codes of what is said about a type for its ancestry; `silent` tells whether it is a concrete type without
    hooks. -/
def Ancestry.codes (silent : Bool) : Ancestry → List Code
  | behaviour _ => if silent then [.noHooks] else []
  | plain _ => [.notABehaviour]
  | broken => []

theorem Ancestry.codes_renumber (silent : Bool) (a : Ancestry) : (a.renumber σ).codes silent = a.codes silent := by
  cases a <;> rfl

/-- What is said about a resolved type concerns its fields, its methods and its ancestry. -/
theorem codes_findings_resolvedAt (ns : List Node) (i : Nat) (n : Node) :
    codes (resolvedAt ns i n).findings =
      codes (FieldSpec.shadowed n
          (FieldSpec.ofChain (ownFields ns) ((resolvedAt ns i n).chain.filter (· != i))) (ownFields ns i)) ++
        (if (walk ns i).ancestry.isBehaviour then codes (checkMethods n).2 else []) ++
        (walk ns i).ancestry.codes (!n.decl.isAbstract && (resolvedAt ns i n).type.hooks.isEmpty) := by
  have methods : codes (if (walk ns i).ancestry.isBehaviour then checkMethods n else (HookSet.empty, [])).2 =
      if (walk ns i).ancestry.isBehaviour then codes (checkMethods n).2 else [] := by
    split
    · rfl
    · rfl
  have remarks (a : Ancestry) (silent : Bool) : codes (match a with
      | .behaviour _ => if silent then [⟨.noHooks n.name, n.location⟩] else []
      | .plain _ => [⟨.notABehaviour n.name, n.location⟩]
      | .broken => []) = a.codes silent := by
    cases a with
    | behaviour => cases silent <;> rfl
    | plain | broken => rfl
  rw [← methods, ← remarks, ← codes_append, ← codes_append]
  rfl

/-- Where a type is declared alike, the same is said about it. -/
theorem Reorders.resolvedCodes_eq (r : Reorders σ ns ns') (i : Nat) :
    resolvedCodes ns' (σ i) = resolvedCodes ns i := by
  have c := r.corresponds
  rw [resolvedCodes, resolvedCodes]
  rcases nodes_cases (r i) with ⟨absent, absent'⟩ | ⟨n, n', hn, hn', same⟩
  · rw [absent, absent']
    rfl
  · have inside : i < ns.length := (List.getElem?_eq_some_iff.mp hn).1
    have alike := c.resolvedAt_alike FieldSpec.name (fun _ => rfl) hn hn'
    have chain := c.renumbers.chain_eq hn n'
    have own (j : Nat) : ownFields ns' (σ j) = ownFields ns j := by
      have viewed := c.own_eq j
      rwa [List.map_id, List.map_id] at viewed
    have inherited : FieldSpec.ofChain (ownFields ns') ((resolvedAt ns' (σ i) n').chain.filter (· != σ i)) =
        FieldSpec.ofChain (ownFields ns) ((resolvedAt ns i n).chain.filter (· != i)) := by
      have viewed (bases : List Nat) : (FieldSpec.ofChain (ownFields ns') (bases.map σ)).map id =
          (FieldSpec.ofChain (ownFields ns) bases).map id :=
        FieldSpec.map_ofChain FieldSpec.name (fun _ => rfl) fun j _ => congrArg (List.map id) (own j)
      have viewed := viewed ((resolvedAt ns i n).chain.filter (· != i))
      rw [chain, filter_ne_renumbered]
      rwa [List.map_id, List.map_id] at viewed
    have calls : n'.decl.methods.map callOf = n.decl.methods.map callOf := by rw [same]
    rw [hn, hn', Option.map_some, Option.map_some, codes_findings_resolvedAt, codes_findings_resolvedAt, inherited,
      own, shadowed_codes n n', (checkMethods_of_calls calls).2, c.renumbers.ancestry_eq inside,
      Ancestry.isBehaviour_renumber, Ancestry.codes_renumber, alike.hooks, same]

/-! ## 5. Functions that are defined again -/

/-- How many of the keys stand behind one that is equal. -/
def repeats {κ : Type} [DecidableEq κ] (ks : List κ) : Nat :=
  ks.zipIdx.countP fun p => decide (p.1 ∈ ks.take p.2)

/-- Every key but the first of its kind stands behind one that is equal. -/
theorem repeats_add_card {κ : Type} [DecidableEq κ] (ks : List κ) : repeats ks + ks.toFinset.card = ks.length := by
  unfold repeats
  -- From the end: a key more changes nothing about those before it.
  induction ks using List.reverseRecOn with
  | nil => rfl
  | append_singleton ks k ih =>
    have before : ks.zipIdx.countP (fun p => decide (p.1 ∈ (ks ++ [k]).take p.2)) =
        ks.zipIdx.countP (fun p => decide (p.1 ∈ ks.take p.2)) := by
      refine List.countP_congr fun p hp => ?_
      have inside : p.2 < ks.length := (List.getElem?_eq_some_iff.mp (List.mem_zipIdx_iff_getElem?.mp hp)).1
      rw [List.take_append_of_le_length (by omega)]
    have last : ([k].zipIdx (0 + ks.length)).countP (fun p => decide (p.1 ∈ (ks ++ [k]).take p.2)) =
        if k ∈ ks then 1 else 0 := by
      simp [List.countP_singleton]
    rw [List.zipIdx_append, List.countP_append, before, last, List.length_append, List.length_singleton,
      List.toFinset_append]
    by_cases again : k ∈ ks
    · have same : ks.toFinset ∪ [k].toFinset = ks.toFinset := by simp [again]
      rw [if_pos again, same]
      omega
    · have more : (ks.toFinset ∪ [k].toFinset).card = ks.toFinset.card + 1 := by
        rw [← Finset.card_insert_of_notMem (fun h => again (List.mem_toFinset.mp h))]
        congr 1
        ext
        simp
      rw [if_neg again, more]
      omega

theorem repeats_perm {κ : Type} [DecidableEq κ] {ks ks' : List κ} (perm : ks'.Perm ks) :
    repeats ks' = repeats ks := by
  have here := repeats_add_card ks
  have there := repeats_add_card ks'
  rw [List.toFinset_eq_of_perm _ _ perm, perm.length_eq] at there
  omega

/-- What a call sees of a function: its name and the number of its parameters. -/
def signatureOf (f : FnDecl) : String × Nat := (f.name, f.params.length)

theorem codes_duplicateFunctions (ms : List Module) : codes (duplicateFunctions ms) =
    List.replicate (repeats ((ms.flatMap (·.tree.functions)).map signatureOf)) .duplicateMethod := by
  let all := ms.flatMap fun m => m.tree.functions.map fun f => (f, Location.atPosition m.path f.position)
  have signed : (ms.flatMap (·.tree.functions)).map signatureOf = all.map (signatureOf ∘ Prod.fst) := by
    rw [← List.map_map, List.map_flatMap, List.map_flatMap, List.map_flatMap]
    simp only [List.map_map]
    rfl
  have same (e f : FnDecl) :
      (e.name == f.name && e.params.length == f.params.length) = true ↔ signatureOf e = signatureOf f := by
    simp [signatureOf]
  have count : (duplicateFunctions ms).length = repeats (all.map (signatureOf ∘ Prod.fst)) := by
    rw [duplicateFunctions, List.length_filterMap_eq_countP, repeats, List.zipIdx_map, List.countP_map]
    refine List.countP_congr ?_
    rintro ⟨⟨f, place⟩, i⟩ -
    rw [Option.isSome_map, List.find?_isSome]
    simp only [Function.comp_apply, decide_eq_true_eq, Prod.map_apply, ← List.map_take, List.mem_map]
    constructor
    · rintro ⟨e, he, alike⟩
      exact ⟨e, he, (same e.1 f).mp alike⟩
    · rintro ⟨e, he, alike⟩
      exact ⟨e, he, (same e.1 f).mpr alike⟩
  rw [signed, ← count]
  have number : (codes (duplicateFunctions ms)).length = (duplicateFunctions ms).length := List.length_map _
  refine List.eq_replicate_iff.mpr ⟨number, fun code hc => ?_⟩
  obtain ⟨d, hd, rfl⟩ := List.mem_map.mp hc
  exact duplicateFunctions_code hd

/-- Linking says the same, code by code, of the same declarations in another order. -/
theorem linkFindings_perm {ms ms' : List Module}
    (types : ((Node.ofModules ms').map Node.decl).Perm ((Node.ofModules ms).map Node.decl))
    (functions : (ms'.flatMap (·.tree.functions)).Perm (ms.flatMap (·.tree.functions))) :
    (codes (linkFindings ms')).Perm (codes (linkFindings ms)) := by
  obtain ⟨σ, r⟩ := exists_reorders types.symm
  have walks : ∀ i < (Node.ofModules ms).length, (walk (Node.ofModules ms') (σ i)).codes (σ i) =
      (walk (Node.ofModules ms) i).codes i := by
    intro i inside
    rw [r.corresponds.renumbers.walk_eq inside, Walk.codes_renumber]
  have again := codes_duplicateFunctions ms'
  rw [repeats_perm (functions.map _), ← codes_duplicateFunctions ms] at again
  simp only [linkFindings, codes_append, codes_reservedNames, codes_baseFindings, codes_own, codes_resolveAll]
  rw [again]
  refine (((List.Perm.append_left _ ?_).append ?_).append ?_).append ?_
  · exact types.filterMap _
  · exact r.perm_flatMap walks
  · exact types.flatMap_right _
  · exact r.perm_flatMap fun i _ => r.resolvedCodes_eq i

/-! ## 6. What a file says -/

/-- What is found one by one has the same codes wherever it is. -/
theorem codes_filterMap {α : Type} {f f' : α → Option Diagnostic} (as : List α)
    (same : ∀ a, (f' a).map (·.code) = (f a).map (·.code)) :
    codes (as.filterMap f') = codes (as.filterMap f) := by
  rw [codes, codes, List.map_filterMap, List.map_filterMap]
  exact List.filterMap_congr fun a _ => same a

namespace Module

theorem codes_check (path path' : String) (t : Tree) :
    codes (Reference.check path' t) = codes (Reference.check path t) := by
  simp only [Reference.check, codes_append]
  congr 1
  congr 1
  · refine codes_filterMap _ fun d => ?_
    split
    · rfl
    · rfl
  · refine codes_filterMap _ fun r => ?_
    rw [Option.map_map, Option.map_map]
    rfl
  · refine codes_filterMap _ fun m => ?_
    cases (Reference.declared t.uses).find? (·.module == m.name) with
    | none => rfl
    | some d =>
      rw [Option.bind_some, Option.bind_some]
      split
      · rfl
      · rfl

theorem codes_split (path path' : String) (fs : List FnDecl) :
    codes (split (fs.map (Lowered.ofDecl path'))).2 = codes (split (fs.map (Lowered.ofDecl path))).2 := by
  simp only [split, List.filterMap_map]
  refine codes_filterMap fs fun f => ?_
  simp only [Function.comp_apply]
  unfold Lowered.ofDecl
  cases Script.compile Lowered.known (Lowered.textOf f) with
  | ok => rfl
  | error => rfl

/-- What there is to say about a file depends on its text. -/
theorem codes_read (path path' content : String) :
    codes (read path' content).diagnostics = codes (read path content).diagnostics := by
  simp only [diagnostics_read, codes_append, codes_flatMap, codes_check path path', codes_split path path']
  congr 3
  rw [codes, codes, List.map_map, List.map_map]
  rfl

end Module

end ScriptHost.Corpus
