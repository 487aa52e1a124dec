import Mathlib.Data.List.Nodup
import Mathlib.Logic.Equiv.Defs
import ScriptHost.Proofs.Corpus.Descent
import ScriptHost.Proofs.Corpus.Fields
import ScriptHost.Proofs.Corpus.Hooks

/-!
# Renumbering — types under other numbers

A walk goes by the names and the bases of types and by nothing else.  Where the types of two corpora correspond by
their numbers and agree in these two, each walk passes the same types under their new numbers and says the same.
Where they agree in their hooks and fields as well, so do the types that they are resolved to.
-/

namespace ScriptHost.Corpus

open Declaration (FnDecl TypeDecl)

/-- What a walk sees of a type: its name and that of its base. -/
def Node.heading (n : Node) : String × Option String := (n.name, n.decl.base.map (·.1))

/-- The type `i` of the first corpus is the type `σ i` of the second one, as far as walks are concerned. -/
def Renumbers (σ : Equiv.Perm Nat) (ns ns' : List Node) : Prop :=
  ∀ i, (ns'[σ i]?).map Node.heading = (ns[i]?).map Node.heading

variable {σ : Equiv.Perm Nat} {ns ns' : List Node} {i j : Nat} {name base : String} {chain : List Nat} {w : Walk}

theorem declares_iff_heading : Declares ns name i ↔ ∃ b, (ns[i]?).map Node.heading = some (name, b) := by
  constructor
  · rintro ⟨n, hn, rfl⟩
    exact ⟨_, by rw [hn]; rfl⟩
  · rintro ⟨b, h⟩
    obtain ⟨n, hn, same⟩ := Option.map_eq_some_iff.mp h
    exact ⟨n, hn, congrArg Prod.fst same⟩

theorem names_iff_heading : Names ns i base ↔ ∃ name, (ns[i]?).map Node.heading = some (name, some base) := by
  constructor
  · rintro ⟨n, p, hn, named⟩
    exact ⟨n.name, by rw [hn, Option.map_some, Node.heading, named]; rfl⟩
  · rintro ⟨name, h⟩
    obtain ⟨n, hn, same⟩ := Option.map_eq_some_iff.mp h
    obtain ⟨⟨b, p⟩, named, rfl⟩ := Option.map_eq_some_iff.mp (congrArg Prod.snd same)
    exact ⟨n, p, hn, named⟩

/-- Where the same is seen of two types, both are there or neither is. -/
theorem nodes_cases {β : Type} {f : Node → β} (same : (ns'[j]?).map f = (ns[i]?).map f) :
    (ns[i]? = none ∧ ns'[j]? = none) ∨ ∃ n n', ns[i]? = some n ∧ ns'[j]? = some n' ∧ f n' = f n := by
  cases there : ns[i]? with
  | none =>
    rw [there, Option.map_none, Option.map_eq_none_iff] at same
    exact .inl ⟨rfl, same⟩
  | some n =>
    rw [there] at same
    obtain ⟨n', there', alike⟩ := Option.map_eq_some_iff.mp same
    exact .inr ⟨n, n', rfl, there', alike⟩

theorem eq_of_nodes {β : Type} {f : Node → β} {n n' : Node} (same : (ns'[j]?).map f = (ns[i]?).map f)
    (hn : ns[i]? = some n) (hn' : ns'[j]? = some n') : f n' = f n := by
  rw [hn, hn'] at same
  exact Option.some.inj same

/-! ## 1. Names and steps -/

namespace Renumbers

theorem symm (r : Renumbers σ ns ns') : Renumbers σ.symm ns' ns := by
  intro i
  have there := r (σ.symm i)
  rw [Equiv.apply_symm_apply] at there
  exact there.symm

theorem inside_iff (r : Renumbers σ ns ns') : σ i < ns'.length ↔ i < ns.length := by
  rw [← Nat.not_le, ← List.getElem?_eq_none_iff, ← Option.map_eq_none_iff, r i, Option.map_eq_none_iff,
    List.getElem?_eq_none_iff, Nat.not_le]

theorem declares_iff (r : Renumbers σ ns ns') : Declares ns' name (σ i) ↔ Declares ns name i := by
  rw [declares_iff_heading, declares_iff_heading, r i]

theorem names_iff (r : Renumbers σ ns ns') : Names ns' (σ i) base ↔ Names ns i base := by
  rw [names_iff_heading, names_iff_heading, r i]

/-- Every number of the second corpus is a new one. -/
theorem exists_declares_iff (r : Renumbers σ ns ns') :
    (∃ k, Declares ns' name k) ↔ ∃ k, Declares ns name k := by
  constructor
  · rintro ⟨k, h⟩
    exact ⟨σ.symm k, r.symm.declares_iff.mpr h⟩
  · rintro ⟨k, h⟩
    exact ⟨σ k, r.declares_iff.mpr h⟩

theorem declaresAlone (r : Renumbers σ ns ns') (h : DeclaresAlone ns name i) : DeclaresAlone ns' name (σ i) := by
  refine ⟨r.declares_iff.mpr h.1, fun j hj => ?_⟩
  rw [← h.2 (σ.symm j) (r.symm.declares_iff.mpr hj), Equiv.apply_symm_apply]

theorem declaredAgain (r : Renumbers σ ns ns') (h : DeclaredAgain ns name) : DeclaredAgain ns' name := by
  obtain ⟨i, j, different, hi, hj⟩ := h
  exact ⟨σ i, σ j, fun same => different (σ.injective same), r.declares_iff.mpr hi, r.declares_iff.mpr hj⟩

theorem ascends (r : Renumbers σ ns ns') (h : Ascends ns i j) : Ascends ns' (σ i) (σ j) := by
  obtain ⟨base, named, notBuiltIn, alone⟩ := h
  exact ⟨base, r.names_iff.mpr named, notBuiltIn, r.declaresAlone alone⟩

theorem trail (r : Renumbers σ ns ns') (t : Trail ns i chain) : Trail ns' (σ i) (chain.map σ) := by
  induction t with
  | start => exact .start
  | step _ up ih => exact .step ih (r.ascends up)

end Renumbers

/-! ## 2. Walks -/

/-- The walk under the new numbers.  The types that an ambiguous name is found for are listed anew. -/
def Walk.renumber (σ : Equiv.Perm Nat) (ns' : List Node) : Walk → Walk
  | behaviour chain => behaviour (chain.map σ)
  | plain chain => plain (chain.map σ)
  | unknown chain base => unknown (chain.map σ) base
  | ambiguous chain base _ => ambiguous (chain.map σ) base (candidates ns' base)
  | cycle chain again => cycle (chain.map σ) (σ again)

def Ancestry.renumber (σ : Equiv.Perm Nat) : Ancestry → Ancestry
  | behaviour chain => behaviour (chain.map σ)
  | plain chain => plain (chain.map σ)
  | broken => broken

theorem Renumbers.ending (r : Renumbers σ ns ns') (e : Ending ns i w) :
    Ending ns' (σ i) (w.renumber σ ns') := by
  cases e with
  | behaviour t builtIn => exact .behaviour (r.trail t) (r.names_iff.mpr builtIn)
  | plain t root => exact .plain (r.trail t) fun base named => root base (r.names_iff.mp named)
  | unknown t named notBuiltIn nowhere =>
    refine .unknown (r.trail t) (r.names_iff.mpr named) notBuiltIn fun k h => ?_
    obtain ⟨k, h⟩ := r.exists_declares_iff.mp ⟨k, h⟩
    exact nowhere k h
  | ambiguous t named notBuiltIn again =>
    exact .ambiguous (r.trail t) (r.names_iff.mpr named) notBuiltIn (r.declaredAgain again)
  | cycle t distinct up met =>
    exact .cycle (r.trail t) (distinct.map σ.injective) (r.ascends up) (List.mem_map_of_mem met)

/-- The walk of a type passes the same types under their new numbers. -/
theorem Renumbers.walk_eq (r : Renumbers σ ns ns') (inside : i < ns.length) :
    walk ns' (σ i) = (walk ns i).renumber σ ns' :=
  (walk_eq_iff (r.inside_iff.mpr inside)).mpr (r.ending (ending_walk inside))

theorem Walk.ancestry_renumber (w : Walk) : (w.renumber σ ns').ancestry = w.ancestry.renumber σ := by
  cases w <;> rfl

/-- It says the same. -/
theorem Walk.codes_renumber (w : Walk) : (w.renumber σ ns').codes (σ i) = w.codes i := by
  cases w with
  | behaviour | plain | ambiguous => rfl
  | unknown chain base =>
    have same : chain.map σ = [σ i] ↔ chain = [i] :=
      ⟨fun h => List.map_injective_iff.mpr σ.injective h, fun h => by rw [h]; rfl⟩
    simp only [renumber, codes, same]
  | cycle chain again => simp only [renumber, codes, EmbeddingLike.apply_eq_iff_eq]

theorem Ancestry.chain_renumber (a : Ancestry) : (a.renumber σ).chain (σ i) = (a.chain i).map σ := by
  cases a <;> rfl

theorem Ancestry.isBehaviour_renumber (a : Ancestry) : (a.renumber σ).isBehaviour = a.isBehaviour := by
  cases a <;> rfl

theorem Renumbers.ancestry_eq (r : Renumbers σ ns ns') (inside : i < ns.length) :
    (walk ns' (σ i)).ancestry = (walk ns i).ancestry.renumber σ := by
  rw [r.walk_eq inside, Walk.ancestry_renumber]

/-- The chain that a type is resolved along. -/
theorem Renumbers.chain_eq {n : Node} (r : Renumbers σ ns ns') (hn : ns[i]? = some n) (n' : Node) :
    (resolvedAt ns' (σ i) n').chain = (resolvedAt ns i n).chain.map σ := by
  have inside : i < ns.length := (List.getElem?_eq_some_iff.mp hn).1
  rw [chain_resolvedAt, chain_resolvedAt, r.ancestry_eq inside, Ancestry.chain_renumber]

/-- The bases in a chain. -/
theorem filter_ne_renumbered (σ : Equiv.Perm Nat) (i : Nat) (chain : List Nat) :
    (chain.map σ).filter (· != σ i) = (chain.filter (· != i)).map σ := by
  rw [List.filter_map]
  congr 1
  refine List.filter_congr fun j _ => ?_
  rw [Function.comp_apply, Bool.eq_iff_iff]
  simp

theorem Renumbers.namesOf_eq (r : Renumbers σ ns ns') (chain : List Nat) :
    namesOf ns' (chain.map σ) = namesOf ns chain := by
  have named (j : Nat) : (ns'[σ j]?).map Node.name = (ns[j]?).map Node.name := by
    have same := congrArg (Option.map Prod.fst) (r j)
    rw [Option.map_map, Option.map_map] at same
    exact same
  rw [namesOf, namesOf, ← List.map_reverse, List.filterMap_map]
  exact List.filterMap_congr fun j _ => named j

/-! ## 3. Hooks -/

/-- The name of a function and its parameters. -/
def callOf (f : FnDecl) : String × List String := (f.name, f.params)

theorem declaredHooks_of_calls {t t' : TypeDecl} (same : t'.methods.map callOf = t.methods.map callOf) :
    declaredHooks t' = declaredHooks t := by
  have served : servedHook? =
      (fun call : String × List String => (Hook.ofName? call.1).filter fun h => h.arity == call.2.length) ∘ callOf :=
    rfl
  rw [declaredHooks, declaredHooks, served, ← List.filterMap_map, ← List.filterMap_map, same]

/-- Methods have been checked with the same outcome, wherever they stand. -/
structure Checked.Alike (c c' : Checked) : Prop where
  seen : c'.1 = c.1
  hooks : c'.2.1 = c.2.1
  codes : Corpus.codes c'.2.2 = Corpus.codes c.2.2

theorem checkMethod_of_call {n n' : Node} {c c' : Checked} {f f' : FnDecl} (before : c.Alike c')
    (same : callOf f' = callOf f) : Checked.Alike (checkMethod n c f) (checkMethod n' c' f') := by
  obtain ⟨name, params⟩ := Prod.mk.inj same
  obtain ⟨seen, hooks, found⟩ := before
  have hook : hookOf? f' = hookOf? f := congrArg Hook.ofName? name
  have one (d d' : Diagnostic) (code : d'.code = d.code) : codes (c'.2.2 ++ [d']) = codes (c.2.2 ++ [d]) := by
    rw [codes_append, codes_append, found]
    exact congrArg (_ ++ [·]) code
  unfold checkMethod
  rw [seen, hooks, name, params, hook]
  split
  · exact ⟨rfl, rfl, one _ _ rfl⟩
  · split
    · exact ⟨rfl, rfl, found⟩
    · split
      · exact ⟨rfl, rfl, found⟩
      · exact ⟨rfl, rfl, one _ _ rfl⟩

/-- The check of methods goes by their names and parameters. -/
theorem checkMethods_of_calls {n n' : Node} (same : n'.decl.methods.map callOf = n.decl.methods.map callOf) :
    (checkMethods n').1 = (checkMethods n).1 ∧ codes (checkMethods n').2 = codes (checkMethods n).2 := by
  have from_any (fs fs' : List FnDecl) (c c' : Checked) (same : fs'.map callOf = fs.map callOf)
      (before : c.Alike c') :
      Checked.Alike (fs.foldl (checkMethod n) c) (fs'.foldl (checkMethod n') c') := by
    induction fs generalizing fs' c c' with
    | nil =>
      obtain rfl := List.map_eq_nil_iff.mp same
      exact before
    | cons f fs ih =>
      obtain ⟨f', fs', rfl, first, later⟩ := List.map_eq_cons_iff.mp same
      exact ih fs' _ _ later (checkMethod_of_call before first)
  have checked := from_any _ _ ([], .empty, []) ([], .empty, []) same ⟨rfl, rfl, rfl⟩
  rw [checkMethods_eq, checkMethods_eq]
  exact ⟨checked.hooks, checked.codes⟩

/-! ## 4. Types -/

variable {α : Type} {view : FieldSpec → α}

namespace FieldSpec

variable {fields fields' more more' : List FieldSpec}

/-- Whether a field is passed over depends on its name, so that what is seen of the fields together with their
    names goes on being the same. -/
theorem map_extend (key : α → String) (named : ∀ f, key (view f) = f.name)
    (before : fields'.map view = fields.map view) (same : more'.map view = more.map view) :
    (extend fields' more').map view = (extend fields more).map view := by
  induction more generalizing fields fields' more' with
  | nil =>
    obtain rfl := List.map_eq_nil_iff.mp same
    exact before
  | cons f more ih =>
    obtain ⟨f', more', rfl, first, later⟩ := List.map_eq_cons_iff.mp same
    have alike : f'.name = f.name := by rw [← named, first, named]
    have names (fs : List FieldSpec) : fs.any (·.name == f.name) = (fs.map view).any (key · == f.name) := by
      rw [List.any_map]
      exact congrArg fs.any (funext fun g => by rw [Function.comp_apply, named])
    rw [extend_cons, extend_cons, alike, names fields, names fields', before]
    apply ih _ later
    split
    · exact before
    · rw [List.map_append, List.map_append, before, List.map_singleton, List.map_singleton, first]

theorem map_ofChain (key : α → String) (named : ∀ f, key (view f) = f.name) {own own' : Nat → List FieldSpec}
    (same : ∀ j ∈ chain, (own' (σ j)).map view = (own j).map view) :
    (ofChain own' (chain.map σ)).map view = (ofChain own chain).map view := by
  have from_any (fields fields' : List FieldSpec) (before : fields'.map view = fields.map view) :
      ((chain.map σ).foldl (fun fs i => extend fs (own' i)) fields').map view =
        (chain.foldl (fun fs i => extend fs (own i)) fields).map view := by
    induction chain generalizing fields fields' with
    | nil => exact before
    | cons j chain ih =>
      obtain ⟨first, later⟩ := List.forall_mem_cons.mp same
      exact ih later _ _ (map_extend key named before first)
  exact from_any [] [] rfl

end FieldSpec

/-- Two types that are resolved alike: they agree in what is asked of a type besides its name and base, and in
    what `view` shows of their own fields. -/
structure Node.Alike (view : FieldSpec → α) (n n' : Node) : Prop where
  isAbstract : n'.decl.isAbstract = n.decl.isAbstract
  declaredHooks : Corpus.declaredHooks n'.decl = Corpus.declaredHooks n.decl
  ownHooks : (checkMethods n').1 = (checkMethods n).1
  own : (FieldSpec.own n').1.map view = (FieldSpec.own n).1.map view

/-- The types of two corpora correspond. -/
structure Corresponds (view : FieldSpec → α) (σ : Equiv.Perm Nat) (ns ns' : List Node) : Prop where
  renumbers : Renumbers σ ns ns'
  alike : ∀ i n n', ns[i]? = some n → ns'[σ i]? = some n' → n.Alike view n'

/-- Two resolved types agree in everything but their places, and in what `view` shows of their fields. -/
structure ScriptType.Alike (view : FieldSpec → α) (t t' : ScriptType) : Prop where
  name : t'.name = t.name
  base : t'.base = t.base
  ancestry : t'.ancestry = t.ancestry
  isAbstract : t'.isAbstract = t.isAbstract
  isBehaviour : t'.isBehaviour = t.isBehaviour
  hooks : t'.hooks = t.hooks
  fields : t'.fields.map view = t.fields.map view

theorem ScriptType.Alike.isInstantiable {t t' : ScriptType} (h : t.Alike view t') :
    t'.isInstantiable = t.isInstantiable := by
  rw [ScriptType.isInstantiable, ScriptType.isInstantiable, h.isBehaviour, h.isAbstract]

theorem ScriptType.Alike.fields_eq {t t' : ScriptType} (h : t.Alike id t') : t'.fields = t.fields := by
  have fields := h.fields
  rwa [List.map_id, List.map_id] at fields

theorem inherit_cons (ns : List Node) (hooks : HookSet) (j : Nat) (bases : List Nat) :
    inherit ns hooks (j :: bases) =
      inherit ns (((ns[j]?).map fun b => hooks.union (declaredHooks b.decl)).getD hooks) bases := by
  rw [inherit, List.foldl_cons]
  cases ns[j]? with
  | none => rfl
  | some b => rfl

namespace Corresponds

variable {n n' : Node}

theorem inherit_eq (c : Corresponds view σ ns ns') (hooks : HookSet) (bases : List Nat) :
    inherit ns' hooks (bases.map σ) = inherit ns hooks bases := by
  induction bases generalizing hooks with
  | nil => rfl
  | cons j bases ih =>
    rw [List.map_cons, inherit_cons, inherit_cons, ih]
    rcases nodes_cases (c.renumbers j) with ⟨absent, absent'⟩ | ⟨b, b', there, there', -⟩
    · rw [absent, absent']
    · rw [there, there', Option.map_some, Option.map_some, (c.alike j b b' there there').declaredHooks]

theorem own_eq (c : Corresponds view σ ns ns') (j : Nat) :
    (((ns'.map fun n => (FieldSpec.own n).1)[σ j]?).getD []).map view =
      (((ns.map fun n => (FieldSpec.own n).1)[j]?).getD []).map view := by
  rw [List.getElem?_map, List.getElem?_map]
  rcases nodes_cases (c.renumbers j) with ⟨absent, absent'⟩ | ⟨b, b', there, there', -⟩
  · rw [absent, absent']
  · rw [there, there']
    exact (c.alike j b b' there there').own

/-- Types that correspond are resolved alike. -/
theorem resolvedAt_alike (c : Corresponds view σ ns ns') (key : α → String) (named : ∀ f, key (view f) = f.name)
    (hn : ns[i]? = some n) (hn' : ns'[σ i]? = some n') :
    (resolvedAt ns i n).type.Alike view (resolvedAt ns' (σ i) n').type := by
  have inside : i < ns.length := (List.getElem?_eq_some_iff.mp hn).1
  have alike := c.alike i n n' hn hn'
  have heading : n'.heading = n.heading := eq_of_nodes (c.renumbers i) hn hn'
  have chain : (resolvedAt ns' (σ i) n').chain = (resolvedAt ns i n).chain.map σ := c.renumbers.chain_eq hn n'
  have behaviour : (walk ns' (σ i)).ancestry.isBehaviour = (walk ns i).ancestry.isBehaviour := by
    rw [c.renumbers.ancestry_eq inside, Ancestry.isBehaviour_renumber]
  constructor
  case name => exact congrArg Prod.fst heading
  case base => exact congrArg Prod.snd heading
  case ancestry =>
    show namesOf ns' (resolvedAt ns' (σ i) n').chain = namesOf ns (resolvedAt ns i n).chain
    rw [chain, c.renumbers.namesOf_eq]
  case isAbstract => exact alike.isAbstract
  case isBehaviour => exact behaviour
  case hooks =>
    rw [hooks_resolvedAt, hooks_resolvedAt, chain, filter_ne_renumbered, behaviour, alike.ownHooks, c.inherit_eq]
  case fields =>
    show (FieldSpec.ofChain _ (resolvedAt ns' (σ i) n').chain).map view =
      (FieldSpec.ofChain _ (resolvedAt ns i n).chain).map view
    rw [chain]
    exact FieldSpec.map_ofChain key named fun j _ => c.own_eq j

end Corresponds

end ScriptHost.Corpus
