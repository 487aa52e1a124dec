import ScriptHost.Proofs.Corpus.Program
import ScriptHost.Proofs.Corpus.Resolution

/-!
# Descent — the bases of a type by their names

A name stands for a type where it is declared once.  Such a type descends from the built-in base where its
base is built in, or is a name that descends itself.  That depends on nothing but the declarations of the
names on the way.
-/

namespace ScriptHost.Corpus

open Relation (ReflTransGen)

variable {ns : List Node} {i j : Nat} {chain : List Nat} {name base : String} {names : List String}

/-! ## 1. Declarations of a name -/

/-- The types of that name, in the order of the corpus. -/
def declarations (ns : List Node) (name : String) : List Node := ns.filter (·.name == name)

theorem filterMap_range (ns : List Node) : (List.range ns.length).filterMap (ns[·]?) = ns := by
  induction ns using List.reverseRecOn with
  | nil => rfl
  | append_singleton ns n ih =>
    have before : ∀ i ∈ List.range ns.length, (ns ++ [n])[i]? = ns[i]? :=
      fun i hi => List.getElem?_append_left (List.mem_range.mp hi)
    rw [List.length_append, List.length_singleton, List.range_succ, List.filterMap_append,
      List.filterMap_congr before, ih, List.filterMap_cons, List.getElem?_concat_length]
    rfl

/-- The numbers that are found for a name are those of its declarations. -/
theorem candidates_nodes (ns : List Node) (name : String) :
    (candidates ns name).filterMap (ns[·]?) = declarations ns name := by
  conv_rhs => rw [declarations, ← filterMap_range ns, List.filter_filterMap]
  rw [candidates, List.filterMap_filter]
  refine List.filterMap_congr fun i _ => ?_
  cases ns[i]? with
  | none => rfl
  | some n => simp [Option.filter]

theorem length_declarations (ns : List Node) (name : String) :
    (declarations ns name).length = (candidates ns name).length := by
  have some_of_mem : ∀ i ∈ candidates ns name, (ns[i]?).isSome = true := by
    intro i hi
    obtain ⟨n, hn, -⟩ := mem_candidates.mp hi
    rw [hn]
    rfl
  rw [← candidates_nodes]
  generalize candidates ns name = is at some_of_mem
  induction is with
  | nil => rfl
  | cons i is ih =>
    obtain ⟨first, later⟩ := List.forall_mem_cons.mp some_of_mem
    obtain ⟨n, hn⟩ := Option.isSome_iff_exists.mp first
    rw [List.filterMap_cons, hn, List.length_cons, List.length_cons, ih later]

theorem declaredAgain_iff : DeclaredAgain ns name ↔ 1 < (declarations ns name).length := by
  rw [length_declarations]
  constructor
  · intro h
    obtain ⟨a, b, rest, found⟩ := candidates_of_again h
    rw [found, List.length_cons, List.length_cons]
    omega
  · intro h
    match found : candidates ns name with
    | [] => rw [found] at h; exact absurd h (by decide)
    | [_] => rw [found] at h; exact absurd h (by simp)
    | a :: b :: rest => exact declaredAgain_of_candidates found

theorem declaresAlone_iff :
    DeclaresAlone ns name i ↔ ∃ n, ns[i]? = some n ∧ declarations ns name = [n] := by
  constructor
  · intro h
    obtain ⟨n, hn, -⟩ := h.1
    refine ⟨n, hn, ?_⟩
    rw [← candidates_nodes, candidates_eq_singleton_iff.mpr h, List.filterMap_cons, hn]
    rfl
  · rintro ⟨n, hn, alone⟩
    have mem : n ∈ declarations ns name := by
      rw [alone]
      exact List.mem_singleton_self n
    have declares : Declares ns name i := ⟨n, hn, eq_of_beq (List.mem_filter.mp mem).2⟩
    have one := length_declarations ns name
    rw [alone] at one
    obtain ⟨k, found⟩ := List.length_eq_one_iff.mp one.symm
    have same : i = k := by
      have hi := mem_candidates.mpr declares
      rw [found] at hi
      exact List.mem_singleton.mp hi
    exact candidates_eq_singleton_iff.mp (same ▸ found)

/-- A name that one type has is not one that several have. -/
theorem DeclaresAlone.not_again (h : DeclaresAlone ns name i) : ¬ DeclaredAgain ns name := by
  rintro ⟨a, b, different, ha, hb⟩
  exact different ((h.2 a ha).trans (h.2 b hb).symm)

/-! ## 2. Descent -/

/-- The name descends from the built-in base by way of `names`, itself first; each of them is declared
    exactly once. -/
inductive Descends (ns : List Node) : String → List String → Prop
  | builtIn {name : String} {i : Nat} :
      DeclaresAlone ns name i → Names ns i behaviourBase → Descends ns name [name]
  | step {name base : String} {i : Nat} {names : List String} :
      DeclaresAlone ns name i → Names ns i base → base ≠ behaviourBase →
        Descends ns base names → Descends ns name (name :: names)

/-- The names of a chain, that of the type itself first. -/
def namesOf (ns : List Node) (chain : List Nat) : List String :=
  chain.reverse.filterMap fun j => (ns[j]?).map Node.name

theorem Declares.name_eq (h : Declares ns name i) : (ns[i]?).map Node.name = some name := by
  obtain ⟨n, hn, rfl⟩ := h
  rw [hn]
  rfl

theorem namesOf_cons (h : Declares ns name j) : namesOf ns (j :: chain) = namesOf ns chain ++ [name] := by
  rw [namesOf, List.reverse_cons, List.filterMap_append, List.filterMap_cons, h.name_eq]
  rfl

theorem namesOf_concat (h : Declares ns name i) : namesOf ns (chain ++ [i]) = name :: namesOf ns chain := by
  rw [namesOf, List.reverse_append, List.reverse_singleton, List.singleton_append, List.filterMap_cons,
    h.name_eq]
  rfl

/-- Every type that a trail has passed is alone of its name, if the first one is. -/
theorem Trail.alone (t : Trail ns i (j :: chain)) (first : DeclaresAlone ns name i) :
    ∃ name', DeclaresAlone ns name' j := by
  cases t with
  | start => exact ⟨name, first⟩
  | step _ up =>
    obtain ⟨base, -, -, alone⟩ := up
    exact ⟨base, alone⟩

/-- What the latest type of a trail descends by, the first one does with the names of the trail before. -/
theorem Trail.descends (t : Trail ns i (j :: chain)) (first : DeclaresAlone ns name i)
    {last : String} (latest : DeclaresAlone ns last j) (h : Descends ns last names) :
    Descends ns name (namesOf ns chain ++ names) := by
  generalize hc : j :: chain = c at t
  -- On the trail from its latest step back, so the names that are known grow in front.
  induction t generalizing j chain last names with
  | start =>
    obtain ⟨rfl, rfl⟩ := List.cons.inj hc
    obtain ⟨n, hn, rfl⟩ := first.1
    obtain ⟨n', hn', rfl⟩ := latest.1
    obtain rfl := Option.some.inj (hn.symm.trans hn')
    exact h
  | step t up ih =>
    obtain ⟨rfl, rfl⟩ := List.cons.inj hc
    obtain ⟨before, alone⟩ := t.alone first
    obtain ⟨base, named, notBuiltIn, target⟩ := up
    obtain ⟨n, hn, rfl⟩ := latest.1
    obtain ⟨n', hn', rfl⟩ := target.1
    obtain rfl := Option.some.inj (hn.symm.trans hn')
    rw [namesOf_cons alone.1, List.append_assoc]
    exact ih alone (.step alone named notBuiltIn h) rfl

theorem ReachesBuiltIn.descends (h : ReachesBuiltIn ns i chain) (alone : DeclaresAlone ns name i) :
    Descends ns name (namesOf ns chain) := by
  obtain ⟨j, rest, rfl, t, builtIn⟩ := h
  obtain ⟨last, latest⟩ := t.alone alone
  rw [namesOf_cons latest.1]
  exact t.descends alone latest (.builtIn latest builtIn)

/-- A trail may start one type earlier. -/
theorem Trail.before (t : Trail ns j chain) (up : Ascends ns i j) : Trail ns i (chain ++ [i]) := by
  induction t with
  | start => exact .step .start up
  | step _ further ih => exact .step ih further

theorem Descends.reaches (h : Descends ns name names) :
    ∃ i chain, DeclaresAlone ns name i ∧ ReachesBuiltIn ns i chain ∧ namesOf ns chain = names := by
  induction h with
  | @builtIn name i alone builtIn =>
    have itself : namesOf ns ([] ++ [i]) = [name] := namesOf_concat alone.1
    exact ⟨i, [i], alone, ⟨i, [], rfl, .start, builtIn⟩, itself⟩
  | @step name base i names alone named notBuiltIn h ih =>
    obtain ⟨j, chain, target, ⟨k, rest, rfl, t, builtIn⟩, rfl⟩ := ih
    have up : Ascends ns i j := ⟨base, named, notBuiltIn, target⟩
    exact ⟨i, k :: rest ++ [i], alone, ⟨k, rest ++ [i], rfl, t.before up, builtIn⟩,
      namesOf_concat alone.1⟩

/-! ## 3. What descent depends on -/

theorem Descends.alone (h : Descends ns name names) : ∃ i, DeclaresAlone ns name i := by
  cases h with
  | builtIn alone _ => exact ⟨_, alone⟩
  | step alone _ _ _ => exact ⟨_, alone⟩

theorem Descends.self_mem (h : Descends ns name names) : name ∈ names := by
  cases h with
  | builtIn _ _ => exact List.mem_singleton_self name
  | step _ _ _ _ => exact List.mem_cons_self

/-- Some declaration of the name names that base. -/
def Derives (ns : List Node) (name base : String) : Prop :=
  ∃ i, Declares ns name i ∧ Names ns i base ∧ base ≠ behaviourBase

/-- The bases of a name that descends descend, however far up. -/
theorem Descends.above (h : Descends ns name names) (up : ReflTransGen (Derives ns) name base) :
    ∃ names', Descends ns base names' := by
  induction up with
  | refl => exact ⟨names, h⟩
  | tail _ derives ih =>
    obtain ⟨names', h'⟩ := ih
    obtain ⟨i, declares, named, notBuiltIn⟩ := derives
    cases h' with
    | builtIn alone builtIn =>
      rw [alone.2 i declares] at named
      exact absurd (named.unique builtIn) notBuiltIn
    | step alone named' _ further =>
      rw [alone.2 i declares] at named
      exact ⟨_, named.unique named' ▸ further⟩

/-- What a declaration says of its type before its members: the base and whether it is abstract. -/
def headings (ns : List Node) (name : String) : List (Option String × Bool) :=
  (declarations ns name).map fun n => (n.decl.base.map (·.1), n.decl.isAbstract)

/-- Where a name is declared alike, it is declared alone alike. -/
theorem DeclaresAlone.transfer {ns' : List Node} (h : DeclaresAlone ns name i)
    (same : headings ns' name = headings ns name) :
    ∃ i', DeclaresAlone ns' name i' ∧ ∀ base, Names ns i base → Names ns' i' base := by
  obtain ⟨n, hn, alone⟩ := declaresAlone_iff.mp h
  rw [headings, headings, alone, List.map_singleton] at same
  obtain ⟨n', alone', agree⟩ := List.map_eq_singleton_iff.mp same
  have mem : n' ∈ ns' := List.mem_of_mem_filter (alone' ▸ List.mem_singleton_self n')
  obtain ⟨i', hn'⟩ := List.mem_iff_getElem?.mp mem
  refine ⟨i', declaresAlone_iff.mpr ⟨n', hn', alone'⟩, ?_⟩
  rintro base ⟨m, p, hm, named⟩
  obtain rfl := Option.some.inj (hn.symm.trans hm)
  have base' := (Prod.mk.inj agree).1
  rw [named] at base'
  obtain ⟨⟨base'', p'⟩, named', rfl⟩ := Option.map_eq_some_iff.mp base'
  exact ⟨n', p', hn', named'⟩

/-- Descent depends on the declarations of the names on the way and on no others. -/
theorem Descends.transfer {ns' : List Node} (h : Descends ns name names)
    (same : ∀ x ∈ names, headings ns' x = headings ns x) : Descends ns' name names := by
  induction h with
  | builtIn alone builtIn =>
    obtain ⟨i', alone', keeps⟩ := alone.transfer (same _ List.mem_cons_self)
    exact .builtIn alone' (keeps _ builtIn)
  | step alone named notBuiltIn _ ih =>
    obtain ⟨i', alone', keeps⟩ := alone.transfer (same _ List.mem_cons_self)
    exact .step alone' (keeps _ named) notBuiltIn (ih fun x hx => same x (List.mem_cons_of_mem _ hx))

end ScriptHost.Corpus
