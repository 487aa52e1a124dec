import Mathlib.Data.List.Induction
import Mathlib.Data.List.Nodup
import ScriptHost.Proofs.Corpus.Program
import ScriptHost.Proofs.Corpus.Resolution

/-!
# Hooks — which hooks a type has

The hooks of a type are collected in two ways: those of its own methods while they are checked, and those of
its bases without a word about them.  Where the checks find nothing wrong both come to the same: a type has the
hooks that the methods of its chain serve.
-/

namespace ScriptHost.Corpus

open Declaration (FnDecl TypeDecl)

variable {ns : List Node} {n : Node} {r : Resolved} {h : Hook} {i : Nat}

/-- A method goes by the name of a hook and takes its parameters. -/
structure Serves (f : FnDecl) (h : Hook) : Prop where
  name : f.name = h.name
  count : f.params.length = h.arity

/-! ## 1. Sets of hooks -/

theorem contains_union {s t : HookSet} :
    (s.union t).contains h = true ↔ s.contains h = true ∨ t.contains h = true :=
  Bool.or_eq_true_iff

theorem contains_insert {s : HookSet} {k : Hook} :
    (s.insert h).contains k = true ↔ s.contains k = true ∨ k = h :=
  contains_union.trans (or_congr_right beq_iff_eq)

theorem contains_foldl_insert {hs : List Hook} {s : HookSet} :
    (hs.foldl HookSet.insert s).contains h = true ↔ s.contains h = true ∨ h ∈ hs := by
  induction hs generalizing s with
  | nil => simp
  | cons k hs ih => rw [List.foldl_cons, ih, contains_insert, List.mem_cons, or_assoc]

/-- The hooks that the bases in a list add. -/
def inherit (ns : List Node) (hooks : HookSet) (bases : List Nat) : HookSet :=
  bases.foldl (fun hs j =>
    match ns[j]? with
    | some b => hs.union (declaredHooks b.decl)
    | none => hs) hooks

theorem contains_inherit {s : HookSet} {bases : List Nat} : (inherit ns s bases).contains h = true ↔
    s.contains h = true ∨ ∃ j ∈ bases, ∃ b, ns[j]? = some b ∧ (declaredHooks b.decl).contains h = true := by
  induction bases generalizing s with
  | nil => simp [inherit]
  | cons j bases ih =>
    show (inherit ns (match ns[j]? with
      | some b => s.union (declaredHooks b.decl)
      | none => s) bases).contains h = true ↔ _
    rw [ih]
    cases hb : ns[j]? with
    | none => simp [hb]
    | some b => simp [hb, contains_union, or_assoc]

/-! ## 2. The hooks of a type's own methods -/

theorem hookOf?_eq_some {f : FnDecl} : hookOf? f = some h ↔ f.name = h.name := by
  rw [hookOf?, Hook.ofName?]
  constructor
  · intro named
    have same := List.find?_some named
    exact (eq_of_beq same).symm
  · intro named
    rw [named]
    cases h <;> decide

theorem servedHook?_eq_some {f : FnDecl} : servedHook? f = some h ↔ Serves f h := by
  rw [servedHook?, Option.filter_eq_some_iff, hookOf?_eq_some, beq_iff_eq]
  exact ⟨fun ⟨name, count⟩ => ⟨name, count.symm⟩, fun serves => ⟨serves.name, serves.count.symm⟩⟩

theorem contains_declaredHooks {t : TypeDecl} :
    (declaredHooks t).contains h = true ↔ ∃ f ∈ t.methods, Serves f h := by
  rw [declaredHooks, contains_foldl_insert, List.mem_filterMap]
  constructor
  · rintro (none | ⟨f, hf, served⟩)
    · exact absurd none Bool.false_ne_true
    · exact ⟨f, hf, servedHook?_eq_some.mp served⟩
  · rintro ⟨f, hf, serves⟩
    exact .inr ⟨f, hf, servedHook?_eq_some.mpr serves⟩

/-- The methods checked so far: their names, the hooks among them, and what was found. -/
abbrev Checked := List String × HookSet × List Diagnostic

/-- Checks one method more. -/
def checkMethod (n : Node) (c : Checked) (f : FnDecl) : Checked :=
  let place := Location.atPosition n.path f.position
  if c.1.contains f.name then (c.1, c.2.1, c.2.2 ++ [⟨.duplicateMethod f.name n.name, place⟩])
  else
    match hookOf? f with
    | none => (f.name :: c.1, c.2.1, c.2.2)
    | some h =>
      if f.params.length == h.arity then (f.name :: c.1, c.2.1.insert h, c.2.2)
      else (f.name :: c.1, c.2.1, c.2.2 ++ [⟨.hookSignature h f.params.length, place⟩])

theorem checkMethods_eq (n : Node) :
    checkMethods n = (n.decl.methods.foldl (checkMethod n) ([], .empty, [])).2 := rfl

/-- A method that is checked without an error is new by name, and adds the hook that it serves. -/
theorem checkMethod_of_passes {c : Checked} {f : FnDecl}
    (passed : Diagnostic.passes (checkMethod n c f).2.2 = true) :
    Diagnostic.passes c.2.2 = true ∧ f.name ∉ c.1 ∧ (checkMethod n c f).1 = f.name :: c.1 ∧
      ∀ h, (checkMethod n c f).2.1.contains h = true ↔ c.2.1.contains h = true ∨ Serves f h := by
  -- A finding stays one whatever else was found, and each of the two there can be is an error.
  have failed {found : List Diagnostic} {d : Diagnostic} (hd : d.isError = true) :
      ¬ Diagnostic.passes (found ++ [d]) = true := by
    rw [Diagnostic.passes_append, Diagnostic.passes_singleton, hd, Bool.not_true, Bool.and_false]
    exact Bool.false_ne_true
  unfold checkMethod at passed ⊢
  by_cases again : c.1.contains f.name = true
  · rw [if_pos again] at passed
    exact absurd passed (failed rfl)
  · rw [if_neg again] at passed ⊢
    have fresh : f.name ∉ c.1 := fun mem => again (List.contains_iff_mem.mpr mem)
    cases named : hookOf? f with
    | none =>
      rw [named] at passed
      refine ⟨passed, fresh, rfl, fun h => (or_iff_left fun serves => ?_).symm⟩
      exact nomatch named.symm.trans (hookOf?_eq_some.mpr serves.name)
    | some k =>
      rw [named] at passed
      by_cases count : (f.params.length == k.arity) = true
      · simp only [if_pos count] at passed ⊢
        refine ⟨passed, fresh, trivial, fun h => contains_insert.trans (or_congr_right ⟨?_, ?_⟩)⟩
        · rintro rfl
          exact ⟨hookOf?_eq_some.mp named, eq_of_beq count⟩
        · intro serves
          exact Option.some.inj ((hookOf?_eq_some.mpr serves.name).symm.trans named)
      · simp only [if_neg count] at passed
        exact absurd passed (failed rfl)

/-- Methods that were checked without a finding: their names differ, and the hooks are those they serve. -/
structure WellChecked (fs : List FnDecl) (c : Checked) : Prop where
  seen : c.1 = (fs.map (·.name)).reverse
  distinct : (fs.map (·.name)).Nodup
  hooks : ∀ h, c.2.1.contains h = true ↔ ∃ f ∈ fs, Serves f h

theorem wellChecked_foldl (fs : List FnDecl)
    (passed : Diagnostic.passes (fs.foldl (checkMethod n) ([], .empty, [])).2.2 = true) :
    WellChecked fs (fs.foldl (checkMethod n) ([], .empty, [])) := by
  induction fs using List.reverseRecOn with
  | nil =>
    refine ⟨rfl, List.nodup_nil, fun h => ⟨fun none => absurd none Bool.false_ne_true, ?_⟩⟩
    exact fun ⟨_, hf, _⟩ => absurd hf List.not_mem_nil
  | append_singleton fs f ih =>
    rw [List.foldl_append, List.foldl_cons, List.foldl_nil] at passed ⊢
    obtain ⟨before, fresh, names, more⟩ := checkMethod_of_passes passed
    obtain ⟨seen, distinct, hooks⟩ := ih before
    rw [seen, List.mem_reverse] at fresh
    constructor
    · rw [names, seen, List.map_append, List.reverse_append]
      rfl
    · rw [List.map_append, List.map_singleton]
      exact List.concat_eq_append ▸ distinct.concat fresh
    · intro h
      rw [more, hooks]
      simp only [List.mem_append, List.mem_singleton, or_and_right, exists_or, exists_eq_left]

theorem wellChecked_of_passes (passed : Diagnostic.passes (checkMethods n).2 = true) :
    (n.decl.methods.map (·.name)).Nodup ∧
      ∀ h, (checkMethods n).1.contains h = true ↔ ∃ f ∈ n.decl.methods, Serves f h := by
  rw [checkMethods_eq] at passed ⊢
  have checked := wellChecked_foldl n.decl.methods passed
  exact ⟨checked.distinct, checked.hooks⟩

/-! ## 3. The hooks of a chain -/

theorem hooks_resolvedAt (ns : List Node) (i : Nat) (n : Node) :
    (resolvedAt ns i n).type.hooks =
      inherit ns (if (walk ns i).ancestry.isBehaviour then (checkMethods n).1 else .empty)
        ((resolvedAt ns i n).chain.filter (· != i)) := by
  show inherit ns (if (walk ns i).ancestry.isBehaviour then checkMethods n else (HookSet.empty, [])).1 _ = _
  split <;> rfl

theorem chain_resolvedAt (ns : List Node) (i : Nat) (n : Node) :
    (resolvedAt ns i n).chain = (walk ns i).ancestry.chain i := rfl

/-- Where nothing is found about its methods, a behaviour type has the hooks that the methods of its chain
    serve. -/
theorem contains_hooks_iff {chain : List Nat} (there : ns[i]? = some n) (reaches : ReachesBuiltIn ns i chain)
    (passed : Diagnostic.passes (checkMethods n).2 = true) :
    (resolvedAt ns i n).type.hooks.contains h = true ↔
      ∃ j ∈ chain, ∃ b, ns[j]? = some b ∧ ∃ f ∈ b.decl.methods, Serves f h := by
  have inside : i < ns.length := (List.getElem?_eq_some_iff.mp there).1
  have ha := (ancestry_behaviour_iff inside).mpr reaches
  obtain ⟨-, own⟩ := wellChecked_of_passes passed
  rw [hooks_resolvedAt, chain_resolvedAt, ha, contains_inherit]
  constructor
  · rintro (checked | ⟨j, hj, b, base, declared⟩)
    · obtain ⟨-, -, -, trail, -⟩ := reaches
      exact ⟨i, trail.start_mem, n, there, (own h).mp checked⟩
    · exact ⟨j, (List.mem_filter.mp hj).1, b, base, contains_declaredHooks.mp declared⟩
  · rintro ⟨j, hj, b, base, serving⟩
    by_cases self : j = i
    · rw [self, there] at base
      obtain rfl := Option.some.inj base
      exact .inl ((own h).mpr serving)
    · exact .inr ⟨j, List.mem_filter.mpr ⟨hj, by simpa using self⟩, b, base,
        contains_declaredHooks.mpr serving⟩

end ScriptHost.Corpus
