import Mathlib.Data.List.Perm.Subperm
import Mathlib.Logic.Relation
import ScriptHost.Corpus.Ancestry

/-!
# Ascent — the walk from a type to its bases, step by step

A step leads from a type to the only type of the corpus that has the name of its base.  A type has at
most one step, so its walk is one sequence, and a trail is a beginning of it.  `walk_eq_iff` says where
the walk of the linker ends: at a type without a step, or before a type that the trail has passed.
-/

namespace ScriptHost.Corpus

open Relation (ReflTransGen TransGen)

/-! ## 1. Steps -/

/-- The type `i` has that name. -/
def Declares (ns : List Node) (name : String) (i : Nat) : Prop :=
  ∃ n, ns[i]? = some n ∧ n.name = name

/-- The type `i` is the only one of that name. -/
def DeclaresAlone (ns : List Node) (name : String) (i : Nat) : Prop :=
  Declares ns name i ∧ ∀ j, Declares ns name j → j = i

/-- Several types have that name. -/
def DeclaredAgain (ns : List Node) (name : String) : Prop :=
  ∃ i j, i ≠ j ∧ Declares ns name i ∧ Declares ns name j

/-- The type `i` names that base. -/
def Names (ns : List Node) (i : Nat) (base : String) : Prop :=
  ∃ n p, ns[i]? = some n ∧ n.decl.base = some (base, p)

/-- A step of a walk.  The built-in base is never looked up. -/
def Ascends (ns : List Node) (i j : Nat) : Prop :=
  ∃ base, Names ns i base ∧ base ≠ behaviourBase ∧ DeclaresAlone ns base j

variable {ns : List Node} {i j k fuel : Nat} {base : String} {chain : List Nat}

theorem Declares.lt_length {name : String} (h : Declares ns name i) : i < ns.length := by
  obtain ⟨n, hn, -⟩ := h
  exact (List.getElem?_eq_some_iff.mp hn).1

theorem Names.unique {base' : String} (h : Names ns i base) (h' : Names ns i base') :
    base = base' := by
  obtain ⟨n, p, hn, hb⟩ := h
  obtain ⟨n', p', hn', hb'⟩ := h'
  have same : n = n' := Option.some.inj (hn.symm.trans hn')
  subst same
  exact congrArg Prod.fst (Option.some.inj (hb.symm.trans hb'))

theorem Ascends.unique (h : Ascends ns i j) (h' : Ascends ns i k) : j = k := by
  obtain ⟨base, hb, -, hj⟩ := h
  obtain ⟨base', hb', -, hk⟩ := h'
  have same : base = base' := hb.unique hb'
  subst same
  exact hk.2 j hj.1

theorem Ascends.lt_length (h : Ascends ns i j) : j < ns.length := by
  obtain ⟨_, -, -, hj⟩ := h
  exact hj.1.lt_length

/-- A type has no step when its base is built in. -/
theorem Names.not_ascends_of_builtIn (h : Names ns i behaviourBase) : ¬ Ascends ns i j := by
  rintro ⟨base, hb, hne, -⟩
  exact hne (hb.unique h)

/-- A type has no step when its base is nowhere. -/
theorem Names.not_ascends_of_unknown (h : Names ns i base) (nowhere : ∀ k, ¬ Declares ns base k) :
    ¬ Ascends ns i j := by
  rintro ⟨base', hb, -, hj⟩
  rw [hb.unique h] at hj
  exact nowhere j hj.1

/-- A type has no step when its base is ambiguous. -/
theorem Names.not_ascends_of_again (h : Names ns i base) (again : DeclaredAgain ns base) :
    ¬ Ascends ns i j := by
  rintro ⟨base', hb, -, hj⟩
  rw [hb.unique h] at hj
  obtain ⟨a, b, hne, ha, hb⟩ := again
  exact hne ((hj.2 a ha).trans (hj.2 b hb).symm)

theorem not_ascends_of_root (h : ∀ base, ¬ Names ns i base) : ¬ Ascends ns i j := by
  rintro ⟨base, hb, -, -⟩
  exact h base hb

/-! ## 2. The steps as the linker takes them -/

theorem mem_candidates {name : String} : i ∈ candidates ns name ↔ Declares ns name i := by
  simp only [candidates, List.mem_filter, List.mem_range, Option.any_eq_true, beq_iff_eq]
  constructor
  · rintro ⟨-, h⟩
    exact h
  · intro h
    exact ⟨h.lt_length, h⟩

theorem candidates_nodup (ns : List Node) (name : String) : (candidates ns name).Nodup :=
  List.nodup_range.filter _

theorem candidates_eq_nil_iff {name : String} :
    candidates ns name = [] ↔ ∀ k, ¬ Declares ns name k := by
  rw [List.eq_nil_iff_forall_not_mem]
  exact forall_congr' fun k => not_congr mem_candidates

theorem candidates_eq_singleton_iff {name : String} :
    candidates ns name = [i] ↔ DeclaresAlone ns name i := by
  constructor
  · intro h
    refine ⟨mem_candidates.mp (by rw [h]; exact List.mem_singleton_self i), fun j hj => ?_⟩
    have hm := mem_candidates.mpr hj
    rw [h] at hm
    exact List.mem_singleton.mp hm
  · rintro ⟨hi, alone⟩
    have hm := mem_candidates.mpr hi
    have all : ∀ j ∈ candidates ns name, j = i := fun j hj => alone j (mem_candidates.mp hj)
    have hd := candidates_nodup ns name
    -- Two candidates would be the same type, and no candidate is listed twice.
    match hc : candidates ns name with
    | [] => rw [hc] at hm; exact absurd hm List.not_mem_nil
    | [a] => rw [all a (by rw [hc]; exact List.mem_singleton_self a)]
    | a :: b :: rest =>
      rw [hc] at all hd
      have hab : a = b := (all a (by simp)).trans (all b (by simp)).symm
      exact absurd hab (by simp only [List.nodup_cons, List.mem_cons, not_or] at hd; exact hd.1.1)

/-- What is found for a name is either nothing, one type, or a list of several. -/
theorem candidates_of_again {name : String} (h : DeclaredAgain ns name) :
    ∃ a b rest, candidates ns name = a :: b :: rest := by
  obtain ⟨i, j, hne, hi, hj⟩ := h
  match hc : candidates ns name with
  | [] => exact absurd hi (candidates_eq_nil_iff.mp hc i)
  | [a] =>
    have alone := (candidates_eq_singleton_iff.mp hc).2
    exact absurd ((alone i hi).trans (alone j hj).symm) hne
  | a :: b :: rest => exact ⟨a, b, rest, rfl⟩

theorem declaredAgain_of_candidates {name : String} {a b : Nat} {rest : List Nat}
    (h : candidates ns name = a :: b :: rest) : DeclaredAgain ns name := by
  have hd := candidates_nodup ns name
  rw [h] at hd
  have hne : a ≠ b := by
    simp only [List.nodup_cons, List.mem_cons, not_or] at hd
    exact hd.1.1
  exact ⟨a, b, hne, mem_candidates.mp (by simp [h]), mem_candidates.mp (by simp [h])⟩

theorem names_iff_base? : Names ns i base ↔ ∃ l, (ns[i]?).bind Node.base? = some (base, l) := by
  constructor
  · rintro ⟨n, p, hn, hb⟩
    exact ⟨.atPosition n.path p, by simp [hn, Node.base?, hb]⟩
  · rintro ⟨l, h⟩
    obtain ⟨n, hn, hb⟩ := Option.bind_eq_some_iff.mp h
    obtain ⟨⟨b, p⟩, hd, he⟩ := Option.map_eq_some_iff.mp hb
    obtain rfl : b = base := (Prod.mk.inj he).1
    exact ⟨n, p, hn, hd⟩

/-! ## 3. Trails -/

/-- A beginning of the walk of `i`, the latest type first. -/
inductive Trail (ns : List Node) (i : Nat) : List Nat → Prop
  | start : Trail ns i [i]
  | step {j k : Nat} {chain : List Nat} :
      Trail ns i (j :: chain) → Ascends ns j k → Trail ns i (k :: j :: chain)

namespace Trail

/-- Every type that a trail has passed leads on to its latest one. -/
theorem reaches_head (t : Trail ns i (j :: chain)) :
    ∀ x ∈ j :: chain, ReflTransGen (Ascends ns) x j := by
  generalize hc : j :: chain = c at t
  induction t generalizing j chain with
  | start =>
    obtain ⟨rfl, rfl⟩ := List.cons.inj hc
    intro x hx
    rw [List.mem_singleton.mp hx]
  | step t up ih =>
    obtain ⟨rfl, rfl⟩ := List.cons.inj hc
    intro x hx
    rcases List.mem_cons.mp hx with rfl | hx
    · exact ReflTransGen.refl
    · exact (ih rfl x hx).tail up

theorem start_mem (t : Trail ns i chain) : i ∈ chain := by
  induction t with
  | start => exact List.mem_singleton_self i
  | step _ _ ih => exact List.mem_cons_of_mem _ ih

theorem reaches (t : Trail ns i (j :: chain)) : ReflTransGen (Ascends ns) i j :=
  t.reaches_head i t.start_mem

/-- A trail of one type has not left it. -/
theorem eq_start (t : Trail ns i [j]) : j = i := by
  have h := t.start_mem
  exact (List.mem_singleton.mp h).symm

/-- What a trail has passed is a trail again, up to any of its types. -/
theorem drop (t : Trail ns i chain) (hk : k ∈ chain) :
    ∃ rest, Trail ns i (k :: rest) ∧ (k :: rest) <:+ chain := by
  induction t with
  | start =>
    rw [List.mem_singleton.mp hk]
    exact ⟨[], .start, List.suffix_rfl⟩
  | step t up ih =>
    rcases List.mem_cons.mp hk with rfl | hk
    · exact ⟨_, t.step up, List.suffix_rfl⟩
    · obtain ⟨rest, ht, hs⟩ := ih hk
      exact ⟨rest, ht, hs.trans (List.suffix_cons _ _)⟩

/-- A trail to each type that a walk reaches, without the rounds that lead back to where it was. -/
theorem exists_nodup (h : ReflTransGen (Ascends ns) i j) :
    ∃ chain, Trail ns i (j :: chain) ∧ (j :: chain).Nodup := by
  induction h with
  | refl => exact ⟨[], .start, by simp⟩
  | tail _ up ih =>
    rename_i j k _
    obtain ⟨chain, t, hd⟩ := ih
    -- A step back to a type that the trail has passed makes the trail up to it the shorter way.
    by_cases hk : k ∈ j :: chain
    · obtain ⟨rest, ht, hs⟩ := t.drop hk
      exact ⟨rest, ht, hd.sublist hs.sublist⟩
    · exact ⟨j :: chain, t.step up, List.nodup_cons.mpr ⟨hk, hd⟩⟩

/-- A trail that passes a type twice has gone round a cycle. -/
theorem exists_cycle_of_not_nodup (t : Trail ns i (j :: chain)) (hd : ¬ (j :: chain).Nodup) :
    ∃ x, TransGen (Ascends ns) x x ∧ ReflTransGen (Ascends ns) x j := by
  generalize hc : j :: chain = c at t hd
  induction t generalizing j chain with
  | start => simp at hd
  | step t up ih =>
    rename_i j' k' chain'
    obtain ⟨rfl, rfl⟩ := List.cons.inj hc
    -- Either this step is the one that comes back, or an earlier one was.
    by_cases hd' : (j' :: chain').Nodup
    · have hk : j ∈ j' :: chain' := by
        by_contra hk
        exact hd (List.nodup_cons.mpr ⟨hk, hd'⟩)
      exact ⟨j, TransGen.tail' (t.reaches_head j hk) up, ReflTransGen.refl⟩
    · obtain ⟨x, hx, hxj⟩ := ih rfl hd'
      exact ⟨x, hx, hxj.tail up⟩

theorem lt_length (t : Trail ns i chain) (hi : i < ns.length) : ∀ x ∈ chain, x < ns.length := by
  induction t with
  | start =>
    intro x hx
    rw [List.mem_singleton.mp hx]
    exact hi
  | step _ up ih =>
    intro x hx
    rcases List.mem_cons.mp hx with rfl | hx
    · exact up.lt_length
    · exact ih x hx

/-- A trail that passes no type twice is no longer than the corpus. -/
theorem length_le (t : Trail ns i chain) (hi : i < ns.length) (hd : chain.Nodup) :
    chain.length ≤ ns.length := by
  have hsub : chain ⊆ List.range ns.length := fun x hx => List.mem_range.mpr (t.lt_length hi x hx)
  have hle := (hd.subperm hsub).length_le
  rwa [List.length_range] at hle

end Trail

/-- From a type on a cycle every walk comes back. -/
theorem reaches_back (hc : TransGen (Ascends ns) i i) (h : ReflTransGen (Ascends ns) i j) :
    ReflTransGen (Ascends ns) j i := by
  induction h with
  | refl => exact ReflTransGen.refl
  | tail _ up ih =>
    -- The way back starts with the only step there is, so that the rest of it starts one step later.
    rcases ReflTransGen.cases_head ih with rfl | ⟨y, hy, rest⟩
    · obtain ⟨y, hy, rest⟩ := TransGen.head'_iff.mp hc
      rwa [up.unique hy]
    · rwa [up.unique hy]

/-- Every type that the walk from a cycle reaches has a step. -/
theorem exists_ascends_of_cycle (hc : TransGen (Ascends ns) i i)
    (h : ReflTransGen (Ascends ns) i j) : ∃ k, Ascends ns j k := by
  rcases ReflTransGen.cases_head (reaches_back hc h) with rfl | ⟨y, hy, -⟩
  · obtain ⟨y, hy, -⟩ := TransGen.head'_iff.mp hc
    exact ⟨y, hy⟩
  · exact ⟨y, hy⟩

/-- A trail to a type without a step passes no type twice. -/
theorem Trail.nodup (t : Trail ns i (j :: chain)) (halts : ∀ k, ¬ Ascends ns j k) :
    (j :: chain).Nodup := by
  by_contra hd
  obtain ⟨x, hx, hxj⟩ := t.exists_cycle_of_not_nodup hd
  obtain ⟨k, hk⟩ := exists_ascends_of_cycle hx hxj
  exact halts k hk

/-! ## 4. The walk of the linker -/

/-- How the walk of `i` ends, said by its trail and by what its last type names. -/
inductive Ending (ns : List Node) (i : Nat) : Walk → Prop
  | behaviour {j : Nat} {chain : List Nat} :
      Trail ns i (j :: chain) → Names ns j behaviourBase → Ending ns i (.behaviour (j :: chain))
  | plain {j : Nat} {chain : List Nat} :
      Trail ns i (j :: chain) → (∀ base, ¬ Names ns j base) → Ending ns i (.plain (j :: chain))
  | unknown {j : Nat} {chain : List Nat} {base : String} :
      Trail ns i (j :: chain) → Names ns j base → base ≠ behaviourBase →
        (∀ k, ¬ Declares ns base k) → Ending ns i (.unknown (j :: chain) base)
  | ambiguous {j : Nat} {chain : List Nat} {base : String} :
      Trail ns i (j :: chain) → Names ns j base → base ≠ behaviourBase → DeclaredAgain ns base →
        Ending ns i (.ambiguous (j :: chain) base (candidates ns base))
  | cycle {j again : Nat} {chain : List Nat} :
      Trail ns i (j :: chain) → (j :: chain).Nodup → Ascends ns j again → again ∈ j :: chain →
        Ending ns i (.cycle (j :: chain) again)

theorem walkFrom_of_builtIn (h : Names ns j behaviourBase) :
    walkFrom ns (fuel + 1) j chain = .behaviour chain := by
  obtain ⟨l, hb⟩ := names_iff_base?.mp h
  simp [walkFrom, hb]

theorem walkFrom_of_root (h : ∀ base, ¬ Names ns j base) :
    walkFrom ns (fuel + 1) j chain = .plain chain := by
  have hb : (ns[j]?).bind Node.base? = none := by
    rw [Option.eq_none_iff_forall_ne_some]
    rintro ⟨base, l⟩ hb
    exact h base (names_iff_base?.mpr ⟨l, hb⟩)
  simp [walkFrom, hb]

theorem walkFrom_of_unknown (h : Names ns j base) (hne : base ≠ behaviourBase)
    (nowhere : ∀ k, ¬ Declares ns base k) :
    walkFrom ns (fuel + 1) j chain = .unknown chain base := by
  obtain ⟨l, hb⟩ := names_iff_base?.mp h
  simp [walkFrom, hb, hne, candidates_eq_nil_iff.mpr nowhere]

theorem walkFrom_of_again (h : Names ns j base) (hne : base ≠ behaviourBase)
    (again : DeclaredAgain ns base) :
    walkFrom ns (fuel + 1) j chain = .ambiguous chain base (candidates ns base) := by
  obtain ⟨l, hb⟩ := names_iff_base?.mp h
  obtain ⟨a, b, rest, hc⟩ := candidates_of_again again
  simp [walkFrom, hb, hne, hc]

theorem walkFrom_of_ascends (h : Ascends ns j k) :
    walkFrom ns (fuel + 1) j chain =
      if chain.contains k then .cycle chain k else walkFrom ns fuel k (k :: chain) := by
  obtain ⟨base, hn, hne, hk⟩ := h
  obtain ⟨l, hb⟩ := names_iff_base?.mp hn
  simp [walkFrom, hb, hne, candidates_eq_singleton_iff.mpr hk]

/-- What a type names, by what becomes of the name. -/
theorem ascent_cases (ns : List Node) (j : Nat) :
    (∀ base, ¬ Names ns j base) ∨ Names ns j behaviourBase ∨
      (∃ base, Names ns j base ∧ base ≠ behaviourBase ∧ ∀ k, ¬ Declares ns base k) ∨
      (∃ base, Names ns j base ∧ base ≠ behaviourBase ∧ DeclaredAgain ns base) ∨
      ∃ k, Ascends ns j k := by
  by_cases root : ∃ base, Names ns j base
  · obtain ⟨base, hb⟩ := root
    by_cases hne : base = behaviourBase
    · exact .inr (.inl (hne ▸ hb))
    · match hc : candidates ns base with
      | [] => exact .inr (.inr (.inl ⟨base, hb, hne, candidates_eq_nil_iff.mp hc⟩))
      | [k] =>
        have alone := candidates_eq_singleton_iff.mp hc
        exact .inr (.inr (.inr (.inr ⟨k, base, hb, hne, alone⟩)))
      | a :: b :: rest =>
        exact .inr (.inr (.inr (.inl ⟨base, hb, hne, declaredAgain_of_candidates hc⟩)))
  · exact .inl fun base hb => root ⟨base, hb⟩

/-- The walk goes on from a trail as the types name their bases.  The bound on the steps is not met:
    a trail that passes no type twice is no longer than the corpus. -/
theorem ending_walkFrom (hi : i < ns.length) (t : Trail ns i (j :: chain))
    (hd : (j :: chain).Nodup) (enough : ns.length < fuel + (j :: chain).length) :
    Ending ns i (walkFrom ns fuel j (j :: chain)) := by
  -- On the fuel, for every trail: each step of the walk makes the trail longer by one.
  induction fuel generalizing j chain with
  | zero =>
    have hle := t.length_le hi hd
    omega
  | succ fuel ih =>
    rcases ascent_cases ns j with root | builtIn | ⟨base, hb, hne, nowhere⟩ |
      ⟨base, hb, hne, again⟩ | ⟨k, up⟩
    · rw [walkFrom_of_root root]
      exact .plain t root
    · rw [walkFrom_of_builtIn builtIn]
      exact .behaviour t builtIn
    · rw [walkFrom_of_unknown hb hne nowhere]
      exact .unknown t hb hne nowhere
    · rw [walkFrom_of_again hb hne again]
      exact .ambiguous t hb hne again
    · rw [walkFrom_of_ascends up]
      by_cases hk : k ∈ j :: chain
      · rw [if_pos (List.contains_iff_mem.mpr hk)]
        exact .cycle t hd up hk
      · rw [if_neg (by simpa using hk)]
        refine ih (t.step up) (List.nodup_cons.mpr ⟨hk, hd⟩) ?_
        simp only [List.length_cons] at enough ⊢
        omega

/-- The walk takes the steps of every trail that passes no type twice. -/
theorem walkFrom_trail (t : Trail ns i (j :: chain)) (hd : (j :: chain).Nodup) :
    walkFrom ns (fuel + chain.length) i [i] = walkFrom ns fuel j (j :: chain) := by
  -- On the trail, for any fuel: the fuel that the last step takes is left over by those before it.
  generalize hc : j :: chain = c at t hd ⊢
  induction t generalizing j chain fuel with
  | start =>
    obtain ⟨rfl, rfl⟩ := List.cons.inj hc
    rfl
  | step t up ih =>
    rename_i j' k chain'
    obtain ⟨rfl, rfl⟩ := List.cons.inj hc
    obtain ⟨hk, hd'⟩ := List.nodup_cons.mp hd
    have hlen : fuel + (j' :: chain').length = fuel + 1 + chain'.length := by
      rw [List.length_cons]
      omega
    rw [hlen, ih rfl hd', walkFrom_of_ascends up, if_neg (by simpa using hk)]

/-- Where a trail ends the walk ends, with that trail. -/
theorem walk_trail (hi : i < ns.length) (t : Trail ns i (j :: chain)) (hd : (j :: chain).Nodup) :
    ∃ fuel, walk ns i = walkFrom ns (fuel + 1) j (j :: chain) := by
  have hle := t.length_le hi hd
  rw [List.length_cons] at hle
  refine ⟨ns.length - chain.length, ?_⟩
  rw [← walkFrom_trail t hd, walk]
  congr 1
  omega

theorem walk_of_ending {w : Walk} (hi : i < ns.length) (h : Ending ns i w) : walk ns i = w := by
  cases h with
  | behaviour t builtIn =>
    obtain ⟨fuel, hw⟩ := walk_trail hi t (t.nodup fun _ => builtIn.not_ascends_of_builtIn)
    rw [hw, walkFrom_of_builtIn builtIn]
  | plain t root =>
    obtain ⟨fuel, hw⟩ := walk_trail hi t (t.nodup fun _ => not_ascends_of_root root)
    rw [hw, walkFrom_of_root root]
  | unknown t hb hne nowhere =>
    obtain ⟨fuel, hw⟩ := walk_trail hi t (t.nodup fun _ => hb.not_ascends_of_unknown nowhere)
    rw [hw, walkFrom_of_unknown hb hne nowhere]
  | ambiguous t hb hne again =>
    obtain ⟨fuel, hw⟩ := walk_trail hi t (t.nodup fun _ => hb.not_ascends_of_again again)
    rw [hw, walkFrom_of_again hb hne again]
  | cycle t hd up hk =>
    obtain ⟨fuel, hw⟩ := walk_trail hi t hd
    rw [hw, walkFrom_of_ascends up, if_pos (List.contains_iff_mem.mpr hk)]

theorem ending_walk (hi : i < ns.length) : Ending ns i (walk ns i) :=
  ending_walkFrom hi .start (by simp) (by rw [List.length_singleton]; omega)

/-- The walk of the linker ends as the steps from type to type do. -/
theorem walk_eq_iff {w : Walk} (hi : i < ns.length) : walk ns i = w ↔ Ending ns i w := by
  constructor
  · rintro rfl
    exact ending_walk hi
  · exact walk_of_ending hi

/-- More steps than there are types make no difference. -/
theorem walkFrom_eq_walk (hi : i < ns.length) (enough : ns.length < fuel) :
    walkFrom ns fuel i [i] = walk ns i := by
  have h : Ending ns i (walkFrom ns fuel i [i]) :=
    ending_walkFrom hi .start (by simp) (by rw [List.length_singleton]; omega)
  exact (walk_of_ending hi h).symm

end ScriptHost.Corpus
