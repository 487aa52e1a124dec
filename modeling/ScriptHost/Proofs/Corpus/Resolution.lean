import ScriptHost.Proofs.Compiler.Gate
import ScriptHost.Proofs.Corpus.Ascent
import ScriptHost.Proofs.Corpus.Findings

/-!
# Resolution — what becomes of the bases of every type

A type descends from the built-in base or from a type without a base exactly where its walk leads
there.  Of the other types each one is to blame itself, or is warned about, or lies below one that is to
blame; so in a corpus without errors they are all warned about.
-/

namespace ScriptHost.Corpus

open Relation (ReflTransGen TransGen)

variable {ns : List Node} {i : Nat} {chain : List Nat}

/-! ## 1. Where a walk can lead -/

/-- The walk of `i` reaches the built-in base by way of `chain`, the latest type first. -/
def ReachesBuiltIn (ns : List Node) (i : Nat) (chain : List Nat) : Prop :=
  ∃ j rest, chain = j :: rest ∧ Trail ns i chain ∧ Names ns j behaviourBase

/-- The walk of `i` reaches a type without a base by way of `chain`, the latest type first. -/
def ReachesRoot (ns : List Node) (i : Nat) (chain : List Nat) : Prop :=
  ∃ j rest, chain = j :: rest ∧ Trail ns i chain ∧ ∀ base, ¬ Names ns j base

/-- The base that the type itself names is nowhere. -/
def LacksBase (ns : List Node) (i : Nat) : Prop :=
  ∃ base, Names ns i base ∧ base ≠ behaviourBase ∧ ∀ k, ¬ Declares ns base k

/-- The walk of the type leads back to it. -/
def OnCycle (ns : List Node) (i : Nat) : Prop := TransGen (Ascends ns) i i

/-- The walk of the type meets a name that several types have. -/
def MeetsAmbiguity (ns : List Node) (i : Nat) : Prop :=
  ∃ j base, ReflTransGen (Ascends ns) i j ∧ Names ns j base ∧ base ≠ behaviourBase ∧
    DeclaredAgain ns base

theorem ReachesBuiltIn.ending (h : ReachesBuiltIn ns i chain) : Ending ns i (.behaviour chain) := by
  obtain ⟨j, rest, rfl, t, builtIn⟩ := h
  exact .behaviour t builtIn

theorem ReachesRoot.ending (h : ReachesRoot ns i chain) : Ending ns i (.plain chain) := by
  obtain ⟨j, rest, rfl, t, root⟩ := h
  exact .plain t root

/-- No type comes twice on the way to the built-in base. -/
theorem ReachesBuiltIn.nodup (h : ReachesBuiltIn ns i chain) : chain.Nodup := by
  obtain ⟨j, rest, rfl, t, builtIn⟩ := h
  exact t.nodup fun _ => builtIn.not_ascends_of_builtIn

/-- No type comes twice on the way to a type without a base. -/
theorem ReachesRoot.nodup (h : ReachesRoot ns i chain) : chain.Nodup := by
  obtain ⟨j, rest, rfl, t, root⟩ := h
  exact t.nodup fun _ => not_ascends_of_root root

/-! ## 2. What a type descends from -/

theorem ancestry_behaviour_iff (hi : i < ns.length) :
    (walk ns i).ancestry = .behaviour chain ↔ ReachesBuiltIn ns i chain := by
  constructor
  · intro h
    have e := ending_walk hi
    generalize walk ns i = w at e h
    cases e with
    | behaviour t builtIn =>
      obtain rfl := Ancestry.behaviour.inj h
      exact ⟨_, _, rfl, t, builtIn⟩
    | plain | unknown | ambiguous | cycle => exact absurd h (by simp [Walk.ancestry])
  · intro h
    rw [(walk_eq_iff hi).mpr h.ending]
    rfl

theorem ancestry_plain_iff (hi : i < ns.length) :
    (walk ns i).ancestry = .plain chain ↔ ReachesRoot ns i chain := by
  constructor
  · intro h
    have e := ending_walk hi
    generalize walk ns i = w at e h
    cases e with
    | plain t root =>
      obtain rfl := Ancestry.plain.inj h
      exact ⟨_, _, rfl, t, root⟩
    | behaviour | unknown | ambiguous | cycle => exact absurd h (by simp [Walk.ancestry])
  · intro h
    rw [(walk_eq_iff hi).mpr h.ending]
    rfl

theorem ancestry_broken_iff (hi : i < ns.length) :
    (walk ns i).ancestry = .broken ↔
      ∀ chain, ¬ ReachesBuiltIn ns i chain ∧ ¬ ReachesRoot ns i chain := by
  constructor
  · intro h chain
    constructor
    · intro hb
      rw [(ancestry_behaviour_iff hi).mpr hb] at h
      exact absurd h (by simp)
    · intro hr
      rw [(ancestry_plain_iff hi).mpr hr] at h
      exact absurd h (by simp)
  · intro h
    cases ha : (walk ns i).ancestry with
    | behaviour chain => exact absurd ((ancestry_behaviour_iff hi).mp ha) (h chain).1
    | plain chain => exact absurd ((ancestry_plain_iff hi).mp ha) (h chain).2
    | broken => rfl

/-! ## 3. What is said about a type -/

/-- The codes of what a walk says of the type that it starts from. -/
def Walk.codes (i : Nat) : Walk → List Code
  | .unknown chain _ => if chain = [i] then [.unknownBaseType] else []
  | .ambiguous .. => [.ambiguousBaseType]
  | .cycle _ again => if again = i then [.inheritanceCycle] else []
  | .behaviour _ | .plain _ => []

theorem Walk.codes_findings (hi : i < ns.length) (w : Walk) :
    (w.findings ns i).map (·.code) = w.codes i := by
  rw [Walk.findings, List.getElem?_eq_getElem hi]
  cases w with
  | behaviour | plain => rfl
  | unknown chain base =>
    by_cases hc : chain = [i]
    · simp only [Walk.codes, hc, beq_self_eq_true, if_true]
      rfl
    · simp only [Walk.codes, beq_iff_eq, hc, if_false, List.map_nil]
  | ambiguous chain base found => rfl
  | cycle chain again =>
    by_cases ha : again = i
    · simp only [Walk.codes, ha, beq_self_eq_true, if_true]
      rfl
    · simp only [Walk.codes, beq_iff_eq, ha, if_false, List.map_nil]

/-- A walk has at most one thing to say. -/
theorem Walk.codes_cases (i : Nat) (w : Walk) :
    w.codes i = [] ∨ w.codes i = [.unknownBaseType] ∨ w.codes i = [.inheritanceCycle] ∨
      w.codes i = [.ambiguousBaseType] := by
  cases w with
  | behaviour | plain => exact .inl rfl
  | unknown chain base =>
    by_cases hc : chain = [i]
    · exact .inr (.inl (if_pos hc))
    · exact .inl (if_neg hc)
  | ambiguous chain base found => exact .inr (.inr (.inr rfl))
  | cycle chain again =>
    by_cases ha : again = i
    · exact .inr (.inr (.inl (if_pos ha)))
    · exact .inl (if_neg ha)

/-- Each code is said of one kind of walk only. -/
theorem Walk.eq_of_codes (w : Walk) :
    (w.codes i = [.unknownBaseType] → ∃ base, w = .unknown [i] base) ∧
      (w.codes i = [.inheritanceCycle] → ∃ chain, w = .cycle chain i) ∧
      (w.codes i = [.ambiguousBaseType] → ∃ chain base found, w = .ambiguous chain base found) := by
  cases w with
  | behaviour | plain => simp [Walk.codes]
  | unknown chain base =>
    by_cases hc : chain = [i]
    · simp [Walk.codes, hc]
    · simp [Walk.codes, hc]
  | ambiguous chain base found => simp [Walk.codes]
  | cycle chain again =>
    by_cases ha : again = i
    · simp [Walk.codes, ha]
    · simp [Walk.codes, ha]

/-- A missing base is reported with the type that names it, not with those below. -/
theorem codes_unknown_iff (hi : i < ns.length) :
    (walk ns i).codes i = [.unknownBaseType] ↔ LacksBase ns i := by
  constructor
  · intro h
    obtain ⟨base, hw⟩ := (Walk.eq_of_codes _).1 h
    have e := ending_walk hi
    rw [hw] at e
    cases e with
    | unknown t hb hne nowhere => exact ⟨base, t.eq_start ▸ hb, hne, nowhere⟩
  · rintro ⟨base, hb, hne, nowhere⟩
    rw [(walk_eq_iff hi).mpr (.unknown .start hb hne nowhere)]
    exact if_pos rfl

/-- A cycle is reported with the types that lie on it, not with those that lead into it. -/
theorem codes_cycle_iff (hi : i < ns.length) :
    (walk ns i).codes i = [.inheritanceCycle] ↔ OnCycle ns i := by
  constructor
  · intro h
    obtain ⟨chain, hw⟩ := (Walk.eq_of_codes _).2.1 h
    have e := ending_walk hi
    rw [hw] at e
    cases e with
    | cycle t hd up hk => exact TransGen.tail' t.reaches up
  · intro h
    -- The last type before the walk is back: the shortest way to it is a trail that the walk follows.
    obtain ⟨j, hj, up⟩ := TransGen.tail'_iff.mp h
    obtain ⟨chain, t, hd⟩ := Trail.exists_nodup hj
    rw [(walk_eq_iff hi).mpr (.cycle t hd up t.start_mem)]
    exact if_pos rfl

/-- An ambiguous base is reported with every type whose walk meets it. -/
theorem codes_ambiguous_iff (hi : i < ns.length) :
    (walk ns i).codes i = [.ambiguousBaseType] ↔ MeetsAmbiguity ns i := by
  constructor
  · intro h
    obtain ⟨chain, base, found, hw⟩ := (Walk.eq_of_codes _).2.2 h
    have e := ending_walk hi
    rw [hw] at e
    cases e with
    | ambiguous t hb hne again => exact ⟨_, base, t.reaches, hb, hne, again⟩
  · rintro ⟨j, base, hj, hb, hne, again⟩
    obtain ⟨chain, t, -⟩ := Trail.exists_nodup hj
    rw [(walk_eq_iff hi).mpr (.ambiguous t hb hne again)]
    rfl

/-! ## 4. Every type of every corpus -/

/-- What holds of the resolution of a type. -/
structure Resolves (ns : List Node) (i : Nat) : Prop where
  /-- The walk ends by itself: more steps would not change it. -/
  halts : ∀ fuel, ns.length < fuel → walkFrom ns fuel i [i] = walk ns i
  ends : Ending ns i (walk ns i)
  behaviour_iff : ∀ chain, (walk ns i).ancestry = .behaviour chain ↔ ReachesBuiltIn ns i chain
  plain_iff : ∀ chain, (walk ns i).ancestry = .plain chain ↔ ReachesRoot ns i chain
  broken_iff : (walk ns i).ancestry = .broken ↔
    ∀ chain, ¬ ReachesBuiltIn ns i chain ∧ ¬ ReachesRoot ns i chain
  nodup : ∀ chain, ReachesBuiltIn ns i chain ∨ ReachesRoot ns i chain → chain.Nodup
  /-- There is at most one finding about the bases of the type. -/
  codes : ((walk ns i).findings ns i).map (·.code) ∈
    [[], [Code.unknownBaseType], [Code.inheritanceCycle], [Code.ambiguousBaseType]]
  unknown_iff : ((walk ns i).findings ns i).map (·.code) = [.unknownBaseType] ↔ LacksBase ns i
  cycle_iff : ((walk ns i).findings ns i).map (·.code) = [.inheritanceCycle] ↔ OnCycle ns i
  ambiguous_iff :
    ((walk ns i).findings ns i).map (·.code) = [.ambiguousBaseType] ↔ MeetsAmbiguity ns i

theorem resolves (hi : i < ns.length) : Resolves ns i where
  halts := fun _ => walkFrom_eq_walk hi
  ends := ending_walk hi
  behaviour_iff := fun _ => ancestry_behaviour_iff hi
  plain_iff := fun _ => ancestry_plain_iff hi
  broken_iff := ancestry_broken_iff hi
  nodup := fun _ h => h.elim ReachesBuiltIn.nodup ReachesRoot.nodup
  codes := by
    rw [Walk.codes_findings hi]
    simpa using (walk ns i).codes_cases i
  unknown_iff := by
    rw [Walk.codes_findings hi]
    exact codes_unknown_iff hi
  cycle_iff := by
    rw [Walk.codes_findings hi]
    exact codes_cycle_iff hi
  ambiguous_iff := by
    rw [Walk.codes_findings hi]
    exact codes_ambiguous_iff hi

/-! ## 5. Corpora without errors -/

/-- Where a type descends from nothing, it or one further up is reported. -/
theorem broken_cases (hi : i < ns.length) (h : (walk ns i).ancestry = .broken) :
    (∃ j < ns.length, LacksBase ns j) ∨ (∃ j < ns.length, OnCycle ns j) ∨ MeetsAmbiguity ns i := by
  have e := ending_walk hi
  generalize walk ns i = w at e h
  cases e with
  | behaviour | plain => exact absurd h (by simp [Walk.ancestry])
  | unknown t hb hne nowhere =>
    exact .inl ⟨_, t.lt_length hi _ List.mem_cons_self, _, hb, hne, nowhere⟩
  | ambiguous t hb hne again => exact .inr (.inr ⟨_, _, t.reaches, hb, hne, again⟩)
  | cycle t hd up hk =>
    -- The walk has gone round from the type that it meets again.
    refine .inr (.inl ⟨_, up.lt_length, ?_⟩)
    exact TransGen.tail' (t.reaches_head _ hk) up

theorem mem_baseFindings {d : Diagnostic} (hi : i < ns.length)
    (h : d ∈ (walk ns i).findings ns i) : d ∈ baseFindings ns :=
  List.mem_flatMap.mpr ⟨i, List.mem_range.mpr hi, h⟩

theorem mem_linkFindings_of_base {ms : List Module} {d : Diagnostic}
    (h : d ∈ baseFindings (Node.ofModules ms)) : d ∈ linkFindings ms := by
  rw [← filter_linkFindings] at h
  exact (List.mem_filter.mp h).1

/-- A type whose walk is said to have one code has one finding. -/
theorem exists_finding {c : Code} (hi : i < ns.length) (h : (walk ns i).codes i = [c]) :
    ∃ d, (walk ns i).findings ns i = [d] ∧ d.code = c := by
  rw [← Walk.codes_findings hi] at h
  exact List.map_eq_singleton_iff.mp h

/-- Where linking finds no error, each type that descends from nothing is warned about once. -/
theorem warned_of_broken {ms : List Module} (noError : ∀ d ∈ linkFindings ms, d.severity ≠ .error)
    (hi : i < (Node.ofModules ms).length)
    (h : (walk (Node.ofModules ms) i).ancestry = .broken) :
    ∃ d, (walk (Node.ofModules ms) i).findings (Node.ofModules ms) i = [d] ∧
      d.code = .ambiguousBaseType := by
  -- What is said of any type is said of the corpus, so that no type has a code that is an error.
  have silent : ∀ {j : Nat} {c : Code}, j < (Node.ofModules ms).length → c.severity = .error →
      (walk (Node.ofModules ms) j).codes j ≠ [c] := by
    intro j c hj hc hw
    obtain ⟨d, hd, rfl⟩ := exists_finding hj hw
    have found : d ∈ (walk (Node.ofModules ms) j).findings (Node.ofModules ms) j := by
      rw [hd]
      exact List.mem_singleton_self d
    exact noError d (mem_linkFindings_of_base (mem_baseFindings hj found)) hc
  rcases broken_cases hi h with ⟨j, hj, lacks⟩ | ⟨j, hj, cycle⟩ | ambiguous
  · exact absurd ((codes_unknown_iff hj).mpr lacks) (silent hj rfl)
  · exact absurd ((codes_cycle_iff hj).mpr cycle) (silent hj rfl)
  · exact exists_finding hi ((codes_ambiguous_iff hi).mpr ambiguous)

/-- Resolution is right for every type of every corpus, what linking says about bases is what the walks
    say, type by type, and a unit without errors has one warning for each type that it leaves out. -/
theorem resolution_exact (ms : List Module) :
    (∀ i < (Node.ofModules ms).length, Resolves (Node.ofModules ms) i) ∧
      (linkFindings ms).filter (fun d => isBaseCode d.code) =
        (List.range (Node.ofModules ms).length).flatMap (fun i =>
          (walk (Node.ofModules ms) i).findings (Node.ofModules ms) i) ∧
      ∀ (id : UnitId) (debugSymbols : Bool) (files : List Source) (notes : List Diagnostic),
        (Compiler.build id debugSymbols files notes ms).passed = true →
          ∀ i < (Node.ofModules ms).length, (walk (Node.ofModules ms) i).ancestry = .broken →
            ∃ d ∈ (Compiler.build id debugSymbols files notes ms).diagnostics,
              (walk (Node.ofModules ms) i).findings (Node.ofModules ms) i = [d] ∧
                d.code = .ambiguousBaseType := by
  refine ⟨fun i hi => resolves hi, filter_linkFindings ms, ?_⟩
  intro id debugSymbols files notes passed i hi broken
  have gated := Compiler.build_gated id debugSymbols ⟨files, notes⟩ ms
  have linked : ∀ d ∈ linkFindings ms, d ∈ (Compiler.build id debugSymbols files notes ms).diagnostics :=
    fun d hd => gated.mem_of_linkFindings hd
  have noError := gated.passed_iff.mp passed
  obtain ⟨d, hd, code⟩ := warned_of_broken (fun d hd => noError d (linked d hd)) hi broken
  have found : d ∈ (walk (Node.ofModules ms) i).findings (Node.ofModules ms) i := by
    rw [hd]
    exact List.mem_singleton_self d
  exact ⟨d, linked d (mem_linkFindings_of_base (mem_baseFindings hi found)), hd, code⟩

/-- A type that names a base of which there are two. -/
def sharedBase : List Module :=
  let type (name : String) (base : Option String) : TypeModule :=
    ⟨⟨name, base.map fun b => (b, ⟨1, 1⟩), false, [], [], ⟨1, 1⟩⟩, []⟩
  [⟨"a.ks", ⟨[], [], []⟩, [], [type "Door" (some "Thing"), type "Thing" none, type "Thing" none], []⟩]

/-- The unit of it has no error, and a warning for the one type that descends from nothing. -/
theorem sharedBase_warned :
    let u := Compiler.build ⟨0, "unit"⟩ false [] [] sharedBase
    u.passed = true ∧ 0 < (Node.ofModules sharedBase).length ∧
      (walk (Node.ofModules sharedBase) 0).ancestry = .broken ∧
      ∃ d ∈ u.diagnostics,
        (walk (Node.ofModules sharedBase) 0).findings (Node.ofModules sharedBase) 0 = [d] ∧
          d.code = .ambiguousBaseType := by
  intro u
  have passed : u.passed = true := by decide
  have there : 0 < (Node.ofModules sharedBase).length := by decide
  have broken : (walk (Node.ofModules sharedBase) 0).ancestry = .broken := by decide
  have warned := (resolution_exact sharedBase).2.2 ⟨0, "unit"⟩ false [] [] passed 0 there broken
  exact ⟨passed, there, broken, warned⟩

end ScriptHost.Corpus
