import Mathlib.Data.List.Induction
import ScriptHost.Corpus.Link

/-!
# Findings — which check says what

Every check of the linker reports under codes of its own.  A finding about bases comes from a walk and
from nothing else.
-/

namespace ScriptHost.Corpus

/-! ## 1. Codes by check -/

/-- The codes of some findings. -/
def codes (ds : List Diagnostic) : List Code := ds.map (·.code)

theorem codes_append (ds es : List Diagnostic) : codes (ds ++ es) = codes ds ++ codes es := List.map_append

theorem codes_flatMap {α : Type} (f : α → List Diagnostic) (as : List α) :
    codes (as.flatMap f) = as.flatMap fun a => codes (f a) := List.map_flatMap

theorem duplicateFunctions_code {ms : List Module} {d : Diagnostic}
    (h : d ∈ duplicateFunctions ms) : d.code = .duplicateMethod := by
  simp only [duplicateFunctions, List.mem_filterMap, Option.map_eq_some_iff] at h
  obtain ⟨_, -, _, -, rfl⟩ := h
  rfl

theorem reservedNames_code {ns : List Node} {d : Diagnostic} (h : d ∈ reservedNames ns) :
    d.code = .reservedTypeName := by
  simp only [reservedNames, List.mem_filterMap, Option.ite_none_right_eq_some,
    Option.some.injEq] at h
  obtain ⟨_, -, -, rfl⟩ := h
  rfl

theorem mismatch?_code {n : Node} {f : Declaration.FieldDecl} {d : Diagnostic}
    (h : FieldSpec.mismatch? n f = some d) : d.code = .defaultKindMismatch := by
  simp only [FieldSpec.mismatch?, Option.bind_eq_bind, Option.bind_eq_some_iff,
    Option.ite_none_left_eq_some, Option.some.injEq] at h
  obtain ⟨_, -, -, rfl⟩ := h
  rfl

/-- A check that goes over declarations finds one thing more at a time. -/
theorem code_of_mem_append {c c' : Code} {found : List Diagnostic} {d e : Diagnostic}
    (before : d ∈ found → d.code = c ∨ d.code = c') (new : e.code = c ∨ e.code = c')
    (h : d ∈ found ++ [e]) : d.code = c ∨ d.code = c' := by
  rcases List.mem_append.mp h with h | h
  · exact before h
  · rw [List.mem_singleton.mp h]
    exact new

theorem own_code {n : Node} {d : Diagnostic} (h : d ∈ (FieldSpec.own n).2) :
    d.code = .duplicateField ∨ d.code = .defaultKindMismatch := by
  revert h
  rw [FieldSpec.own]
  -- Over the fields taken so far: whatever was found has one of the two codes.
  refine List.foldlRecOn (motive := fun acc : List FieldSpec × List Diagnostic =>
    d ∈ acc.2 → d.code = .duplicateField ∨ d.code = .defaultKindMismatch) _ _ (by simp) ?_
  rintro ⟨specs, found⟩ ih f -
  dsimp only at ih ⊢
  split
  · exact code_of_mem_append ih (.inl rfl)
  · intro h
    rcases List.mem_append.mp h with h | h
    · exact ih h
    · exact .inr (mismatch?_code (Option.mem_toList.mp h))

theorem shadowed_code {n : Node} {inherited own : List FieldSpec} {d : Diagnostic}
    (h : d ∈ FieldSpec.shadowed n inherited own) : d.code = .shadowedField := by
  simp only [FieldSpec.shadowed, List.mem_filterMap, Option.map_eq_some_iff] at h
  obtain ⟨_, -, _, -, rfl⟩ := h
  rfl

theorem checkMethods_code {n : Node} {d : Diagnostic} (h : d ∈ (checkMethods n).2) :
    d.code = .duplicateMethod ∨ d.code = .hookSignature := by
  revert h
  rw [checkMethods]
  -- Over the methods taken so far: whatever was found has one of the two codes.
  refine List.foldlRecOn (motive := fun acc : List String × HookSet × List Diagnostic =>
    d ∈ acc.2.2 → d.code = .duplicateMethod ∨ d.code = .hookSignature) _ _ (by simp) ?_
  rintro ⟨seen, hooks, found⟩ ih f -
  dsimp only at ih ⊢
  split
  · exact code_of_mem_append ih (.inl rfl)
  · split
    · exact ih
    · split
      · exact ih
      · exact code_of_mem_append ih (.inr rfl)

/-- What is said about a resolved type concerns its fields, its methods and what becomes of it. -/
theorem resolveType_code {ns : List Node} {own : Nat → List FieldSpec} {i : Nat} {n : Node}
    {a : Ancestry} {d : Diagnostic} (h : d ∈ (resolveType ns own i n a).findings) :
    d.code ∈ [.shadowedField, .duplicateMethod, .hookSignature, .noHooks, .notABehaviour] := by
  simp only [resolveType, List.mem_append] at h
  rcases h with (h | h) | h
  · rw [shadowed_code h]
    decide
  · by_cases behaviour : a.isBehaviour = true
    · rw [if_pos behaviour] at h
      rcases checkMethods_code h with hc | hc <;> rw [hc] <;> decide
    · rw [if_neg behaviour] at h
      simp at h
  · cases a with
    | behaviour chain =>
      rw [List.mem_singleton.mp (List.mem_ite_nil_right.mp h).2]
      show Code.noHooks ∈ _
      decide
    | plain chain =>
      rw [List.mem_singleton.mp h]
      show Code.notABehaviour ∈ _
      decide
    | broken => simp at h

/-! ## 2. Findings about bases -/

/-- Whether a code is about the base of a type. -/
def isBaseCode : Code → Bool
  | .unknownBaseType | .inheritanceCycle | .ambiguousBaseType => true
  | _ => false

theorem walk_findings_code {ns : List Node} {i : Nat} {w : Walk} {d : Diagnostic}
    (h : d ∈ w.findings ns i) : isBaseCode d.code = true := by
  rw [Walk.findings] at h
  split at h
  · simp at h
  · split at h
    · split at h
      · rw [List.mem_singleton.mp h]
        rfl
      · simp at h
    · rw [List.mem_singleton.mp h]
      rfl
    · split at h
      · rw [List.mem_singleton.mp h]
        rfl
      · simp at h
    · simp at h

/-- A check with other codes says nothing about bases. -/
theorem filter_of_other {ds : List Diagnostic} (h : ∀ d ∈ ds, isBaseCode d.code = false) :
    ds.filter (fun d => isBaseCode d.code) = [] := by
  rw [List.filter_eq_nil_iff]
  intro d hd
  rw [h d hd]
  exact Bool.false_ne_true

theorem filter_baseFindings (ns : List Node) :
    (baseFindings ns).filter (fun d => isBaseCode d.code) = baseFindings ns := by
  refine List.filter_eq_self.mpr fun d hd => ?_
  obtain ⟨i, -, hd⟩ := List.mem_flatMap.mp hd
  exact walk_findings_code hd

/-- What the linker says about bases is what the walks say, no more and no less. -/
theorem filter_linkFindings (ms : List Module) :
    (linkFindings ms).filter (fun d => isBaseCode d.code) = baseFindings (Node.ofModules ms) := by
  -- One by one the other four checks leave nothing.
  have functions := @filter_of_other (duplicateFunctions ms) fun d hd => by
    rw [duplicateFunctions_code hd]
    rfl
  have names := @filter_of_other (reservedNames (Node.ofModules ms)) fun d hd => by
    rw [reservedNames_code hd]
    rfl
  have fields := @filter_of_other ((Node.ofModules ms).flatMap fun n => (FieldSpec.own n).2)
    fun d hd => by
      obtain ⟨n, -, hd⟩ := List.mem_flatMap.mp hd
      rcases own_code hd with hc | hc
      · rw [hc]
        rfl
      · rw [hc]
        rfl
  have types := @filter_of_other ((resolveAll (Node.ofModules ms)).flatMap (·.findings))
    fun d hd => by
      obtain ⟨r, hr, hd⟩ := List.mem_flatMap.mp hd
      obtain ⟨⟨n, i⟩, -, rfl⟩ := List.mem_map.mp hr
      have hc := resolveType_code hd
      revert hc
      generalize d.code = c
      cases c <;> decide
  simp only [linkFindings, List.filter_append, functions, names, fields, types, filter_baseFindings,
    List.nil_append, List.append_nil]

end ScriptHost.Corpus
