import ScriptHost.Reference

/-!
# Reference — what the check of module paths says

A path that is in order leads to the namespace of constants or to a host module which the file declares,
and a module that a path leads to is not called unused.
-/

namespace ScriptHost.Reference

open Declaration (UseDecl ModuleRef Tree)

variable {uses : List UseDecl} {name path : String} {t : Tree} {r : ModuleRef} {found : Finding}

/-- What counts as declared is declared, and a host module. -/
theorem mem_of_mem_declared {u : UseDecl} (h : u ∈ declared uses) :
    u ∈ uses ∧ (HostModule.ofName? u.module).isSome = true := by
  -- Over the declarations taken so far.
  refine List.foldlRecOn (motive := fun taken : List UseDecl =>
    ∀ v ∈ taken, v ∈ uses ∧ (HostModule.ofName? v.module).isSome = true) _ _ (List.forall_mem_nil _) ?_ u h
  intro taken ih d hd v hv
  split at hv
  · next host =>
    rcases List.mem_append.mp hv with hv | hv
    · exact ih v hv
    · obtain rfl := List.mem_singleton.mp hv
      exact ⟨hd, (Bool.and_eq_true_iff.mp host).1⟩
  · exact ih v hv

/-- A path is in order where it leads to the namespace of constants or to a declared module. -/
theorem declared_of_check? (h : check? (declared uses) name = none) :
    name = globalNamespace ∨ (HostModule.ofName? name).isSome = true ∧ ∃ u ∈ uses, u.module = name := by
  unfold check? at h
  split at h
  · next same => exact .inl (eq_of_beq same)
  · split at h
    · exact nomatch h
    · next known =>
      split at h
      · exact nomatch h
      · next declared =>
        simp only [Bool.not_eq_true', Bool.not_eq_false, List.any_eq_true, beq_iff_eq] at declared
        obtain ⟨u, hu, rfl⟩ := declared
        obtain ⟨hu, host⟩ := mem_of_mem_declared hu
        exact .inr ⟨host, u, hu, rfl⟩

theorem isError_of_check? {known : List UseDecl} {l : Location} (h : check? known name = some found) :
    Diagnostic.isError ⟨found, l⟩ = true := by
  unfold check? at h
  split at h
  · exact nomatch h
  · split at h
    · exact Option.some.inj h ▸ rfl
    · split at h
      · exact Option.some.inj h ▸ rfl
      · exact nomatch h

theorem mem_check_of_misused (hr : r ∈ t.bodies.flatMap (·.refs))
    (h : check? (declared t.uses) r.name = some found) :
    ⟨found, .atPosition path r.position⟩ ∈ check path t := by
  refine List.mem_append_left _ (List.mem_append_right _ (List.mem_filterMap.mpr ⟨r, hr, ?_⟩))
  rw [h]
  rfl

/-- What is called unused stands in front of no path. -/
theorem ne_of_mem_check {l : Location} (h : ⟨.unusedModule name, l⟩ ∈ check path t)
    (hr : r ∈ t.bodies.flatMap (·.refs)) : r.name ≠ name := by
  rcases List.mem_append.mp h with h | h
  · rcases List.mem_append.mp h with h | h
    · obtain ⟨d, -, h⟩ := List.mem_filterMap.mp h
      split at h
      · exact nomatch h
      · exact nomatch (Diagnostic.mk.inj (Option.some.inj h)).1
    · obtain ⟨s, -, h⟩ := List.mem_filterMap.mp h
      obtain ⟨found, hc, h⟩ := Option.map_eq_some_iff.mp h
      obtain ⟨rfl, -⟩ := Diagnostic.mk.inj h
      exact absurd (isError_of_check? (l := l) hc) Bool.false_ne_true
  · obtain ⟨m, -, h⟩ := List.mem_filterMap.mp h
    obtain ⟨d, -, h⟩ := Option.bind_eq_some_iff.mp h
    split at h
    · exact nomatch h
    · next unused =>
      obtain ⟨same, -⟩ := Diagnostic.mk.inj (Option.some.inj h)
      obtain rfl := Finding.unusedModule.inj same
      exact fun named => unused (List.any_eq_true.mpr ⟨r, hr, beq_iff_eq.mpr named⟩)

end ScriptHost.Reference
