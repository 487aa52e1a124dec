import ScriptHost.Corpus.Module
import ScriptHost.Proofs.Declaration.Parser
import ScriptHost.Proofs.Reference

/-!
# Module — what is known of a file that was read

Whatever a module has compiled comes from one of its declarations.  Where nothing is wrong with the module,
each declaration has been compiled, and each module path of a body leads to a module that the file declares.
-/

namespace ScriptHost.Corpus.Module

open Declaration (FnDecl ModuleRef)

variable {m : Module} {f : FnDecl} {l : Lowered} {r : ModuleRef}

/-- The module is what some text is read as. -/
def IsRead (m : Module) : Prop := ∃ path content, m = read path content

/-- Everything that was compiled: functions first, then methods type by type. -/
def lowered (m : Module) : List Lowered := m.functions ++ m.types.flatMap (·.methods)

/-! ## 1. What is read -/

section Read

variable (path content : String)

theorem tree_read : (read path content).tree = (Declaration.parse content).1 := rfl

theorem path_read : (read path content).path = path := rfl

theorem functions_read : (read path content).functions =
    (split ((Declaration.parse content).1.functions.map (Lowered.ofDecl path))).1 := rfl

theorem types_read : (read path content).types =
    (Declaration.parse content).1.types.map fun t => ⟨t, (split (t.methods.map (Lowered.ofDecl path))).1⟩ :=
  List.map_map

theorem diagnostics_read : (read path content).diagnostics =
    ((Declaration.parse content).2.map fun f => ⟨.declarationSyntax f.cause, .atPosition path f.position⟩) ++
      Reference.check path (Declaration.parse content).1 ++
      (split ((Declaration.parse content).1.functions.map (Lowered.ofDecl path))).2 ++
      (Declaration.parse content).1.types.flatMap fun t =>
        (split (t.methods.map (Lowered.ofDecl path))).2 :=
  congrArg (_ ++ ·) (List.flatMap_map ..)

end Read

/-! ## 2. Compiled declarations -/

theorem mem_split_ok {fs : List (Except Diagnostic Lowered)} : l ∈ (split fs).1 ↔ .ok l ∈ fs := by
  simp only [split, List.mem_filterMap]
  constructor
  · rintro ⟨x, hx, hl⟩
    split at hl
    · exact Option.some.inj hl ▸ hx
    · exact nomatch hl
  · exact fun h => ⟨_, h, rfl⟩

theorem mem_split_error {fs : List (Except Diagnostic Lowered)} {d : Diagnostic} :
    d ∈ (split fs).2 ↔ .error d ∈ fs := by
  simp only [split, List.mem_filterMap]
  constructor
  · rintro ⟨x, hx, hd⟩
    split at hd
    · exact nomatch hd
    · exact Option.some.inj hd ▸ hx
  · exact fun h => ⟨_, h, rfl⟩

/-- What was compiled was declared. -/
theorem declared_of_mem_lowered (h : m.IsRead) (hl : l ∈ m.lowered) :
    ∃ f ∈ m.tree.declarations, Lowered.ofDecl m.path f = .ok l := by
  obtain ⟨path, content, rfl⟩ := h
  rw [lowered, functions_read, types_read, List.flatMap_map] at hl
  rw [tree_read, path_read]
  rcases List.mem_append.mp hl with hl | hl
  · obtain ⟨f, hf, h⟩ := List.mem_map.mp (mem_split_ok.mp hl)
    exact ⟨f, List.mem_append_left _ hf, h⟩
  · obtain ⟨t, ht, hl⟩ := List.mem_flatMap.mp hl
    obtain ⟨f, hf, h⟩ := List.mem_map.mp (mem_split_ok.mp hl)
    exact ⟨f, List.mem_append_right _ (List.mem_flatMap.mpr ⟨t, ht, hf⟩), h⟩

/-- The methods of a type are declared with the file. -/
theorem declared_of_method {t : TypeModule} (h : m.IsRead) (ht : t ∈ m.types) (hf : f ∈ t.decl.methods) :
    f ∈ m.tree.declarations := by
  obtain ⟨path, content, rfl⟩ := h
  rw [types_read] at ht
  obtain ⟨decl, hd, rfl⟩ := List.mem_map.mp ht
  exact List.mem_append_right _ (List.mem_flatMap.mpr ⟨decl, hd, hf⟩)

theorem map_decl (h : m.IsRead) : m.types.map TypeModule.decl = m.tree.types := by
  obtain ⟨path, content, rfl⟩ := h
  rw [types_read, List.map_map]
  exact List.map_id _

/-- The finding about a body that cannot be compiled. -/
theorem finding_of_ofDecl {path : String} {d : Diagnostic} (h : Lowered.ofDecl path f = .error d) :
    ∃ complaint, d.finding = .bodySyntax f.name complaint := by
  unfold Lowered.ofDecl at h
  dsimp only at h
  split at h
  · exact nomatch h
  · obtain rfl := Except.error.inj h
    exact ⟨_, rfl⟩

/-- A declaration that cannot be compiled is found. -/
theorem mem_diagnostics_of_error {d : Diagnostic} (h : m.IsRead) (hf : f ∈ m.tree.declarations)
    (refused : Lowered.ofDecl m.path f = .error d) : d ∈ m.diagnostics := by
  obtain ⟨path, content, rfl⟩ := h
  rw [diagnostics_read]
  rcases List.mem_append.mp hf with hf | hf
  · refine List.mem_append_left _ (List.mem_append_right _ (mem_split_error.mpr ?_))
    exact List.mem_map.mpr ⟨f, hf, refused⟩
  · obtain ⟨t, ht, hf⟩ := List.mem_flatMap.mp hf
    refine List.mem_append_right _ (List.mem_flatMap.mpr ⟨t, ht, mem_split_error.mpr ?_⟩)
    exact List.mem_map.mpr ⟨f, hf, refused⟩

theorem isError_of_mem {d : Diagnostic} {ds : List Diagnostic} (passed : Diagnostic.passes ds = true)
    (hd : d ∈ ds) : d.isError = false := by
  simp only [Diagnostic.passes, Bool.not_eq_true', List.any_eq_false] at passed
  exact Bool.eq_false_iff.mpr (passed d hd)

/-- Where nothing is wrong, every declaration was compiled. -/
theorem compiled_of_passes (h : m.IsRead) (passed : Diagnostic.passes m.diagnostics = true)
    (hf : f ∈ m.tree.declarations) : ∃ l, Lowered.ofDecl m.path f = .ok l := by
  cases compiled : Lowered.ofDecl m.path f with
  | ok l => exact ⟨l, rfl⟩
  | error d =>
    have clean := isError_of_mem passed (mem_diagnostics_of_error h hf compiled)
    obtain ⟨complaint, found⟩ := finding_of_ofDecl compiled
    rw [Diagnostic.isError, Diagnostic.severity, Diagnostic.code, found] at clean
    exact absurd clean.symm Bool.false_ne_true

/-- What was compiled of declarations that can all be compiled. -/
theorem map_split {α : Type} {path : String} {fs : List FnDecl} {g : Lowered → α} {g' : FnDecl → α}
    (compiled : ∀ f ∈ fs, ∃ l, Lowered.ofDecl path f = .ok l)
    (same : ∀ f l, Lowered.ofDecl path f = .ok l → g l = g' f) :
    (split (fs.map (Lowered.ofDecl path))).1.map g = fs.map g' := by
  -- On the declarations: each is compiled, so none is left out and the order is kept.
  induction fs with
  | nil => rfl
  | cons f fs ih =>
    obtain ⟨⟨l, hl⟩, later⟩ := List.forall_mem_cons.mp compiled
    have first : (split ((f :: fs).map (Lowered.ofDecl path))).1 = l :: (split (fs.map (Lowered.ofDecl path))).1 := by
      rw [List.map_cons, hl]
      rfl
    rw [first, List.map_cons, List.map_cons, ih later, same f l hl]

section Passed

variable {α : Type} {g : Lowered → α} {g' : FnDecl → α} (h : m.IsRead) (passed : Diagnostic.passes m.diagnostics = true)
  (same : ∀ f l, Lowered.ofDecl m.path f = .ok l → g l = g' f)
include h passed same

/-- Where nothing is wrong, the functions that were compiled are those that are declared, in order. -/
theorem map_functions : m.functions.map g = m.tree.functions.map g' := by
  have compiled : ∀ f ∈ m.tree.functions, ∃ l, Lowered.ofDecl m.path f = .ok l :=
    fun f hf => compiled_of_passes h passed (List.mem_append_left _ hf)
  obtain ⟨path, content, rfl⟩ := h
  exact map_split compiled same

/-- So are the methods of each type. -/
theorem map_methods {t : TypeModule} (ht : t ∈ m.types) : t.methods.map g = t.decl.methods.map g' := by
  have compiled : ∀ f ∈ t.decl.methods, ∃ l, Lowered.ofDecl m.path f = .ok l :=
    fun f hf => compiled_of_passes h passed (declared_of_method h ht hf)
  obtain ⟨path, content, rfl⟩ := h
  rw [types_read] at ht
  obtain ⟨decl, -, rfl⟩ := List.mem_map.mp ht
  exact map_split compiled same

end Passed

/-- A fault of the text is found of the module. -/
theorem mem_diagnostics_of_fault {content : String} {fault : Declaration.Fault} (path : String)
    (found : fault ∈ (Declaration.parse content).2) :
    ⟨.declarationSyntax fault.cause, .atPosition path fault.position⟩ ∈ (read path content).diagnostics := by
  rw [diagnostics_read]
  refine List.mem_append_left _ (List.mem_append_left _ (List.mem_append_left _ ?_))
  exact List.mem_map.mpr ⟨fault, found, rfl⟩

/-- Where nothing is wrong, the text was read without a fault. -/
theorem faultless_of_passes {path content : String}
    (passed : Diagnostic.passes (read path content).diagnostics = true) : (Declaration.parse content).2 = [] := by
  refine List.eq_nil_iff_forall_not_mem.mpr fun fault found => ?_
  exact absurd (isError_of_mem passed (mem_diagnostics_of_fault path found)).symm Bool.false_ne_true

/-! ## 3. Module paths -/

theorem mem_refs_of_declared (hf : f ∈ m.tree.declarations) (hr : r ∈ f.body.refs) :
    r ∈ m.tree.bodies.flatMap (·.refs) := by
  refine List.mem_flatMap.mpr ⟨f.body, ?_, hr⟩
  rcases List.mem_append.mp hf with hf | hf
  · exact List.mem_append_left _ (List.mem_map.mpr ⟨f, hf, rfl⟩)
  · obtain ⟨t, ht, hf⟩ := List.mem_flatMap.mp hf
    exact List.mem_append_right _ (List.mem_flatMap.mpr ⟨t, ht, List.mem_map.mpr ⟨f, hf, rfl⟩⟩)

/-- What the check of module paths finds is found of the module. -/
theorem mem_diagnostics_of_check {d : Diagnostic} (h : m.IsRead) (hd : d ∈ Reference.check m.path m.tree) :
    d ∈ m.diagnostics := by
  obtain ⟨path, content, rfl⟩ := h
  rw [diagnostics_read]
  exact List.mem_append_left _ (List.mem_append_left _ (List.mem_append_right _ hd))

/-- Where nothing is wrong, a path that was noted leads to the namespace of constants or to a host module
    which the file declares. -/
theorem declared_of_noted (h : m.IsRead) (passed : Diagnostic.passes m.diagnostics = true)
    (hf : f ∈ m.tree.declarations) (hr : r ∈ f.body.refs) :
    r.name = Reference.globalNamespace ∨
      (HostModule.ofName? r.name).isSome = true ∧ ∃ u ∈ m.tree.uses, u.module = r.name := by
  cases hc : Reference.check? (Reference.declared m.tree.uses) r.name with
  | none => exact Reference.declared_of_check? hc
  | some found =>
    have clean := isError_of_mem passed
      (mem_diagnostics_of_check h (Reference.mem_check_of_misused (mem_refs_of_declared hf hr) hc))
    exact absurd ((Reference.isError_of_check? hc).symm.trans clean) nofun

/-- No module that a noted path names is called unused. -/
theorem used_of_noted (h : m.IsRead) (hf : f ∈ m.tree.declarations) (hr : r ∈ f.body.refs) (l : Location) :
    ⟨.unusedModule r.name, l⟩ ∉ m.diagnostics := by
  have noted := mem_refs_of_declared hf hr
  obtain ⟨path, content, rfl⟩ := h
  have other {fs : List FnDecl} : ⟨.unusedModule r.name, l⟩ ∉ (split (fs.map (Lowered.ofDecl path))).2 := by
    intro hd
    obtain ⟨f, -, hf⟩ := List.mem_map.mp (mem_split_error.mp hd)
    obtain ⟨complaint, other⟩ := finding_of_ofDecl hf
    exact nomatch other
  rw [diagnostics_read]
  intro hd
  rcases List.mem_append.mp hd with hd | hd
  · rcases List.mem_append.mp hd with hd | hd
    · rcases List.mem_append.mp hd with hd | hd
      · obtain ⟨fault, -, hd⟩ := List.mem_map.mp hd
        exact nomatch (Diagnostic.mk.inj hd).1
      · exact Reference.ne_of_mem_check hd noted rfl
    · exact other hd
  · obtain ⟨t, -, hd⟩ := List.mem_flatMap.mp hd
    exact other hd

end ScriptHost.Corpus.Module
