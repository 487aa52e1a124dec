import ScriptHost.Proofs.Compiler.Dispatch
import ScriptHost.Proofs.Corpus.Order

/-!
# Reading — what the files of a corpus are read as

For each file there is a module of its text, read under its path or under that of a file with the same path and the
same text.  So a declaration which is the only one of its sort stands in one file, under the path of that file.
-/

namespace ScriptHost

open Corpus
open Declaration (FnDecl TypeDecl)

variable {files files' : List Source} {ms ms' : List Module}

/-- What stands in one of two related lists is related to something in the other one. -/
theorem exists_of_forall₂ {α β : Type} {R : α → β → Prop} {as : List α} {bs : List β}
    (h : List.Forall₂ R as bs) {a : α} (ha : a ∈ as) : ∃ b ∈ bs, R a b := by
  induction h with
  | nil => cases ha
  | cons head _ ih =>
    rcases List.mem_cons.mp ha with rfl | ha
    · exact ⟨_, List.mem_cons_self, head⟩
    · obtain ⟨b, hb, related⟩ := ih ha
      exact ⟨b, List.mem_cons_of_mem _ hb, related⟩

/-! ## 1. Texts and modules -/

/-- Whether a declaration gives one function, its own, depends on its text. -/
theorem Corpus.Module.isSole_read {path path' content : String} (sole : (Module.read path content).IsSole) :
    (Module.read path' content).IsSole := by
  intro d hd l compiled
  obtain ⟨p, hp, rfl⟩ := Lowered.compile_of_ofDecl compiled
  have compiled' : Lowered.ofDecl path d =
      .ok ⟨d.name, d.params, Lowered.textOf d, p.functions, Lowered.originOf path d⟩ := by
    unfold Lowered.ofDecl
    rw [hp]
  obtain ⟨f, defines⟩ := sole d hd _ compiled'
  exact ⟨f, defines.functions, defines.name, defines.params⟩

namespace Source

/-- A digest tells files of one path apart. -/
def Discerned (files : List Source) : Prop :=
  ∀ f ∈ files, ∀ g ∈ files, f.path.same g.path = true →
    contentDigest f.content = contentDigest g.content → f.content = g.content

theorem Discerned.perm (h : Discerned files) (perm : files'.Perm files) : Discerned files' :=
  fun f hf g hg => h f (perm.mem_iff.mp hf) g (perm.mem_iff.mp hg)

/-- The modules that files are read as: one for each text in the order of the files, each under the path of a file
    with that text. -/
structure ReadAs (files : List Source) (ms : List Module) : Prop where
  texts : List.Forall₂ (fun f m => ∃ path, m = Module.read path f.content) files ms
  paths : ∀ m ∈ ms, ∃ f ∈ files, m = Module.read f.path.shown f.content

/-- The types that a text declares. -/
def typesIn (content : String) : List TypeDecl := (Declaration.parse content).1.types

/-- The free functions that a text declares. -/
def functionsIn (content : String) : List FnDecl := (Declaration.parse content).1.functions

namespace ReadAs

theorem flatMap_eq {α : Type} {g : Module → List α} (part : String → List α) (h : ReadAs files ms)
    (same : ∀ path content, g (Module.read path content) = part content) :
    ms.flatMap g = files.flatMap fun f => part f.content := by
  obtain ⟨texts, -⟩ := h
  induction texts with
  | nil => rfl
  | cons head _ ih =>
    obtain ⟨path, rfl⟩ := head
    rw [List.flatMap_cons, List.flatMap_cons, same, ih]

theorem decls (h : ReadAs files ms) :
    (Node.ofModules ms).map Node.decl = files.flatMap fun f => typesIn f.content := by
  rw [Node.ofModules, List.map_flatMap]
  refine h.flatMap_eq typesIn fun path content => ?_
  rw [Module.types_read, List.map_map, List.map_map]
  exact List.map_id _

theorem functions (h : ReadAs files ms) :
    ms.flatMap (·.tree.functions) = files.flatMap fun f => functionsIn f.content :=
  h.flatMap_eq functionsIn fun _ _ => rfl

theorem codes_diagnostics (h : ReadAs files ms) : codes (ms.flatMap (·.diagnostics)) =
    files.flatMap fun f => codes (Module.read "" f.content).diagnostics := by
  rw [codes_flatMap]
  exact h.flatMap_eq (fun content => codes (Module.read "" content).diagnostics)
    fun path content => Module.codes_read "" path content

theorem isRead (h : ReadAs files ms) : ∀ m ∈ ms, m.IsRead := by
  intro m hm
  obtain ⟨f, -, rfl⟩ := h.paths m hm
  exact ⟨_, _, rfl⟩

theorem exists_of_node (h : ReadAs files ms) {n : Node} (hn : n ∈ Node.ofModules ms) :
    ∃ f ∈ files, n.path = f.path.shown ∧ n.decl ∈ typesIn f.content := by
  obtain ⟨m, hm, t, ht, rfl⟩ := exists_of_mem_ofModules hn
  obtain ⟨f, hf, rfl⟩ := h.paths m hm
  rw [Module.types_read] at ht
  obtain ⟨decl, hd, rfl⟩ := List.mem_map.mp ht
  exact ⟨f, hf, rfl, hd⟩

theorem exists_of_free (h : ReadAs files ms) {d : Definition} (hd : d ∈ freeFunctions ms) :
    ∃ f ∈ files, d.path = f.path.shown ∧ d.decl ∈ functionsIn f.content := by
  obtain ⟨m, hm, hd⟩ := List.mem_flatMap.mp hd
  obtain ⟨decl, declared, rfl⟩ := List.mem_map.mp hd
  obtain ⟨f, hf, rfl⟩ := h.paths m hm
  exact ⟨f, hf, rfl, declared⟩

end ReadAs

/-- Where one declaration at most is of some sort, so is the file that has it. -/
theorem eq_of_few {α : Type} {part : String → List α} {p : α → Bool}
    (few : ((files.flatMap fun f => part f.content).filter p).length ≤ 1) {f g : Source} (hf : f ∈ files)
    (hg : g ∈ files) {a b : α} (ha : a ∈ part f.content) (pa : p a = true) (hb : b ∈ part g.content)
    (pb : p b = true) : f = g := by
  induction files with
  | nil => cases hf
  | cons e files ih =>
    rw [List.flatMap_cons, List.filter_append, List.length_append] at few
    have first {c : α} (hc : c ∈ part e.content) (pc : p c = true) : 0 < ((part e.content).filter p).length :=
      List.length_pos_of_mem (List.mem_filter.mpr ⟨hc, pc⟩)
    have later {h : Source} (hh : h ∈ files) {c : α} (hc : c ∈ part h.content) (pc : p c = true) :
        0 < ((files.flatMap fun f => part f.content).filter p).length :=
      List.length_pos_of_mem (List.mem_filter.mpr ⟨List.mem_flatMap.mpr ⟨h, hh, hc⟩, pc⟩)
    rcases List.mem_cons.mp hf with rfl | behind
    · rcases List.mem_cons.mp hg with rfl | behind
      · rfl
      · have here := first ha pa
        have there := later behind hb pb
        omega
    · rcases List.mem_cons.mp hg with rfl | behind'
      · have here := first hb pb
        have there := later behind ha pa
        omega
      · exact ih (by omega) behind behind'

end Source

/-! ## 2. What a compiler keeps -/

namespace Compiler

variable {c : Compiler}

/-- What is kept of files is what reading them again would give. -/
def Faithful (c : Compiler) (files : List Source) : Prop :=
  ∀ e ∈ c.cache, ∀ f ∈ files, e.covers f = true → e.module = Module.read f.path.shown f.content

theorem Faithful.perm (h : c.Faithful files) (perm : files'.Perm files) : c.Faithful files' :=
  fun e he f hf => h e he f (perm.mem_iff.mp hf)

/-- A new compiler keeps nothing. -/
theorem faithful_create (naming : Nat → String) (debugSymbols : Bool) (files : List Source) :
    (create naming debugSymbols).Faithful files := fun _ he => absurd he List.not_mem_nil

/-- A compiler that has read consistent files keeps faithful entries of them. -/
theorem Kept.faithful {known : List Source} (h : Kept known c) (consistent : Source.Consistent known)
    (hf : ∀ f ∈ files, f ∈ known) : c.Faithful files := by
  intro e he f hf' covers
  obtain ⟨g, hg, rfl⟩ := h.made e he
  exact CachedModule.module_of_covers consistent (hf f hf') hg covers

theorem readAs_modules (faithful : c.Faithful files) (discerned : Source.Discerned files) :
    Source.ReadAs files (c.modules files) := by
  have given : List.Forall₂ (CachedModule.Gives fun e => e ∈ c.cache ∨ ∃ f ∈ files, e = .ofSource f) files
      (c.modules files) := CachedModule.loadAll_gives (fun _ h => .inl h) fun f hf => .inr ⟨f, hf, rfl⟩
  have read : List.Forall₂
      (fun f m => ∃ g ∈ files, g.content = f.content ∧ m = Module.read g.path.shown g.content) files
      (c.modules files) := by
    refine ((List.forall₂_and_left files (c.modules files)).mpr ⟨fun _ hf => hf, given⟩).imp ?_
    rintro f m ⟨hf, e, known, covers, rfl⟩
    rcases known with kept | ⟨g, hg, rfl⟩
    · exact ⟨f, hf, rfl, faithful e kept f hf covers⟩
    · obtain ⟨path, digest⟩ := Bool.and_eq_true_iff.mp covers
      exact ⟨g, hg, discerned g hg f hf path (eq_of_beq digest), rfl⟩
  constructor
  · refine read.imp fun f m ⟨g, _, same, made⟩ => ⟨g.path.shown, ?_⟩
    rw [made, same]
  · intro m hm
    obtain ⟨f, -, g, hg, -, made⟩ := exists_of_forall₂ read.flip hm
    exact ⟨g, hg, made⟩

end Compiler

end ScriptHost
