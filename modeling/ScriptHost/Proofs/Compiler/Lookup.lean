import ScriptHost.Proofs.Compiler.Artefacts
import ScriptHost.Proofs.Compiler.Violations

/-!
# Lookup — which function the symbols of a unit answer with

Symbols are looked up by type and name, and the first entry answers.  Every function of a unit has an entry, so that
some function of its type and name is always found.  It is the function itself where no other goes by the same type
and name: a free function that no other number of parameters is declared for, and a method of a type that is declared
once.
-/

namespace ScriptHost

open Corpus
open Declaration (FnDecl)
open Diagnostic (passes)

variable {ms : List Module} {m : Module} {f : Option String × FnDecl} {unit corpusHash : String}

namespace Symbols

variable {s : Symbols} {e : Symbol} {type : Option String} {name : String}

theorem exists_lookup (he : e ∈ s.entries) :
    ∃ e' ∈ s.entries, e'.type = e.type ∧ e'.function = e.function ∧ s.lookup e.type e.function = some e' := by
  have found : (s.lookup e.type e.function).isSome = true :=
    List.find?_isSome.mpr ⟨e, he, by rw [beq_self_eq_true, beq_self_eq_true]; rfl⟩
  obtain ⟨e', found⟩ := Option.isSome_iff_exists.mp found
  have key := List.find?_some found
  rw [Bool.and_eq_true, beq_iff_eq, beq_iff_eq] at key
  exact ⟨e', List.mem_of_find?_eq_some found, key.1, key.2, found⟩

/-- An entry that no other one of its type and name differs from is the one that is found. -/
theorem lookup_of_alone (he : e ∈ s.entries)
    (alone : ∀ e' ∈ s.entries, e'.type = e.type → e'.function = e.function → e' = e) :
    s.lookup e.type e.function = some e := by
  obtain ⟨e', he', type, function, found⟩ := exists_lookup he
  rwa [alone e' he' type function] at found

end Symbols

/-! ## 1. Entries -/

namespace Corpus

theorem mem_entries_iff {e : Symbol} :
    e ∈ (Outline.symbols unit corpusHash (ms.map Module.outline)).entries ↔
      ∃ m ∈ ms, ∃ f ∈ m.outline.functions, e = Outline.symbol m.path f := by
  simp only [Outline.symbols, List.flatMap_map, List.mem_flatMap, List.mem_map, Module.outline,
    eq_comm (a := e)]

theorem Module.mem_functions_none {g : FnDecl} :
    (none, g) ∈ m.outline.functions ↔ g ∈ m.tree.functions := by
  simp [Outline.functions, Module.outline]

theorem Module.mem_functions_some {type : String} {g : FnDecl} :
    (some type, g) ∈ m.outline.functions ↔ ∃ t ∈ m.tree.types, t.name = type ∧ g ∈ t.methods := by
  simp [Outline.functions, Module.outline, and_comm, and_assoc]

/-- What the symbols of a corpus answer with. -/
structure Answers (ms : List Module) (s : Symbols) : Prop where
  /-- For every function there is an answer, a function of the same type and name. -/
  found : ∀ m ∈ ms, ∀ f ∈ m.outline.functions, ∃ m' ∈ ms, ∃ g ∈ m'.outline.functions,
    g.1 = f.1 ∧ g.2.name = f.2.name ∧ s.lookup f.1 f.2.name = some (Outline.symbol m'.path g)
  /-- It is the free function itself if that name stands for no other number of parameters, -/
  free : ∀ m ∈ ms, ∀ f ∈ m.tree.functions,
    (∀ m' ∈ ms, ∀ g ∈ m'.tree.functions, g.name = f.name → g.params.length = f.params.length) →
    s.lookup none f.name = some (Outline.symbol m.path (none, f))
  /-- and the method itself if its type is declared once and no other method of it has the name, which is so in
      every behaviour type. -/
  method : ∀ i n, (Node.ofModules ms)[i]? = some n → DeclaresAlone (Node.ofModules ms) n.name i →
    ReachesBehaviour (Node.ofModules ms) n ∨ (n.decl.methods.map FnDecl.name).Nodup →
    ∀ f ∈ n.decl.methods, s.lookup (some n.name) f.name = some (Outline.symbol n.path (some n.name, f))

theorem InOrder.answers (order : InOrder ms) (read : ∀ m ∈ ms, m.IsRead) (unit corpusHash : String) :
    Answers ms (Outline.symbols unit corpusHash (ms.map Module.outline)) := by
  have listed {m : Module} (hm : m ∈ ms) {f : Option String × FnDecl} (hf : f ∈ m.outline.functions) :
      Outline.symbol m.path f ∈ (Outline.symbols unit corpusHash (ms.map Module.outline)).entries :=
    mem_entries_iff.mpr ⟨m, hm, f, hf, rfl⟩
  constructor
  case found =>
    intro m hm f hf
    obtain ⟨e, he, type, function, found⟩ := Symbols.exists_lookup (listed hm hf)
    obtain ⟨m', hm', g, hg, rfl⟩ := mem_entries_iff.mp he
    exact ⟨m', hm', g, hg, type, function, found⟩
  case free =>
    intro m hm f hf sole
    refine Symbols.lookup_of_alone (listed hm (Module.mem_functions_none.mpr hf)) fun e he type function => ?_
    obtain ⟨m', hm', ⟨kind, g⟩, hg, rfl⟩ := mem_entries_iff.mp he
    obtain rfl : kind = none := type
    have hg := Module.mem_functions_none.mp hg
    have declared {m : Module} (hm : m ∈ ms) {f : FnDecl} (hf : f ∈ m.tree.functions) :
        ⟨m.path, f⟩ ∈ freeFunctions ms := List.mem_flatMap.mpr ⟨m, hm, List.mem_map_of_mem hf⟩
    -- A call of that name with so many arguments means both, so that they are one.
    have same := order.functions.eq (declared hm' hg) (declared hm hf)
      (Definition.isCalled_iff.mpr ⟨function, sole m' hm' g hg function⟩) (Definition.isCalled_iff.mpr ⟨rfl, rfl⟩)
    obtain ⟨path, rfl⟩ := Definition.mk.inj same
    rw [path]
  case method =>
    intro i n hn alone kind f hf
    have distinct : (n.decl.methods.map FnDecl.name).Nodup := kind.elim (order.methods n) id
    have listed : Outline.symbol n.path (some n.name, f) ∈
        (Outline.symbols unit corpusHash (ms.map Module.outline)).entries := by
      obtain ⟨m, hm, t, ht, rfl⟩ := exists_of_mem_ofModules (List.mem_of_getElem? hn)
      refine listed hm (Module.mem_functions_some.mpr ⟨t.decl, ?_, rfl, hf⟩)
      exact Module.map_decl (read m hm) ▸ List.mem_map_of_mem ht
    refine Symbols.lookup_of_alone listed fun e he type function => ?_
    obtain ⟨m', hm', ⟨kind', g⟩, hg, rfl⟩ := mem_entries_iff.mp he
    obtain rfl : kind' = some n.name := type
    obtain ⟨t', ht', name, declared⟩ := Module.mem_functions_some.mp hg
    -- The type that the entry stands with is the one of that name.
    rw [← Module.map_decl (read m' hm')] at ht'
    obtain ⟨t, ht, rfl⟩ := List.mem_map.mp ht'
    have there : (⟨m'.path, t.decl, t.methods⟩ : Node) ∈ Node.ofModules ms :=
      List.mem_flatMap.mpr ⟨m', hm', List.mem_map_of_mem ht⟩
    obtain ⟨j, hj⟩ := List.mem_iff_getElem?.mp there
    obtain rfl := alone.2 j ⟨_, hj, name⟩
    obtain rfl := Option.some.inj (hj.symm.trans hn)
    obtain rfl : g = f := List.inj_on_of_nodup_map distinct declared hf function
    rfl

end Corpus

/-! ## 2. Units -/

namespace Compiler

variable {c : Compiler} {known : List Source}

theorem Kept.exists_symbols {now : Compilation} (kept : Kept known c) (hf : ∀ f ∈ now.batch.files, f ∈ known)
    (small : ∀ f ∈ known, f.content.length < 2 ^ 63) (active : (c.perform now).1.isActive = true)
    (held : (c.perform now).1.executable.length < 2 ^ 64) (wanted : now.debugSymbols = true) :
    (∀ m ∈ c.modules now.batch.files, m.IsRead) ∧
      ∃ text, (c.perform now).1.symbols = some text ∧ Symbols.read? text = some (Outline.symbols
        (c.perform now).1.id.text (c.perform now).1.corpusHash ((c.modules now.batch.files).map Module.outline)) := by
  have made : ∀ m ∈ c.modules now.batch.files, ∃ g ∈ known, m = Module.read g.path.shown g.content := by
    intro m hm
    have given := CachedModule.loadAll_gives kept.made fun f hf' => ⟨f, hf f hf', rfl⟩
    obtain ⟨f, -, e, ⟨g, hg, rfl⟩, -, rfl⟩ := exists_of_forall₂ given.flip hm
    exact ⟨g, hg, rfl⟩
  have read : ∀ m ∈ c.modules now.batch.files, m.IsRead := by
    intro m hm
    obtain ⟨g, -, rfl⟩ := made m hm
    exact ⟨_, _, rfl⟩
  refine ⟨read, Compiler.exists_symbols read (fun m hm => ?_) active held wanted⟩
  obtain ⟨g, hg, rfl⟩ := made m hm
  exact ⟨g.content.toList, lt_of_eq_of_lt g.content.length_toList (small g hg),
    fun _ hd => Declaration.declared_of_parse hd⟩

/-- Whatever a compiler was asked before, the symbols of an active unit can be read, and they have an answer for every
    function that its files declare: a function of the same type and name, which is the function itself where no other
    one goes by these.  What is held in memory is taken to be counted in 64 bits. -/
theorem functions_looked_up (naming : Nat → String) (debugSymbols : Bool) (history : List Compilation)
    (now : Compilation) (small : ∀ f ∈ filesOf (history ++ [now]), f.content.length < 2 ^ 63)
    (active : (((create naming debugSymbols).after history).perform now).1.isActive = true)
    (held : (((create naming debugSymbols).after history).perform now).1.executable.length < 2 ^ 64)
    (wanted : now.debugSymbols = true) :
    ∃ text s, (((create naming debugSymbols).after history).perform now).1.symbols = some text ∧
      Symbols.read? text = some s ∧
      Answers (((create naming debugSymbols).after history).modules now.batch.files) s := by
  have kept : Kept (filesOf (history ++ [now])) ((create naming debugSymbols).after history) :=
    (kept_create naming debugSymbols).after fun f h => filesOf_concat history now ▸ List.mem_append_left _ h
  have linked := (stands_of_active active).linked
  rw [makesPrograms, Bool.and_eq_true] at linked
  obtain ⟨read, text, written, back⟩ := kept.exists_symbols
    (fun f h => filesOf_concat history now ▸ List.mem_append_right _ h) small active held wanted
  exact ⟨text, _, written, back, (inOrder_of_passes linked.2).answers read _ _⟩

/-- Two functions of one name, told apart by their parameters, and a type beside them. -/
def twofold : Compilation :=
  ⟨⟨[⟨"a.ks", "fn f(x) \x7b x \x7d fn f(x, y) \x7b x \x7d type T : Behaviour \x7b fn update(ctx, dt) \x7b \x7d \x7d",
    .time 0⟩], []⟩, true⟩

theorem twofold_compiles :
    let c := (create toString false).after []
    let ms := c.modules twofold.batch.files
    ((∀ f ∈ filesOf ([] ++ [twofold]), f.content.length < 2 ^ 63) ∧ (c.perform twofold).1.isActive = true ∧
      ({ c.imageOf twofold.batch with corpusHash := "" } : Image).encode.length + 256 < 2 ^ 64) ∧
      ((Outline.symbols "" "" (ms.map Module.outline)).lookup none "f").map (·.arity) = some 1 ∧
        ∃ m ∈ ms, ∃ f ∈ m.tree.functions, f.name = "f" ∧ f.params.length = 2 := by
  decide +kernel

theorem overloaded_looked_up :
    let u := (((create toString false).after []).perform twofold).1
    ((∀ f ∈ filesOf ([] ++ [twofold]), f.content.length < 2 ^ 63) ∧ u.isActive = true ∧
      u.executable.length < 2 ^ 64 ∧ twofold.debugSymbols = true) ∧
    ∃ text s, u.symbols = some text ∧ Symbols.read? text = some s ∧
      Answers (((create toString false).after []).modules twofold.batch.files) s := by
  dsimp only
  obtain ⟨⟨small, active, image⟩, -⟩ := twofold_compiles
  have held := length_executable active image
  exact ⟨⟨small, active, held, rfl⟩, functions_looked_up toString false [] twofold small active held rfl⟩

/-- Of functions that share a name only one is found. -/
theorem overload_not_found :
    let ms := ((create toString false).after []).modules twofold.batch.files
    let u := (((create toString false).after []).perform twofold).1
    u.isActive = true ∧ (∃ m ∈ ms, ∃ f ∈ m.tree.functions, f.name = "f" ∧ f.params.length = 2) ∧
      ∃ text s e, u.symbols = some text ∧ Symbols.read? text = some s ∧ s.lookup none "f" = some e ∧ e.arity = 1 := by
  dsimp only
  obtain ⟨⟨small, active, image⟩, first, second⟩ := twofold_compiles
  have kept : Kept (filesOf ([] ++ [twofold])) ((create toString false).after []) := kept_create toString false
  have hf : ∀ f ∈ twofold.batch.files, f ∈ filesOf ([] ++ [twofold]) := fun _ h =>
    filesOf_concat [] twofold ▸ List.mem_append_right _ h
  obtain ⟨-, text, written, back⟩ := kept.exists_symbols hf small active (length_executable active image) rfl
  obtain ⟨e, first, arity⟩ := Option.map_eq_some_iff.mp first
  -- Which one is found has nothing to do with the unit that the symbols name.
  have found (unit corpusHash : String) :
      (Outline.symbols unit corpusHash ((((create toString false).after []).modules twofold.batch.files).map
        Module.outline)).lookup none "f" = some e := first
  exact ⟨active, second, text, _, e, written, back, found _ _, arity⟩

end Compiler

end ScriptHost
