import Mathlib.Data.List.Induction
import ScriptHost.Corpus.Link
import ScriptHost.Proofs.Corpus.Hooks
import ScriptHost.Proofs.Corpus.Lowered
import ScriptHost.Proofs.Corpus.Module
import ScriptHost.Proofs.Script.Simplified

/-!
# Functions — what the functions of a program come from

A program takes the free functions of a corpus and the methods of a chain one after another.  Each was
compiled from a declaration; a later one takes the place of an earlier one that is called alike, and the
origin kept for a name is that of the last function of that name.
-/

namespace ScriptHost.Corpus

open Declaration (FnDecl)
open Script (BodyObeys Entries isPlainText)

/-- A declaration was compiled to one function, its own. -/
structure Lowered.Defines (l : Lowered) (f : Script.Function) : Prop where
  functions : l.functions = [f]
  name : f.name = l.name
  params : f.params = l.params

theorem Lowered.Defines.unique {l : Lowered} {f g : Script.Function} (h : l.Defines f) (h' : l.Defines g) :
    f = g :=
  (List.cons.inj (h.functions.symm.trans h'.functions)).1

namespace Program

variable {ls : List Lowered} {l : Lowered} {f g : Script.Function} {fs : List Script.Function}

/-! ## 1. Later functions and earlier ones -/

theorem sameCall_iff : sameCall f g = true ↔ f.name = g.name ∧ f.params.length = g.params.length := by
  simp [sameCall]

theorem combine_concat (defines : l.Defines f) : combine (ls ++ [l]) = define (combine ls) f := by
  rw [combine, List.foldl_append]
  show l.functions.foldl define (combine ls) = _
  rw [defines.functions]
  rfl

theorem originsOf_concat : originsOf (ls ++ [l]) = Entries.insert l.name l.origin (originsOf ls) := by
  rw [originsOf, List.foldl_append]
  rfl

theorem forall_mem_concat {P : Lowered → Prop} (h : ∀ x ∈ ls ++ [l], P x) : (∀ x ∈ ls, P x) ∧ P l :=
  ⟨fun x hx => h x (List.mem_append_left _ hx), h l (List.mem_append_right _ (List.mem_singleton_self l))⟩

end Program

/-! ## 2. The functions of a type -/

variable {ms : List Module} {m : Module} {n : Node} {r : Resolved} {l : Lowered}

/-- Everything that goes into the program of a type. -/
def parts (ms : List Module) (ns : List Node) (r : Resolved) : List Lowered :=
  ms.flatMap (·.functions) ++ r.chain.flatMap fun j => ((ns[j]?).map Node.methods).getD []

theorem origins_programOf {ns : List Node} : (programOf ms ns r).origins =
    Program.originsOf (parts ms ns r) := rfl

/-- A type of a corpus is one of a file. -/
theorem exists_of_mem_ofModules (h : n ∈ Node.ofModules ms) :
    ∃ m ∈ ms, ∃ t ∈ m.types, n = ⟨m.path, t.decl, t.methods⟩ := by
  obtain ⟨m, hm, h⟩ := List.mem_flatMap.mp h
  obtain ⟨t, ht, rfl⟩ := List.mem_map.mp h
  exact ⟨m, hm, t, ht, rfl⟩

/-- Whatever goes into a program was compiled with one of the files. -/
theorem exists_of_mem_parts (h : l ∈ parts ms (Node.ofModules ms) r) : ∃ m ∈ ms, l ∈ m.lowered := by
  rcases List.mem_append.mp h with h | h
  · obtain ⟨m, hm, h⟩ := List.mem_flatMap.mp h
    exact ⟨m, hm, List.mem_append_left _ h⟩
  · obtain ⟨j, -, h⟩ := List.mem_flatMap.mp h
    cases hn : (Node.ofModules ms)[j]? with
    | none =>
      rw [hn] at h
      exact absurd h List.not_mem_nil
    | some n =>
      rw [hn] at h
      obtain ⟨m, hm, t, ht, rfl⟩ := exists_of_mem_ofModules (List.mem_of_getElem? hn)
      exact ⟨m, hm, List.mem_append_right _ (List.mem_flatMap.mpr ⟨t, ht, h⟩)⟩

/-- The bodies of the file are plain. -/
def Module.IsPlain (m : Module) : Prop := ∀ d ∈ m.tree.declarations, isPlainText d.body.text.toList = true

/-- Each declaration of the file that was compiled gave one function, its own. -/
def Module.IsSole (m : Module) : Prop :=
  ∀ d ∈ m.tree.declarations, ∀ l, Lowered.ofDecl m.path d = .ok l → ∃ f, l.Defines f

/-- What a plain declaration is compiled to is one function, and its body keeps places in the declaration's
    own text. -/
theorem exists_of_ofDecl {d : FnDecl} (read : m.IsRead) (hd : d ∈ m.tree.declarations)
    (plain : isPlainText d.body.text.toList = true) (compiled : Lowered.ofDecl m.path d = .ok l) :
    ∃ f, l.Defines f ∧ l.origin = Lowered.originOf m.path d ∧ BodyObeys (Lowered.marksOf d) f.body := by
  obtain ⟨p, hp, rfl⟩ := Lowered.compile_of_ofDecl compiled
  obtain ⟨q, hq, rfl⟩ := Lowered.parse_of_compile hp
  obtain ⟨path, content, rfl⟩ := read
  obtain ⟨body, rfl, obeys⟩ := Lowered.parse_textOf (.refl _) hd plain hq
  exact ⟨⟨d.name, d.params, Script.simplifyWhole body⟩, ⟨rfl, rfl, rfl⟩, rfl,
    Script.bodyObeys_simplifyWhole obeys⟩

theorem Module.IsPlain.isSole (plain : m.IsPlain) (read : m.IsRead) : m.IsSole := by
  intro d hd l compiled
  obtain ⟨f, defines, -⟩ := exists_of_ofDecl read hd (plain d hd) compiled
  exact ⟨f, defines⟩

/-- Where each declaration gives one function, so does whatever goes into a program. -/
theorem defines_of_mem_parts (read : ∀ m ∈ ms, m.IsRead) (sole : ∀ m ∈ ms, m.IsSole)
    (h : l ∈ parts ms (Node.ofModules ms) r) : ∃ f, l.Defines f := by
  obtain ⟨m, hm, hl⟩ := exists_of_mem_parts h
  obtain ⟨d, hd, compiled⟩ := Module.declared_of_mem_lowered (read m hm) hl
  exact sole m hm d hd l compiled

end ScriptHost.Corpus
