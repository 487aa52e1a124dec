import ScriptHost.Proofs.Compiler.Gate
import ScriptHost.Proofs.Compiler.History
import ScriptHost.Proofs.Corpus.Module

/-!
# Active — what stands behind an active unit

Whatever a compiler was asked before, the modules of a unit are what texts are read as.  Where the unit is
active nothing is wrong with any of them, and its types are those that linking gave their programs.
-/

namespace ScriptHost

open Corpus (Module)
open Diagnostic (passes passes_append)

namespace Diagnostic

theorem passes_flatMap {α : Type} {f : α → List Diagnostic} {as : List α} :
    passes (as.flatMap f) = true ↔ ∀ a ∈ as, passes (f a) = true := by
  induction as with
  | nil => simp [passes]
  | cons a as ih => rw [List.flatMap_cons, passes_append, Bool.and_eq_true, ih, List.forall_mem_cons]

end Diagnostic

namespace Compiler

variable {c : Compiler} {batch : Batch} {m : Module}

/-- The modules that the files of a corpus are read as. -/
def modules (c : Compiler) (files : List Source) : List Module := (CachedModule.loadAll c.cache files).1

/-- Every module of a corpus is what some text is read as, whatever was kept before. -/
theorem isRead_of_mem_modules {files : List Source} (kept : ∀ e ∈ c.cache, ∃ g, e = .ofSource g)
    (h : m ∈ c.modules files) : m.IsRead := by
  have given := CachedModule.loadAll_gives kept fun f (_ : f ∈ files) => ⟨f, rfl⟩
  rw [modules] at h
  generalize (CachedModule.loadAll c.cache files).1 = ms at given h
  induction given with
  | nil => exact absurd h List.not_mem_nil
  | cons head _ ih =>
    rcases List.mem_cons.mp h with rfl | h
    · obtain ⟨_, ⟨g, rfl⟩, -, rfl⟩ := head
      exact ⟨_, _, rfl⟩
    · exact ih h

/-- Behind any history, what is kept was made of some file. -/
theorem made_of_history (naming : Nat → String) (debugSymbols : Bool) (history : List Compilation) :
    ∀ e ∈ ((create naming debugSymbols).after history).cache, ∃ g, e = CachedModule.ofSource g := by
  intro e he
  have kept : Kept (filesOf history) (create naming debugSymbols) := kept_create naming debugSymbols
  obtain ⟨g, -, made⟩ := (kept.after fun _ h => h).made e he
  exact ⟨g, made⟩

/-- What an active unit was made of. -/
structure Stands (batch : Batch) (ms : List Module) (u : ScriptUnit) : Prop where
  passed : ∀ m ∈ ms, passes m.diagnostics = true
  types : u.types = linkedTypes batch.notes ms
  linked : Corpus.makesPrograms ms (passes (batch.notes ++ ms.flatMap (·.diagnostics))) = true

theorem stands_of_active (active : (c.compile batch).1.isActive = true) :
    Stands batch (c.modules batch.files) (c.compile batch).1 := by
  have same : (c.compile batch).1 = build ⟨c.serial, c.naming c.serial⟩ c.debugSymbols batch.files
      batch.notes (c.modules batch.files) := rfl
  rw [same] at active ⊢
  rcases build_cases ⟨c.serial, c.naming c.serial⟩ c.debugSymbols batch.files batch.notes
    (c.modules batch.files) with ⟨-, h⟩ | ⟨_, -, -, h⟩ | ⟨a, passed, -, h⟩
  · rw [h] at active
    exact absurd active Bool.false_ne_true
  · rw [h] at active
    exact absurd active Bool.false_ne_true
  · have linked := makesPrograms_of_passes passed
    rw [checked, passes_append, passes_append, Bool.and_eq_true, Bool.and_eq_true] at passed
    exact ⟨Diagnostic.passes_flatMap.mp passed.1.2, by rw [h], linked⟩

end Compiler

end ScriptHost
