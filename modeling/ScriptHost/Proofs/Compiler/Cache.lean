import Mathlib.Data.List.Forall2
import ScriptHost.Compiler

/-!
# Cache — what the compiler has of the files of a corpus

For each file the compiler takes a module that covers it: one that was read from the same path and the
same digest, whether it was read just now or kept from before.
-/

namespace ScriptHost.CachedModule

open Corpus (Module)

variable {cache : List CachedModule} {c d : CachedModule} {f : Source} {files : List Source}

theorem ofSource_covers (f : Source) : (ofSource f).covers f = true := by
  simp [ofSource, covers, SourcePath.same, Path.same]

theorem mem_put (h : d ∈ put cache c) : d ∈ cache ∨ d = c := by
  rcases List.mem_append.mp h with h | h
  · exact .inl (List.mem_filter.mp h).1
  · exact .inr (List.mem_singleton.mp h)

/-- A file is taken from the cache as it is there, or read and put there. -/
theorem load_cases (cache : List CachedModule) (f : Source) :
    (∃ c ∈ cache, c.covers f = true ∧ load cache f = (c.module, cache)) ∨
      load cache f = ((ofSource f).module, put cache (ofSource f)) := by
  cases hc : (find? cache f.path).filter (·.covers f) with
  | none =>
    right
    simp only [load, hc]
  | some c =>
    left
    obtain ⟨hf, covers⟩ := Option.filter_eq_some_iff.mp hc
    exact ⟨c, List.mem_of_find?_eq_some hf, covers, by simp only [load, hc]⟩

/-- Among the entries there may be, one that covers a file gives the module of it. -/
def Gives (entry : CachedModule → Prop) (f : Source) (m : Module) : Prop :=
  ∃ c, entry c ∧ c.covers f = true ∧ c.module = m

/-- The modules stand in the order of the files, each of them given by an entry that was there before
    or that one of the files makes. -/
theorem loadAll_gives {entry : CachedModule → Prop} (known : ∀ c ∈ cache, entry c)
    (made : ∀ f ∈ files, entry (ofSource f)) :
    List.Forall₂ (Gives entry) files (loadAll cache files).1 := by
  -- On the files, for every cache: a file that is read now may be kept for a later one.
  induction files generalizing cache with
  | nil => exact .nil
  | cons f files ih =>
    have head := made f List.mem_cons_self
    have tail : ∀ g ∈ files, entry (ofSource g) := fun g hg => made g (List.mem_cons_of_mem f hg)
    rcases load_cases cache f with ⟨c, hc, covers, hl⟩ | hl
    · have later := ih known tail
      simp only [loadAll, hl]
      exact .cons ⟨c, known c hc, covers, rfl⟩ later
    · have known' : ∀ c ∈ put cache (ofSource f), entry c := by
        intro c hc
        rcases mem_put hc with hc | rfl
        · exact known c hc
        · exact head
      have later := ih known' tail
      simp only [loadAll, hl]
      exact .cons ⟨ofSource f, head, ofSource_covers f, rfl⟩ later

end ScriptHost.CachedModule
