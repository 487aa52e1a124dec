import ScriptHost.Proofs.Compiler.Cache

/-!
# History — what a compiler was asked before

A compiler keeps the files it has read.  Whatever corpora came before, the unit of a corpus is the one
that a new compiler makes of it, and what is kept afterwards is one entry for each of its paths.  This
takes two things: no two texts share a digest, and files of one path and one text spell the path alike,
for what is kept of a file keeps the spelling too.
-/

namespace ScriptHost

open Corpus (Module)

/-! ## 1. Paths -/

namespace SourcePath

variable {p q r : SourcePath}

theorem same_iff :
    p.same q = true ↔ Path.components p.shown = Path.components q.shown ∧ p.stray = q.stray := by
  simp [same, Path.same]

theorem same_refl (p : SourcePath) : p.same p = true := same_iff.mpr ⟨rfl, rfl⟩

theorem same_symm (h : p.same q = true) : q.same p = true := by
  obtain ⟨parts, stray⟩ := same_iff.mp h
  exact same_iff.mpr ⟨parts.symm, stray.symm⟩

theorem same_trans (h : p.same q = true) (h' : q.same r = true) : p.same r = true := by
  obtain ⟨parts, stray⟩ := same_iff.mp h
  obtain ⟨parts', stray'⟩ := same_iff.mp h'
  exact same_iff.mpr ⟨parts.trans parts', stray.trans stray'⟩

end SourcePath

/-! ## 2. What is kept -/

namespace CachedModule

variable {cache : List CachedModule} {c : CachedModule} {f : Source} {files : List Source}
  {p : SourcePath}

/-- No two entries stand for one path. -/
def Distinct (cache : List CachedModule) : Prop := cache.Pairwise fun c d => ¬ c.path.same d.path = true

/-- Some entry stands for the path. -/
def Held (cache : List CachedModule) (p : SourcePath) : Prop := ∃ c ∈ cache, c.path.same p = true

theorem Distinct.put (h : Distinct cache) (c : CachedModule) : Distinct (put cache c) := by
  refine List.pairwise_append.mpr ⟨h.sublist List.filter_sublist, List.pairwise_singleton _ _, ?_⟩
  intro d hd e he
  obtain rfl := List.mem_singleton.mp he
  have differs := (List.mem_filter.mp hd).2
  simpa using differs

theorem Held.put (h : Held cache p) (c : CachedModule) : Held (put cache c) p := by
  obtain ⟨d, hd, same⟩ := h
  by_cases replaced : d.path.same c.path = true
  · -- The entry goes, but the one that takes its place stands for the same path.
    refine ⟨c, List.mem_append_right _ (List.mem_singleton_self c), ?_⟩
    exact SourcePath.same_trans (SourcePath.same_symm replaced) same
  · refine ⟨d, List.mem_append_left _ (List.mem_filter.mpr ⟨hd, ?_⟩), same⟩
    simpa using replaced

theorem held_put (cache : List CachedModule) (c : CachedModule) : Held (put cache c) c.path :=
  ⟨c, List.mem_append_right _ (List.mem_singleton_self c), SourcePath.same_refl c.path⟩

theorem Distinct.load (h : Distinct cache) (f : Source) : Distinct (load cache f).2 := by
  rcases load_cases cache f with ⟨c, -, -, hl⟩ | hl
  · rw [hl]
    exact h
  · rw [hl]
    exact h.put _

theorem Held.load (h : Held cache p) (f : Source) : Held (load cache f).2 p := by
  rcases load_cases cache f with ⟨c, -, -, hl⟩ | hl
  · rw [hl]
    exact h
  · rw [hl]
    exact h.put _

theorem held_load (cache : List CachedModule) (f : Source) : Held (load cache f).2 f.path := by
  rcases load_cases cache f with ⟨c, hc, covers, hl⟩ | hl
  · rw [hl]
    exact ⟨c, hc, (Bool.and_eq_true_iff.mp covers).1⟩
  · rw [hl]
    exact held_put cache (ofSource f)

/-- Reading files keeps the paths distinct. -/
theorem Distinct.loadAll (h : Distinct cache) (files : List Source) :
    Distinct (loadAll cache files).2 := by
  induction files generalizing cache with
  | nil => exact h
  | cons f files ih => exact ih (h.load f)

theorem Held.loadAll (h : Held cache p) (files : List Source) : Held (loadAll cache files).2 p := by
  induction files generalizing cache with
  | nil => exact h
  | cons f files ih => exact ih (h.load f)

/-- Every file that was read is held. -/
theorem held_loadAll (cache : List CachedModule) (hf : f ∈ files) :
    Held (loadAll cache files).2 f.path := by
  induction files generalizing cache with
  | nil => exact absurd hf List.not_mem_nil
  | cons g files ih =>
    rcases List.mem_cons.mp hf with rfl | hf
    · exact (held_load cache f).loadAll files
    · exact ih _ hf

theorem mem_load (h : c ∈ (load cache f).2) : c ∈ cache ∨ c = ofSource f := by
  rcases load_cases cache f with ⟨d, -, -, hl⟩ | hl
  · rw [hl] at h
    exact .inl h
  · rw [hl] at h
    exact mem_put h

/-- What is held was held before, or made of one of the files. -/
theorem mem_loadAll (h : c ∈ (loadAll cache files).2) :
    c ∈ cache ∨ ∃ f ∈ files, c = ofSource f := by
  induction files generalizing cache with
  | nil => exact .inl h
  | cons f files ih =>
    rcases ih h with hc | ⟨g, hg, rfl⟩
    · rcases mem_load hc with hc | rfl
      · exact .inl hc
      · exact .inr ⟨f, List.mem_cons_self, rfl⟩
    · exact .inr ⟨g, List.mem_cons_of_mem f hg, rfl⟩

/-- One entry for each path of a corpus, and no other. -/
structure Exact (cache : List CachedModule) (files : List Source) : Prop where
  one : ∀ f ∈ files, (cache.filter (·.path.same f.path)).length = 1
  only : ∀ c ∈ cache, ∃ f ∈ files, f.path.same c.path = true

/-- Entries for one path are one entry at most. -/
theorem Distinct.length_filter_le (h : Distinct cache) (p : SourcePath) :
    (cache.filter (·.path.same p)).length ≤ 1 := by
  have distinct : Distinct (cache.filter (·.path.same p)) := h.sublist List.filter_sublist
  have same : ∀ c ∈ cache.filter (·.path.same p), c.path.same p = true :=
    fun c hc => (List.mem_filter.mp hc).2
  generalize cache.filter (·.path.same p) = entries at distinct same
  match entries with
  | [] => exact Nat.zero_le 1
  | [_] => exact Nat.le_refl 1
  | c :: d :: rest =>
    have differ := (List.pairwise_cons.mp distinct).1 d List.mem_cons_self
    have agree := SourcePath.same_trans (same c List.mem_cons_self)
      (SourcePath.same_symm (same d (List.mem_cons_of_mem c List.mem_cons_self)))
    exact absurd agree differ

theorem Held.length_filter_pos (h : Held cache p) : 0 < (cache.filter (·.path.same p)).length := by
  obtain ⟨c, hc, same⟩ := h
  exact List.length_pos_of_mem (List.mem_filter.mpr ⟨hc, same⟩)

theorem Held.retain (h : Held cache f.path) (hf : f ∈ files) : Held (retain cache files) f.path := by
  obtain ⟨c, hc, same⟩ := h
  refine ⟨c, List.mem_filter.mpr ⟨hc, ?_⟩, same⟩
  exact List.any_eq_true.mpr ⟨f, hf, SourcePath.same_symm same⟩

/-- What is kept of distinct entries after a corpus was read. -/
theorem exact_retain (h : Distinct cache) (files : List Source) :
    Exact (retain (loadAll cache files).2 files) files where
  one := by
    intro f hf
    have distinct : Distinct (retain (loadAll cache files).2 files) :=
      (h.loadAll files).sublist List.filter_sublist
    have most := distinct.length_filter_le f.path
    have least := ((held_loadAll cache hf).retain hf).length_filter_pos
    omega
  only := by
    intro c hc
    exact List.any_eq_true.mp (List.mem_filter.mp hc).2

end CachedModule

/-! ## 3. Consistent files -/

/-- Files that a digest tells apart, and whose paths are spelled alike where path and text are the same. -/
structure Source.Consistent (files : List Source) : Prop where
  digests : ∀ f ∈ files, ∀ g ∈ files, contentDigest f.content = contentDigest g.content →
    f.content = g.content
  spelling : ∀ f ∈ files, ∀ g ∈ files, f.path.same g.path = true → f.content = g.content →
    f.path.shown = g.path.shown

namespace CachedModule

variable {known files : List Source} {cache : List CachedModule}

/-- An entry made of one consistent file gives another what reading it would give. -/
theorem module_of_covers {f g : Source} (h : Source.Consistent known) (hf : f ∈ known) (hg : g ∈ known)
    (covers : (ofSource g).covers f = true) :
    (ofSource g).module = Module.read f.path.shown f.content := by
  obtain ⟨path, digest⟩ := Bool.and_eq_true_iff.mp covers
  have content : g.content = f.content := h.digests g hg f hf (beq_iff_eq.mp digest)
  have shown : g.path.shown = f.path.shown := h.spelling g hg f hf path content
  show Module.read g.path.shown g.content = Module.read f.path.shown f.content
  rw [content, shown]

/-- Files are read as if nothing had been kept. -/
theorem loadAll_eq_read (h : Source.Consistent known) (kept : ∀ c ∈ cache, ∃ g ∈ known, c = ofSource g)
    (hf : ∀ f ∈ files, f ∈ known) :
    (loadAll cache files).1 = files.map fun f => Module.read f.path.shown f.content := by
  have given := loadAll_gives kept fun f hf' => ⟨f, hf f hf', rfl⟩
  generalize (loadAll cache files).1 = ms at given
  induction given with
  | nil => rfl
  | cons head _ ih =>
    obtain ⟨c, ⟨g, hg, rfl⟩, covers, rfl⟩ := head
    rw [List.map_cons, ih fun f hf' => hf f (List.mem_cons_of_mem _ hf'),
      module_of_covers h (hf _ List.mem_cons_self) hg covers]

end CachedModule

/-! ## 4. Histories -/

/-- What a compiler is asked: a corpus with its notes, and whether symbols are wanted. -/
structure Compilation where
  batch : Batch
  debugSymbols : Bool
deriving Inhabited

namespace Compiler

open CachedModule (Distinct Exact)

variable {c : Compiler} {history : List Compilation} {now : Compilation} {known : List Source}

/-- Compiles with symbols switched as asked. -/
def perform (c : Compiler) (now : Compilation) : ScriptUnit × Compiler :=
  { c with debugSymbols := now.debugSymbols }.compile now.batch

/-- The compiler behind a history. -/
def after (c : Compiler) (history : List Compilation) : Compiler :=
  history.foldl (fun c now => (c.perform now).2) c

/-- The files of a history. -/
def filesOf (history : List Compilation) : List Source := history.flatMap (·.batch.files)

theorem filesOf_concat (history : List Compilation) (now : Compilation) :
    filesOf (history ++ [now]) = filesOf history ++ now.batch.files := by
  rw [filesOf, List.flatMap_append, List.flatMap_singleton]
  rfl

/-- The number of a unit is all that hangs on how many came before it. -/
theorem build_serial (serial serial' : Nat) (name : String) (debugSymbols : Bool) (files : List Source)
    (notes : List Diagnostic) (ms : List Module) :
    { build ⟨serial, name⟩ debugSymbols files notes ms with id := ⟨serial', name⟩ } =
      build ⟨serial', name⟩ debugSymbols files notes ms := rfl

/-- What a compiler keeps that read only `known` files: entries for distinct paths, each made of one of
    these files. -/
structure Kept (known : List Source) (c : Compiler) : Prop where
  distinct : Distinct c.cache
  made : ∀ e ∈ c.cache, ∃ g ∈ known, e = CachedModule.ofSource g

theorem kept_create (naming : Nat → String) (debugSymbols : Bool) :
    Kept known (create naming debugSymbols) where
  distinct := .nil
  made := fun _ h => absurd h List.not_mem_nil

/-- One compilation of known files adds entries made of them only. -/
theorem Kept.perform (h : Kept known c) (hf : ∀ f ∈ now.batch.files, f ∈ known) :
    Kept known (c.perform now).2 where
  distinct := (h.distinct.loadAll now.batch.files).sublist List.filter_sublist
  made := by
    intro e he
    rcases CachedModule.mem_loadAll (List.mem_filter.mp he).1 with he | ⟨f, hf', rfl⟩
    · exact h.made e he
    · exact ⟨f, hf f hf', rfl⟩

theorem Kept.after (h : Kept known c) (hf : ∀ f ∈ filesOf history, f ∈ known) :
    Kept known (c.after history) := by
  induction history generalizing c with
  | nil => exact h
  | cons now history ih =>
    have head : ∀ f ∈ now.batch.files, f ∈ known := fun f hn =>
      hf f (List.mem_flatMap.mpr ⟨now, List.mem_cons_self, hn⟩)
    have tail : ∀ f ∈ filesOf history, f ∈ known := fun f hn => by
      obtain ⟨past, hp, hn⟩ := List.mem_flatMap.mp hn
      exact hf f (List.mem_flatMap.mpr ⟨past, List.mem_cons_of_mem now hp, hn⟩)
    exact ih (h.perform head) tail

/-- With entries of consistent files, a compiler makes the unit that a new one makes under the name that
    is drawn for it. -/
theorem Kept.unit_eq (h : Kept known c) (consistent : Source.Consistent known)
    (hf : ∀ f ∈ now.batch.files, f ∈ known) :
    let u := (c.perform now).1
    let new := (create (fun _ => u.id.text) now.debugSymbols).compile now.batch
    { u with id := new.1.id } = new.1 := by
  intro u new
  have mine := CachedModule.loadAll_eq_read consistent h.made hf
  have anew : (CachedModule.loadAll [] now.batch.files).1 = _ :=
    CachedModule.loadAll_eq_read consistent (fun _ h => absurd h List.not_mem_nil) hf
  show { build ⟨c.serial, c.naming c.serial⟩ now.debugSymbols now.batch.files now.batch.notes
        (CachedModule.loadAll c.cache now.batch.files).1 with id := ⟨0, c.naming c.serial⟩ } =
    build ⟨0, c.naming c.serial⟩ now.debugSymbols now.batch.files now.batch.notes
      (CachedModule.loadAll [] now.batch.files).1
  rw [mine, anew, build_serial]

/-- In a history of consistent files, each unit is the one that a new compiler makes of its corpus alone,
    and each time one entry is kept for each path of the corpus, and no other. -/
theorem history_unobservable (naming : Nat → String) (debugSymbols : Bool) (history : List Compilation)
    (consistent : Source.Consistent (filesOf history)) (k : Nat) (now : Compilation)
    (hk : history[k]? = some now) :
    let c := (create naming debugSymbols).after (history.take k)
    let u := (c.perform now).1
    let new := (create (fun _ => u.id.text) now.debugSymbols).compile now.batch
    { u with id := new.1.id } = new.1 ∧ Exact (c.perform now).2.cache now.batch.files := by
  intro c u new
  have past : ∀ f ∈ filesOf (history.take k), f ∈ filesOf history := fun f h => by
    obtain ⟨before, hb, hf⟩ := List.mem_flatMap.mp h
    exact List.mem_flatMap.mpr ⟨before, List.mem_of_mem_take hb, hf⟩
  have here : ∀ f ∈ now.batch.files, f ∈ filesOf history := fun f hf =>
    List.mem_flatMap.mpr ⟨now, List.mem_of_getElem? hk, hf⟩
  have kept : Kept (filesOf history) c := (kept_create naming debugSymbols).after past
  exact ⟨kept.unit_eq consistent here, CachedModule.exact_retain kept.distinct _⟩

/-- A file that is edited, joined by another with its old text, and put back as it was, while symbols are
    switched on for once. -/
def editedAndReverted : List Compilation := [
  ⟨⟨[⟨"a.ks", "x", .time 0⟩], []⟩, false⟩,
  ⟨⟨[⟨"a.ks", "fn f() \x7b\x7d", .time 1⟩, ⟨"b.ks", "x", .time 1⟩], []⟩, true⟩,
  ⟨⟨[⟨"a.ks", "x", .time 2⟩], []⟩, false⟩]

/-- Behind the edit the unit of the first text is the one that a new compiler makes of it, and the other
    file is forgotten. -/
theorem reverted_file_unobserved :
    let last : Compilation := ⟨⟨[⟨"a.ks", "x", .time 2⟩], []⟩, false⟩
    let c := (create toString false).after (editedAndReverted.take 2)
    let u := (c.perform last).1
    let new := (create (fun _ => u.id.text) last.debugSymbols).compile last.batch
    (Source.Consistent (filesOf editedAndReverted) ∧ editedAndReverted[2]? = some last) ∧
      { u with id := new.1.id } = new.1 ∧ Exact (c.perform last).2.cache last.batch.files := by
  intro last
  have differ : contentDigest "x" ≠ contentDigest "fn f() \x7b\x7d" := by decide +kernel
  have consistent : Source.Consistent (filesOf editedAndReverted) := by
    constructor
    · simp [filesOf, editedAndReverted, differ, differ.symm]
    · decide
  have found : editedAndReverted[2]? = some last := rfl
  have unobserved := history_unobservable toString false editedAndReverted consistent 2 last found
  exact ⟨⟨consistent, found⟩, unobserved⟩

/-- A path that is spelled anew is reported as it was spelled before, where a new compiler reports it as
    it is spelled now. -/
theorem spelling_of_another_corpus_observed :
    let past : Compilation := ⟨⟨[⟨"s//a.ks", "x", .time 0⟩], []⟩, false⟩
    let now : Compilation := ⟨⟨[⟨"s/a.ks", "x", .time 0⟩], []⟩, false⟩
    let u := (((create toString false).after [past]).perform now).1
    let new := ((create toString false).perform now).1
    u.diagnostics.head?.map (·.location.path) = some "s//a.ks" ∧
      new.diagnostics.head?.map (·.location.path) = some "s/a.ks" := by
  decide +kernel

end Compiler

end ScriptHost
