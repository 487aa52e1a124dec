import ScriptHost.Proofs.Compiler.Cache
import ScriptHost.Proofs.Corpus.Program

/-!
# Gate — a unit is active when nothing that was found is an error

The gate is asked three times: before programs are made, before anything is written, and at the end.
What is found only grows, so that the last answer bounds the others.  `build_cases` says once what a
unit can be; what holds of every unit follows from that.
-/

namespace ScriptHost

open Corpus (Module ScriptType)

/-! ## 1. Passing -/

namespace Diagnostic

theorem passes_iff {ds : List Diagnostic} :
    passes ds = true ↔ ∀ d ∈ ds, d.severity ≠ .error := by
  simp [passes, isError]

theorem passes_singleton (d : Diagnostic) : passes [d] = !d.isError := by
  simp [passes]

end Diagnostic

namespace Compiler

open Diagnostic (passes passes_append passes_iff passes_singleton)

variable {id : UnitId} {debugSymbols : Bool} {files : List Source} {notes : List Diagnostic}
  {ms : List Module} {u : ScriptUnit}

/-! ## 2. The findings of a unit -/

/-- What was found before a unit is written. -/
def checked (notes : List Diagnostic) (ms : List Module) : List Diagnostic :=
  notes ++ ms.flatMap (·.diagnostics) ++ Corpus.linkFindings ms

/-- The types of a unit before it is written. -/
def linkedTypes (notes : List Diagnostic) (ms : List Module) : List ScriptType :=
  (Corpus.link ms (passes (notes ++ ms.flatMap (·.diagnostics)))).types

/-- The summary of a unit in which all of `found` was found. -/
def summary (id : UnitId) (files : List Source) (notes : List Diagnostic) (ms : List Module)
    (found : List Diagnostic) : Diagnostic :=
  ⟨.unitSummary id.text files.length (linkedTypes notes ms).length (Diagnostic.tally found),
    summaryLocation files⟩

theorem summary_isError (found : List Diagnostic) :
    (summary id files notes ms found).isError = false := rfl

/-- A unit that cannot be written is refused with one finding. -/
theorem emit_error {d : Diagnostic} (h : emit id debugSymbols files ms = .error d) :
    d.code = .emitFailure := by
  rw [emit] at h
  split at h
  · exact absurd h (by simp)
  · obtain rfl := Except.error.inj h
    rfl

/-- A refusal is an error, so that a unit which is refused does not pass. -/
theorem passes_refused {d : Diagnostic} (h : d.code = .emitFailure) (found : List Diagnostic) :
    passes (found ++ [d]) = false := by
  have hd : d.severity = .error := by
    rw [Diagnostic.severity, h]
    rfl
  rw [passes_append, passes_singleton, Diagnostic.isError, hd]
  exact Bool.and_false _

/-- A unit can be written where every path is a text. -/
theorem emit_isOk_iff :
    (∃ a, emit id debugSymbols files ms = .ok a) ↔ ∀ f ∈ files, f.path.isText = true := by
  rw [emit, ← List.all_eq_true]
  by_cases text : files.all (·.path.isText) = true
  · rw [if_pos text]
    exact ⟨fun _ => text, fun _ => ⟨_, rfl⟩⟩
  · rw [if_neg text]
    constructor
    · rintro ⟨a, h⟩
      exact absurd h (by simp)
    · exact fun h => absurd h text

/-- A unit that is written has an executable, and symbols where they are asked for. -/
theorem emit_ok {a : Artefacts} (h : emit id debugSymbols files ms = .ok a) :
    a.executable ≠ [] ∧ a.symbols.isSome = debugSymbols := by
  rw [emit] at h
  split at h
  · obtain rfl := Except.ok.inj h
    refine ⟨by simp [Image.encode, Image.putNat], ?_⟩
    cases debugSymbols <;> rfl
  · exact absurd h (by simp)

/-! ## 3. The three ways of a unit -/

/-- A unit is rejected for what was found before it is written, or for not being writable, or it is
    active. -/
theorem build_cases (id : UnitId) (debugSymbols : Bool) (files : List Source)
    (notes : List Diagnostic) (ms : List Module) :
    (passes (checked notes ms) = false ∧
      build id debugSymbols files notes ms =
        { id, corpusHash := Source.corpusHash files
          diagnostics := checked notes ms ++ [summary id files notes ms (checked notes ms)]
          executable := [], symbols := none
          types := (linkedTypes notes ms).map ScriptType.withoutProgram, isActive := false }) ∨
    (∃ d, passes (checked notes ms) = true ∧ emit id debugSymbols files ms = .error d ∧
      build id debugSymbols files notes ms =
        { id, corpusHash := Source.corpusHash files
          diagnostics := checked notes ms ++ [d] ++
            [summary id files notes ms (checked notes ms ++ [d])]
          executable := [], symbols := none
          types := (linkedTypes notes ms).map ScriptType.withoutProgram, isActive := false }) ∨
    (∃ a, passes (checked notes ms) = true ∧ emit id debugSymbols files ms = .ok a ∧
      build id debugSymbols files notes ms =
        { id, corpusHash := Source.corpusHash files
          diagnostics := checked notes ms ++ [summary id files notes ms (checked notes ms)]
          executable := a.executable, symbols := a.symbols
          types := linkedTypes notes ms, isActive := true }) := by
  have found : notes ++ ms.flatMap (·.diagnostics) ++
      (Corpus.link ms (passes (notes ++ ms.flatMap (·.diagnostics)))).diagnostics =
        checked notes ms := rfl
  -- The second answer decides whether anything is written, and writing is the last thing to go wrong.
  by_cases passed : passes (checked notes ms) = true
  · cases he : emit id debugSymbols files ms with
    | error d =>
      have refused := passes_refused (emit_error he) (checked notes ms)
      right; left
      refine ⟨d, passed, rfl, ?_⟩
      simp only [build, found, passed, if_true, he, refused]
      rfl
    | ok a =>
      right; right
      refine ⟨a, passed, rfl, ?_⟩
      simp only [build, found, passed, if_true, he, List.append_nil]
      rfl
  · have failed := Bool.eq_false_iff.mpr passed
    left
    refine ⟨failed, ?_⟩
    simp only [build, found, failed, Bool.false_eq_true, if_false, List.append_nil]
    rfl

/-! ## 4. What the gate promises -/

/-- What writing a unit adds to what was found: the one reason why it is not written.  Nothing is tried
    where there is an error already. -/
inductive Refusal (found : List Diagnostic) (written : Except Diagnostic Artefacts) :
    List Diagnostic → Prop where
  | untried (failed : Diagnostic.passes found = false) : Refusal found written []
  | written {a : Artefacts} (passed : Diagnostic.passes found = true) (done : written = .ok a) :
      Refusal found written []
  | refused {d : Diagnostic} (passed : Diagnostic.passes found = true) (undone : written = .error d)
      (code : d.code = .emitFailure) : Refusal found written [d]

/-- The summary of a unit: it counts what was found before it, severity by severity, and tells the counts. -/
structure Summarizes (u : ScriptUnit) (files : List Source) (found : List Diagnostic) (d : Diagnostic) : Prop where
  code : d.code.id = "KS0900"
  severity : d.severity = .info
  location : d.location = summaryLocation files
  finding : d.finding = .unitSummary u.id.text files.length u.types.length
    { errors := found.countP (·.severity = .error)
      warnings := found.countP (·.severity = .warning)
      infos := found.countP (·.severity = .info) }
  message :
    let (unit, sources, types) := (u.id.text, files.length, u.types.length)
    let errors := found.countP (·.severity = .error)
    let warnings := found.countP (·.severity = .warning)
    let infos := found.countP (·.severity = .info)
    d.message = s!"unit {unit}: {sources} file(s), {types} type(s), " ++
      s!"{errors} error(s), {warnings} warning(s), {infos} info"

/-- The promises about a unit of a corpus whose files were read as `ms`. -/
structure Gated (debugSymbols : Bool) (batch : Batch) (ms : List Module) (u : ScriptUnit) : Prop where
  isActive_eq : u.isActive = u.passed
  passed_iff : u.passed = true ↔ ∀ d ∈ u.diagnostics, d.severity ≠ .error
  /-- Every declared type is there, whether the unit is active or not. -/
  names : u.types.map (·.name) = (Corpus.Node.ofModules ms).map Corpus.Node.name
  /-- A rejected unit has nothing to run. -/
  rejected : u.isActive = false →
    u.executable = [] ∧ u.symbols = none ∧ ∀ t ∈ u.types, t.program = none
  /-- An active one has all there is to have. -/
  active : u.isActive = true →
    u.executable ≠ [] ∧ u.symbols.isSome = debugSymbols ∧
      ∀ t ∈ u.types, t.program.isSome = true ↔ t.isBehaviour = true ∧ t.isAbstract = false
  /-- Only a path that is no text keeps a unit from being written. -/
  writable_iff : (∃ a, emit u.id debugSymbols batch.files ms = .ok a) ↔
    ∀ f ∈ batch.files, f.path.isText = true
  /-- What is found stands in the order of the stages, and the summary counts all of it. -/
  reported : ∃ refused last,
    let found := batch.notes ++ ms.flatMap (·.diagnostics) ++ Corpus.linkFindings ms
    Refusal found (emit u.id debugSymbols batch.files ms) refused ∧
      u.diagnostics = found ++ refused ++ [last] ∧ Summarizes u batch.files (found ++ refused) last

theorem withoutProgram_program {ts : List ScriptType} {t : ScriptType}
    (h : t ∈ ts.map ScriptType.withoutProgram) : t.program = none := by
  obtain ⟨t', -, rfl⟩ := List.mem_map.mp h
  rfl

theorem withoutProgram_names (ts : List ScriptType) :
    (ts.map ScriptType.withoutProgram).map (·.name) = ts.map (·.name) := by
  rw [List.map_map]
  rfl

theorem linkedTypes_names (notes : List Diagnostic) (ms : List Module) :
    (linkedTypes notes ms).map (·.name) = (Corpus.Node.ofModules ms).map Corpus.Node.name :=
  Corpus.types_names _ _

/-- The summary is no error, so that it never changes the answer. -/
theorem passes_with_summary (found : List Diagnostic) :
    passes (found ++ [summary id files notes ms found]) = passes found := by
  rw [passes_append, passes_singleton, summary_isError, Bool.not_false, Bool.and_true]

/-- Where nothing is wrong, linking was asked for programs and made them. -/
theorem makesPrograms_of_passes (passed : passes (checked notes ms) = true) :
    Corpus.makesPrograms ms (passes (notes ++ ms.flatMap (·.diagnostics))) = true := by
  rw [checked, passes_append] at passed
  exact passed

theorem summary_summarizes {found : List Diagnostic} (hid : u.id = id)
    (types : u.types.length = (linkedTypes notes ms).length) :
    Summarizes u files found (summary id files notes ms found) where
  code := rfl
  severity := rfl
  location := rfl
  finding := by
    rw [hid, types]
    rfl
  message := by
    rw [hid, types]
    rfl

/-- A unit with an error, whatever it was found by. -/
theorem gated_of_rejected {batch : Batch} {refused : List Diagnostic}
    (failed : passes (checked batch.notes ms ++ refused) = false)
    (refusal : Refusal (checked batch.notes ms) (emit id debugSymbols batch.files ms) refused)
    (hash : String) :
    Gated debugSymbols batch ms
      { id, corpusHash := hash
        diagnostics := checked batch.notes ms ++ refused ++
          [summary id batch.files batch.notes ms (checked batch.notes ms ++ refused)]
        executable := [], symbols := none
        types := (linkedTypes batch.notes ms).map ScriptType.withoutProgram, isActive := false } where
  isActive_eq := by
    rw [ScriptUnit.passed, passes_with_summary]
    exact failed.symm
  passed_iff := passes_iff
  names := (withoutProgram_names _).trans (linkedTypes_names _ _)
  rejected := fun _ => ⟨rfl, rfl, fun _ h => withoutProgram_program h⟩
  active := fun h => absurd h Bool.false_ne_true
  writable_iff := emit_isOk_iff
  reported := ⟨refused, _, refusal, rfl, summary_summarizes rfl (List.length_map ..)⟩

/-- A unit without an error. -/
theorem gated_of_written {batch : Batch} {a : Artefacts}
    (passed : passes (checked batch.notes ms) = true)
    (done : emit id debugSymbols batch.files ms = .ok a) (hash : String) :
    Gated debugSymbols batch ms
      { id, corpusHash := hash
        diagnostics := checked batch.notes ms ++
          [summary id batch.files batch.notes ms (checked batch.notes ms)]
        executable := a.executable, symbols := a.symbols
        types := linkedTypes batch.notes ms, isActive := true } where
  isActive_eq := by
    rw [ScriptUnit.passed, passes_with_summary]
    exact passed.symm
  passed_iff := passes_iff
  names := linkedTypes_names _ _
  rejected := fun h => absurd h.symm Bool.false_ne_true
  active := by
    intro _
    obtain ⟨executable, symbols⟩ := emit_ok done
    refine ⟨executable, symbols, fun t ht => ?_⟩
    rw [Corpus.isSome_program_of_makes (makesPrograms_of_passes passed) ht]
    simp [ScriptType.isInstantiable]
  writable_iff := emit_isOk_iff
  reported := by
    refine ⟨[], summary id batch.files batch.notes ms (checked batch.notes ms), .written passed done, ?_⟩
    rw [List.append_nil]
    exact ⟨rfl, summary_summarizes rfl rfl⟩

theorem build_gated (id : UnitId) (debugSymbols : Bool) (batch : Batch) (ms : List Module) :
    Gated debugSymbols batch ms (build id debugSymbols batch.files batch.notes ms) := by
  rcases build_cases id debugSymbols batch.files batch.notes ms with
    ⟨failed, h⟩ | ⟨d, passed, undone, h⟩ | ⟨a, passed, done, h⟩
  · -- Nothing was tried, so that there is no refusal to append.
    have failed' : passes (checked batch.notes ms ++ []) = false := by
      rw [List.append_nil]
      exact failed
    have untried : Refusal (checked batch.notes ms) (emit id debugSymbols batch.files ms) [] :=
      .untried failed
    have gated := gated_of_rejected failed' untried (Source.corpusHash batch.files)
    rw [List.append_nil] at gated
    rw [h]
    exact gated
  · rw [h]
    exact gated_of_rejected (passes_refused (emit_error undone) _)
      (.refused passed undone (emit_error undone)) _
  · rw [h]
    exact gated_of_written passed done _

/-- The summary stands last and counts the rest. -/
theorem Gated.ends {batch : Batch} (h : Gated debugSymbols batch ms u) :
    ∃ found last, u.diagnostics = found ++ [last] ∧ Summarizes u batch.files found last := by
  obtain ⟨refused, last, -, stands, summarized⟩ := h.reported
  exact ⟨_, last, stands, summarized⟩

/-- What linking says is said of the unit. -/
theorem Gated.mem_of_linkFindings {batch : Batch} {d : Diagnostic}
    (h : Gated debugSymbols batch ms u) (hd : d ∈ Corpus.linkFindings ms) : d ∈ u.diagnostics := by
  obtain ⟨refused, last, -, found, -⟩ := h.reported
  rw [found]
  exact List.mem_append_left _ (List.mem_append_left _ (List.mem_append_right _ hd))

theorem build_id : (build id debugSymbols files notes ms).id = id := by
  rcases build_cases id debugSymbols files notes ms with ⟨-, h⟩ | ⟨_, -, -, h⟩ | ⟨_, -, -, h⟩ <;> rw [h]

theorem compile_id (c : Compiler) (batch : Batch) : (c.compile batch).1.id = ⟨c.serial, c.naming c.serial⟩ :=
  build_id

/-- Whatever programs a unit has go by the names of their types. -/
theorem build_typeName {t : ScriptType} {p : Corpus.Program}
    (ht : t ∈ (build id debugSymbols files notes ms).types) (hp : t.program = some p) :
    p.typeName = t.name := by
  rcases build_cases id debugSymbols files notes ms with ⟨-, h⟩ | ⟨_, -, -, h⟩ | ⟨_, -, -, h⟩
  · rw [h] at ht
    rw [withoutProgram_program ht] at hp
    exact absurd hp.symm (Option.some_ne_none p)
  · rw [h] at ht
    rw [withoutProgram_program ht] at hp
    exact absurd hp.symm (Option.some_ne_none p)
  · rw [h] at ht
    exact Corpus.typeName_program ht hp

/-- The gate holds for every state of a compiler: each file is read as an entry says that was kept for
    its path and digest or made just now, and the unit of what was read keeps the promises. -/
theorem compile_gated (c : Compiler) (batch : Batch) :
    let ms := (CachedModule.loadAll c.cache batch.files).1
    List.Forall₂ (CachedModule.Gives fun e => e ∈ c.cache ∨ ∃ f ∈ batch.files, e = .ofSource f)
        batch.files ms ∧
      Gated c.debugSymbols batch ms (c.compile batch).1 := by
  intro ms
  refine ⟨CachedModule.loadAll_gives ?_ ?_, build_gated _ _ batch ms⟩
  · exact fun _ h => .inl h
  · exact fun f h => .inr ⟨f, h, rfl⟩

/-- A lamp that shines. -/
def lampOnly : Batch where
  files := [⟨"lamp.ks", "type Lamp : Behaviour \x7b fn update(ctx, dt) \x7b \x7d \x7d", .time 0⟩]
  notes := []

/-- The lamp beside a torch whose base is missing, in a file that says more than it needs. -/
def lampAndTorch : Batch where
  files := lampOnly.files ++
    [⟨"torch.ks", "use math;\ntype Torch : Candle \x7b \x7d\ntype Wick \x7b let length: float; \x7d", .time 0⟩]
  notes := [⟨.sourceVanished, .fileStart "hood.ks"⟩]

/-- With the torch the lamp has no program either, and the summary counts the error, the warning and the
    remarks. -/
theorem lamp_and_torch_gated :
    let c := create (fun _ => "lamps") true
    let u := (c.compile lampOnly).1
    let v := (c.compile lampAndTorch).1
    (u.isActive = true ∧ u.executable ≠ [] ∧ u.symbols.isSome = true ∧ ∀ t ∈ u.types, t.program.isSome = true) ∧
      v.isActive = false ∧ v.executable = [] ∧ v.symbols = none ∧ (∀ t ∈ v.types, t.program = none) ∧
      v.types.map (·.name) = ["Lamp", "Torch", "Wick"] ∧
      ∃ d ∈ v.diagnostics, d.finding = .unitSummary "lamps" 2 3 ⟨1, 1, 2⟩ := by
  dsimp only
  let c := create (fun _ => "lamps") true
  have hu := (compile_gated c lampOnly).2
  have hv := (compile_gated c lampAndTorch).2
  have hid := compile_id c lampAndTorch
  -- Only what no theorem says of every unit is computed: what was found, and what there is.
  obtain ⟨fine, found, names⟩ : ((c.compile lampOnly).1.isActive = true ∧
      ∀ t ∈ (c.compile lampOnly).1.types, t.isBehaviour = true ∧ t.isAbstract = false) ∧
      (c.compile lampAndTorch).1.diagnostics.map (·.severity) = [.info, .warning, .error, .info, .info] ∧
      (c.compile lampAndTorch).1.types.map (·.name) = ["Lamp", "Torch", "Wick"] := by
    decide +kernel
  generalize (c.compile lampOnly).1 = u at *
  generalize (c.compile lampAndTorch).1 = v at *
  obtain ⟨executable, symbols, programs⟩ := hu.active fine.1
  have inactive : v.isActive = false := by
    have error : Severity.error ∈ v.diagnostics.map (·.severity) := by
      rw [found]
      decide
    obtain ⟨d, hd, isError⟩ := List.mem_map.mp error
    rw [hv.isActive_eq]
    exact Bool.eq_false_iff.mpr fun passed => hv.passed_iff.mp passed d hd isError
  obtain ⟨nothing, noSymbols, noPrograms⟩ := hv.rejected inactive
  refine ⟨⟨fine.1, executable, symbols, fun t ht => (programs t ht).mpr (fine.2 t ht)⟩,
    inactive, nothing, noSymbols, noPrograms, names, ?_⟩
  -- The summary counts what stands in front of it.
  obtain ⟨before, last, stands, summarized⟩ := hv.ends
  rw [stands, List.map_append] at found
  have parts : before.map (·.severity) ++ [last.severity] = [.info, .warning, .error, .info] ++ [.info] := found
  have severities := (List.append_inj' parts rfl).1
  have counts (s : Severity) : before.countP (·.severity = s) =
      [Severity.info, .warning, .error, .info].countP (· = s) := by
    rw [← severities, List.countP_map]
    rfl
  have three : v.types.length = 3 := by
    rw [← List.length_map, names]
    rfl
  refine ⟨last, ?_, ?_⟩
  · rw [stands]
    exact List.mem_append_right _ List.mem_cons_self
  · rw [summarized.finding, counts, counts, counts, three, hid]
    rfl

end Compiler

end ScriptHost
