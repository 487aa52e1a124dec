import ScriptHost.Proofs.Files.Way
import Mathlib.Data.Nat.Init

/-!
# History — files that are changed step by step

Others change the files while the host looks at them.  A history is any run of such changes, each of
which takes effect as a whole or not at all.  Where no write gives a file a time that it had before, a
file that has one time at two moments was not touched between them.
-/

namespace ScriptHost

namespace Files

/-- A change to the files from outside. -/
inductive Change where
  | write (path : String) (bytes : List UInt8) (modified : Stamp)
  | remove (path : String)
  | removeDirectory (path : String)
  | makeDirectory (path : String)
  | makeLink (path target : String)
deriving DecidableEq

namespace Change

def path : Change → String
  | write path .. | remove path | removeDirectory path | makeDirectory path | makeLink path _ => path

def run (fs : Files) : Change → Except FileError Files
  | write path bytes modified => fs.writeAt path bytes modified
  | remove path => fs.remove path
  | removeDirectory path => fs.removeDirectory path
  | makeDirectory path => fs.makeDirectory path
  | makeLink path target => fs.makeLink path target

end Change

/-- The tree after a change.  One that fails leaves it as it was, and so does one whose path starts from
    a directory that is gone. -/
def apply (fs : Files) (c : Change) : Files :=
  if fs.node? (fs.base c.path) = some .directory then (c.run fs).toOption.getD fs else fs

/-- What a change does that takes effect: it puts one node, or takes nodes out. -/
inductive Effect (fs : Files) (c : Change) : Files → Prop
  | put (names : List String) (node : Node) (tick : Nat) (inside : names ≠ [])
      (proper : ∀ n ∈ names, Path.IsName n) (parent : fs.node? names.dropLast = some .directory)
      (free : fs.node? names ≠ some .directory)
      (written : ∀ bytes time, node = .file bytes time →
        ∃ path, c = .write path bytes time ∧ fs.locate true path = .ok names) :
      Effect fs c ({ fs with tick := tick }.put names node)
  | take (p : List String × Node → Bool)
      (closed : ∀ e ∈ fs.nodes, p e = true → ∀ d ∈ fs.nodes, d.1 = e.1.dropLast → p d = true) :
      Effect fs c { fs with nodes := fs.nodes.filter p }

/-! ## 1. One change -/

section Change
variable {fs after : Files} {path : String}

theorem writeAt_eq_ok {bytes : List UInt8} {time : Stamp} (h : fs.writeAt path bytes time = .ok after) :
    ∃ names, fs.locate true path = .ok names ∧ fs.node? names ≠ some .directory ∧
      after = fs.put names (.file bytes time) := by
  obtain ⟨names, found, h⟩ := exists_of_bind h
  refine ⟨names, found, ?_⟩
  split at h
  · cases h
  · exact ⟨by assumption, (Except.ok.inj h).symm⟩

theorem makeDirectory_eq_ok (h : fs.makeDirectory path = .ok after) :
    ∃ names, fs.locate false path = .ok names ∧ fs.node? names = none ∧
      after = fs.put names .directory := by
  obtain ⟨names, found, h⟩ := exists_of_bind h
  refine ⟨names, found, ?_⟩
  by_cases taken : (fs.node? names).isSome = true
  · rw [if_pos taken] at h; cases h
  · rw [if_neg taken] at h
    exact ⟨by simpa using taken, (Except.ok.inj h).symm⟩

theorem makeLink_eq_ok {target : String} (h : fs.makeLink path target = .ok after) :
    ∃ names, fs.now.2.locate false path = .ok names ∧ fs.node? names = none ∧
      after = fs.now.2.put names (.link target fs.now.1) := by
  obtain ⟨names, found, h⟩ := exists_of_bind h
  refine ⟨names, found, ?_⟩
  by_cases taken : ({ fs with tick := fs.tick + 1 }.node? names).isSome = true
  · rw [if_pos taken] at h; cases h
  · rw [if_neg taken] at h
    have free : { fs with tick := fs.tick + 1 }.node? names = none := by simpa using taken
    exact ⟨free, (Except.ok.inj h).symm⟩

theorem remove_eq_ok (h : fs.remove path = .ok after) :
    ∃ names, fs.node? names ≠ some .directory ∧
      after = { fs with nodes := fs.nodes.filter (·.1 != names) } := by
  obtain ⟨names, -, h⟩ := exists_of_bind h
  refine ⟨names, ?_⟩
  split at h
  · cases h
  · cases h
  · exact ⟨by simp_all, (Except.ok.inj h).symm⟩

theorem removeDirectory_eq_ok (h : fs.removeDirectory path = .ok after) :
    ∃ names : List String,
      after = { fs with nodes := fs.nodes.filter fun e => !names.isPrefixOf e.1 } := by
  obtain ⟨names, -, h⟩ := exists_of_bind h
  refine ⟨names, ?_⟩
  split at h
  · exact (Except.ok.inj h).symm
  · cases h
  · cases h

/-- What a change can do, whatever it is. -/
theorem effect_of_run {c : Change} (wf : fs.WellFormed)
    (start : fs.node? (fs.base c.path) = some .directory) (h : c.run fs = .ok after) :
    Effect fs c after := by
  cases c with
  | write path bytes time =>
    obtain ⟨names, found, free, rfl⟩ := writeAt_eq_ok h
    obtain directory | ⟨inside, proper, parent⟩ := place_of_locate wf found start
    · exact absurd directory free
    · refine .put names (.file bytes time) fs.tick inside proper parent free fun b t eq => ?_
      cases eq
      exact ⟨path, rfl, found⟩
  | remove path =>
    obtain ⟨names, free, rfl⟩ := remove_eq_ok h
    refine .take _ fun e he _ d hd above => ?_
    have holds := wf.held e he
    have other : d.1 ≠ names := fun eq => free (by rw [← eq, above, holds])
    simpa using other
  | removeDirectory path =>
    obtain ⟨names, rfl⟩ := removeDirectory_eq_ok h
    refine .take _ fun e _ kept d _ above => ?_
    have apart {other : List String} : (!names.isPrefixOf other) = true ↔ ¬names <+: other := by
      rw [Bool.not_eq_true', ← Bool.not_eq_true, List.isPrefixOf_iff_prefix]
    have up : d.1 <+: e.1 := by rw [above]; exact List.dropLast_prefix e.1
    exact apart.2 fun le => apart.1 kept (le.trans up)
  | makeDirectory path =>
    obtain ⟨names, found, free, rfl⟩ := makeDirectory_eq_ok h
    obtain directory | ⟨inside, proper, parent⟩ := place_of_locate wf found start
    · rw [free] at directory; cases directory
    · exact .put names .directory fs.tick inside proper parent (by rw [free]; simp) (by simp)
  | makeLink path target =>
    obtain ⟨names, found, free, rfl⟩ := makeLink_eq_ok h
    have later : fs.now.2.WellFormed := ⟨wf.once, wf.named, wf.held⟩
    obtain directory | ⟨inside, proper, parent⟩ := place_of_locate later found start
    · exact absurd (free.symm.trans directory) (by simp)
    · exact .put names _ (fs.tick + 1) inside proper parent (by rw [free]; simp) (by simp)

theorem Effect.wellFormed {c : Change} (wf : fs.WellFormed) (h : Effect fs c after) :
    after.WellFormed := by
  cases h with
  | put names node tick inside proper parent free =>
    have ticked : { fs with tick := tick }.WellFormed := ⟨wf.once, wf.named, wf.held⟩
    exact ticked.put node inside proper parent free
  | take p closed => exact wf.filter closed

theorem Effect.home {c : Change} (h : Effect fs c after) : after.home = fs.home := by
  cases h <;> rfl

/-- A file that is there after a change was there before, or was written by it. -/
theorem Effect.file {c : Change} (wf : fs.WellFormed) (h : Effect fs c after) {names : List String}
    {bytes : List UInt8} {time : Stamp} (there : after.node? names = some (.file bytes time)) :
    fs.node? names = some (.file bytes time) ∨
      ∃ path, c = .write path bytes time ∧ fs.locate true path = .ok names := by
  have below : names ≠ [] := by
    rintro rfl
    cases there
  cases h with
  | put at' node tick inside _ _ _ written =>
    by_cases same : names = at'
    · subst same
      rw [node?_put_self node inside] at there
      exact .inr (written bytes time (Option.some.inj there))
    · rw [node?_put_of_ne node same] at there
      exact .inl there
  | take p closed => exact .inl (node?_of_filter wf below there)

/-- A change takes effect or changes nothing. -/
theorem apply_cases {c : Change} (wf : fs.WellFormed) : fs.apply c = fs ∨ Effect fs c (fs.apply c) := by
  by_cases start : fs.node? (fs.base c.path) = some .directory
  · unfold apply
    rw [if_pos start]
    cases ran : c.run fs with
    | error e => exact .inl rfl
    | ok after => exact .inr (effect_of_run wf start ran)
  · unfold apply
    rw [if_neg start]
    exact .inl rfl

end Change

/-! ## 2. A run of changes -/

end Files

/-- Files, and what becomes of them step by step. -/
structure History where
  start : Files
  change : Nat → Files.Change

namespace History

open Files (Change Effect apply_cases)

/-- The files after so many changes. -/
def files (h : History) : Nat → Files
  | 0 => h.start
  | t + 1 => (h.files t).apply (h.change t)

/-- No write gives a file a time that a file in its place had before. -/
def Fresh (h : History) : Prop :=
  ∀ t path bytes time names, h.change t = .write path bytes time →
    (h.files t).locate true path = .ok names →
    ∀ s ≤ t, ∀ old, (h.files s).node? names ≠ some (.file old time)

variable {h : History} (wf : h.start.WellFormed)
include wf

theorem wellFormed (t : Nat) : (h.files t).WellFormed := by
  induction t with
  | zero => exact wf
  | succ t ih =>
    obtain same | effect := apply_cases (c := h.change t) ih
    · show ((h.files t).apply (h.change t)).WellFormed
      rwa [same]
    · exact effect.wellFormed ih

theorem home (t : Nat) : (h.files t).home = h.start.home := by
  induction t with
  | zero => rfl
  | succ t ih =>
    obtain same | effect := apply_cases (c := h.change t) (wellFormed wf t)
    · show ((h.files t).apply (h.change t)).home = _
      rw [same, ih]
    · exact effect.home.trans ih

/-- A file that is there after a step was there before it, or that step wrote it. -/
theorem file_step {t : Nat} {names : List String} {bytes : List UInt8} {time : Stamp}
    (there : (h.files (t + 1)).node? names = some (.file bytes time)) :
    (h.files t).node? names = some (.file bytes time) ∨
      ∃ path, h.change t = .write path bytes time ∧ (h.files t).locate true path = .ok names := by
  obtain same | effect := apply_cases (c := h.change t) (wellFormed wf t)
  · have there : ((h.files t).apply (h.change t)).node? names = some (.file bytes time) := there
    rw [same] at there
    exact .inl there
  · exact effect.file (wellFormed wf t) there

/-- A file that has one time at two moments is the same file throughout: going back from the later
    moment, a write that gave it that time would have given a time that it had before. -/
theorem file_unchanged (fresh : h.Fresh) {s t : Nat} {names : List String} {old new : List UInt8}
    {time : Stamp} (before : (h.files s).node? names = some (.file old time))
    (after : (h.files t).node? names = some (.file new time)) {u : Nat} (su : s ≤ u) (ut : u ≤ t) :
    (h.files u).node? names = some (.file new time) := by
  induction ut using Nat.decreasingInduction with
  | self => exact after
  | of_succ k kt ih =>
    obtain kept | ⟨path, wrote, found⟩ := file_step wf (ih (by omega))
    · exact kept
    · exact absurd before (fresh k path new time names wrote found s su old)

end History

end ScriptHost
