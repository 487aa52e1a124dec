import ScriptHost.Host.Basic
import ScriptHost.Proofs.Compiler.Gate
import ScriptHost.Proofs.Lifecycle.Basic

/-!
# Reload — all of a unit or nothing of it

A unit with errors leaves a host as it was but for what it remembers about files and findings.  A unit
without errors takes the place of the one before, whatever the hooks of the change do.
-/

namespace ScriptHost.Host

variable {h h' : Host} {u : ScriptUnit} {report : ReloadReport}

/-! ## 1. Activation -/

/-- A unit with errors only leaves its findings behind. -/
theorem activate_of_failed (failed : u.passed = false) :
    h.activate u =
      (⟨.rejected u.errors.length, u.diagnostics⟩, { h with diagnostics := u.diagnostics }) := by
  rw [activate, failed]
  rfl

/-- What the change to a unit makes of the attachments, and what its hooks leave behind. -/
def renewed (h : Host) (u : ScriptUnit) : Lifecycle × Trace :=
  h.lifecycle.renew (Registry.ofUnit u) h.surroundings

/-- The host that works with a unit. -/
def adopt (h : Host) (u : ScriptUnit) : Host :=
  { h with
    active := some u
    registry := .ofUnit u
    lifecycle := (h.renewed u).1
    commands := h.commands ++ (h.renewed u).2.commands
    logs := h.logs ++ (h.renewed u).2.logs
    diagnostics := u.diagnostics }

theorem activate_of_passed (passed : u.passed = true) :
    h.activate u =
      (⟨.activated u.id (Registry.ofUnit u).entries.length (h.adopt u).lifecycle.rebound,
        u.diagnostics⟩, h.adopt u) := by
  rw [activate, passed]
  rfl

/-- An activation goes one way or the other. -/
theorem activate_cases (h : Host) (u : ScriptUnit) :
    (u.passed = true ∧ h.activate u =
      (⟨.activated u.id (Registry.ofUnit u).entries.length (h.adopt u).lifecycle.rebound,
        u.diagnostics⟩, h.adopt u)) ∨
    (u.passed = false ∧ h.activate u =
      (⟨.rejected u.errors.length, u.diagnostics⟩, { h with diagnostics := u.diagnostics })) := by
  by_cases passed : u.passed = true
  · exact .inl ⟨passed, activate_of_passed passed⟩
  · have failed := Bool.eq_false_iff.mpr passed
    exact .inr ⟨failed, activate_of_failed failed⟩

/-! ## 2. All or nothing -/

/-- How many errors a unit has. -/
def errorCount (u : ScriptUnit) : Nat := u.diagnostics.countP fun d => d.severity == .error

theorem length_errors (u : ScriptUnit) : u.errors.length = errorCount u :=
  List.countP_eq_length_filter.symm

theorem passed_eq_false_iff : u.passed = false ↔ ∃ d ∈ u.diagnostics, d.severity = .error := by
  rw [← Bool.not_eq_true, ScriptUnit.passed, Diagnostic.passes_iff]
  simp only [not_forall, not_not, exists_prop]

/-- What a reload may do to a host, once its unit is there. -/
structure AllOrNothing (h : Host) (u : ScriptUnit) (report : ReloadReport) (h' : Host) : Prop where
  findings : report.diagnostics = u.diagnostics ∧ h'.diagnostics = u.diagnostics
  /-- One error is enough to leave the unit, the registry, the attachments with everything in them,
      the errors of their hooks, and what they asked for. -/
  nothing : (∃ d ∈ u.diagnostics, d.severity = .error) →
    report.outcome = .rejected (errorCount u) ∧ 1 ≤ errorCount u ∧
      h' = { h with diagnostics := h'.diagnostics, compiler := h'.compiler, watcher := h'.watcher }
  /-- Without one the unit and its registry are those of the host, and the report names it. -/
  all : (∀ d ∈ u.diagnostics, d.severity ≠ .error) →
    h'.active = some u ∧ h'.registry = .ofUnit u ∧ h'.registry.unit = some u.id ∧
      report.outcome =
        .activated u.id (Registry.ofUnit u).entries.length h'.lifecycle.rebound
  /-- Of the compiler only what it has read changes, and how many units it has made. -/
  compiler : h'.compiler =
    { h.compiler with serial := h'.compiler.serial, cache := h'.compiler.cache }
  /-- Of the watcher only what it has seen changes, and when it is to look again. -/
  watcher : h'.watcher =
    { h.watcher with snapshot := h'.watcher.snapshot, nudge := h'.watcher.nudge }

theorem AllOrNothing.rejected {h h' : Host} {u : ScriptUnit} {report : ReloadReport}
    (told : AllOrNothing h u report h') {n : Nat} (errors : errorCount u = n + 1) :
    report.outcome = .rejected (n + 1) ∧ h'.lifecycle = h.lifecycle ∧ h'.active = h.active := by
  obtain ⟨d, hd, isError⟩ := List.countP_pos_iff.mp (Nat.lt_of_lt_of_eq n.succ_pos errors.symm)
  obtain ⟨outcome, -, same⟩ := told.nothing ⟨d, hd, eq_of_beq isError⟩
  rw [outcome, errors, same]
  exact ⟨rfl, rfl, rfl⟩

theorem activate_allOrNothing (h : Host) (u : ScriptUnit) :
    AllOrNothing h u (h.activate u).1 (h.activate u).2 := by
  rcases activate_cases h u with ⟨passed, he⟩ | ⟨failed, he⟩
  · have noError := Diagnostic.passes_iff.mp passed
    rw [he]
    exact
      { findings := ⟨rfl, rfl⟩
        nothing := fun ⟨d, hd, error⟩ => absurd error (noError d hd)
        all := fun _ => ⟨rfl, rfl, Registry.unit_ofUnit passed, rfl⟩
        compiler := rfl
        watcher := rfl }
  · obtain ⟨d, hd, error⟩ := passed_eq_false_iff.mp failed
    have some : 1 ≤ errorCount u := by
      refine List.countP_pos_iff.mpr ⟨d, hd, ?_⟩
      rw [error]
      rfl
    rw [he, length_errors]
    exact
      { findings := ⟨rfl, rfl⟩
        nothing := fun _ => ⟨rfl, some, rfl⟩
        all := fun noError => absurd error (noError d hd)
        compiler := rfl
        watcher := rfl }

/-- A reload may look at the files and read them before its unit is there. -/
theorem AllOrNothing.of_prepared {c : Compiler} {w : Watcher}
    (compiler : c = { h.compiler with serial := c.serial, cache := c.cache })
    (watcher : w = { h.watcher with snapshot := w.snapshot, nudge := w.nudge })
    (done : AllOrNothing { h with compiler := c, watcher := w } u report h') :
    AllOrNothing h u report h' where
  findings := done.findings
  nothing := done.nothing
  all := done.all
  -- What the reload kept of the prepared parts was kept when they were prepared.
  compiler := by
    rw [done.compiler]
    show { c with serial := _, cache := _ } = _
    rw [compiler]
  watcher := by
    rw [done.watcher]
    show { w with snapshot := _, nudge := _ } = _
    rw [watcher]

theorem reload_prepared {w : Watcher} (batch : Batch)
    (watcher : w = { h.watcher with snapshot := w.snapshot, nudge := w.nudge }) :
    let done := { h with watcher := w }.reload batch
    AllOrNothing h (h.compiler.compile batch).1 done.1 done.2 :=
  .of_prepared rfl watcher (activate_allOrNothing _ _)

theorem reload_eq (h : Host) (batch : Batch) :
    h.reload batch =
      { h with compiler := (h.compiler.compile batch).2 }.activate (h.compiler.compile batch).1 :=
  rfl

/-- A reload does not look at the directory again. -/
theorem reload_watcher (h : Host) (batch : Batch) : (h.reload batch).2.watcher = h.watcher := by
  rw [reload_eq]
  rcases activate_cases { h with compiler := (h.compiler.compile batch).2 }
    (h.compiler.compile batch).1 with ⟨-, he⟩ | ⟨-, he⟩
  · rw [he]
    rfl
  · rw [he]

/-! ## 3. What starts a reload -/

theorem look_keeps (w : Watcher) (fs : Files) :
    (w.look fs).2 = { w with snapshot := (w.look fs).2.snapshot } := by
  rw [Watcher.look]
  split
  · rfl
  · dsimp only
    split
    · rfl
    · rfl

theorem poll_keeps (w : Watcher) (notices : List Notice) (fs : Files) :
    (w.poll notices fs).2 =
      { w with
        snapshot := (w.poll notices fs).2.snapshot, nudge := (w.poll notices fs).2.nudge } := by
  rw [Watcher.poll]
  split
  · rw [look_keeps]
  · dsimp only
    split
    · rw [look_keeps]
    · rfl

/-- The watcher of a reload that is asked for: it has looked, if it could. -/
def refreshed (w : Watcher) (fs : Files) : Watcher :=
  match w.rescan fs with
  | .ok (_, w') => w'
  | .error _ => w

theorem refreshed_keeps (w : Watcher) (fs : Files) :
    refreshed w fs =
      { w with snapshot := (refreshed w fs).snapshot, nudge := (refreshed w fs).nudge } := by
  rw [refreshed, Watcher.rescan]
  cases w.scan fs with
  | error e => rfl
  | ok current => rfl

theorem forceReload_eq (h : Host) (fs : Files) :
    h.forceReload fs =
      { h with watcher := refreshed h.watcher fs }.reload ((refreshed h.watcher fs).load fs) := rfl

/-- Either nothing happens but that the watcher has looked, or there is a reload of what it saw. -/
theorem reloadIfChanged_eq (h : Host) (notices : List Notice) (fs : Files) :
    h.reloadIfChanged notices fs =
      (none, { h with watcher := (h.watcher.poll notices fs).2 }) ∨
    h.reloadIfChanged notices fs =
      (some ({ h with watcher := (h.watcher.poll notices fs).2 }.reload
          ((h.watcher.poll notices fs).2.load fs)).1,
        ({ h with watcher := (h.watcher.poll notices fs).2 }.reload
          ((h.watcher.poll notices fs).2.load fs)).2) := by
  rw [reloadIfChanged]
  cases hp : (h.watcher.poll notices fs).1 with
  | none =>
    left
    simp only [hp]
  | some changes =>
    right
    simp only [hp]

theorem forceReload_allOrNothing (h : Host) (fs : Files) :
    AllOrNothing h (h.compiler.compile ((h.forceReload fs).2.watcher.load fs)).1
      (h.forceReload fs).1 (h.forceReload fs).2 := by
  have seen : (h.forceReload fs).2.watcher = refreshed h.watcher fs := by
    rw [forceReload_eq, reload_watcher]
  rw [seen, forceReload_eq]
  exact reload_prepared _ (refreshed_keeps _ _)

/-- The watcher tells of a change or it does not, and then there is no unit. -/
theorem reloadIfChanged_cases (h : Host) (notices : List Notice) (fs : Files) :
    ((h.reloadIfChanged notices fs).1 = none ∧
      (h.reloadIfChanged notices fs).2 =
        { h with watcher := (h.reloadIfChanged notices fs).2.watcher }) ∨
    ∃ report, (h.reloadIfChanged notices fs).1 = some report ∧
      AllOrNothing h
        (h.compiler.compile ((h.reloadIfChanged notices fs).2.watcher.load fs)).1
        report (h.reloadIfChanged notices fs).2 := by
  rcases reloadIfChanged_eq h notices fs with he | he
  · left
    rw [he]
    exact ⟨rfl, rfl⟩
  · right
    rw [he]
    refine ⟨_, rfl, ?_⟩
    -- The files were read as the watcher has them afterwards.
    rw [reload_watcher]
    exact reload_prepared _ (poll_keeps _ _ _)

/-- Every reload of every host takes all of a unit or nothing of it: one of given texts or of any batch
    with its notes, one that is asked for, and one that the watcher calls for. -/
theorem reload_all_or_nothing (h : Host) :
    (∀ batch, AllOrNothing h (h.compiler.compile batch).1 (h.reload batch).1 (h.reload batch).2 ∧
      (h.reload batch).2.watcher = h.watcher) ∧
    (∀ files, AllOrNothing h (h.compiler.compile ⟨files, []⟩).1
      (h.reloadFrom files).1 (h.reloadFrom files).2 ∧ (h.reloadFrom files).2.watcher = h.watcher) ∧
    (∀ fs, AllOrNothing h (h.compiler.compile ((h.forceReload fs).2.watcher.load fs)).1
      (h.forceReload fs).1 (h.forceReload fs).2) ∧
    ∀ notices fs,
      ((h.reloadIfChanged notices fs).1 = none ∧
        (h.reloadIfChanged notices fs).2 =
          { h with watcher := (h.reloadIfChanged notices fs).2.watcher }) ∨
      ∃ report, (h.reloadIfChanged notices fs).1 = some report ∧
        AllOrNothing h
          (h.compiler.compile ((h.reloadIfChanged notices fs).2.watcher.load fs)).1
          report (h.reloadIfChanged notices fs).2 := by
  have given : ∀ batch, AllOrNothing h (h.compiler.compile batch).1 (h.reload batch).1
      (h.reload batch).2 ∧ (h.reload batch).2.watcher = h.watcher :=
    fun batch => ⟨reload_prepared batch rfl, reload_watcher h batch⟩
  exact ⟨given, fun files => given ⟨files, []⟩, forceReload_allOrNothing h, reloadIfChanged_cases h⟩

/-- A candle that burns down. -/
def candle : Source :=
  ⟨"candle.ks", "type Candle : Behaviour \x7b pub wax: int = 5; fn update(ctx, dt) \x7b this.wax -= 1; \x7d \x7d",
    default⟩

/-- A taller one, in another file. -/
def tallCandle : Source :=
  ⟨"tall.ks", "type Candle : Behaviour \x7b pub wax: int = 9; fn update(ctx, dt) \x7b this.wax -= 1; \x7d \x7d",
    default⟩

/-- A torch without the base that it names. -/
def torch : Source := ⟨"torch.ks", "type Torch : Flame \x7b \x7d", default⟩

/-- A host with a candle that has burned for a frame. -/
def burning : Host :=
  (((create .standard toString).reloadFrom [candle]).2.attach (.first 0) "Candle").2.tick 1

/-- The wax that is left of each candle. -/
def waxLeft (l : Lifecycle) : List Int :=
  l.attachments.filterMap fun a => match a.running.bind fun i => i.store.read? "wax" with
    | some (.int n) => some n
    | _ => none

/-- With the torch beside it the candle burns on as it was, and a taller candle takes its place. -/
theorem burning_reload :
    waxLeft burning.lifecycle = [4] ∧
      ((burning.reloadFrom [tallCandle, torch]).1.outcome = .rejected 1 ∧
        (burning.reloadFrom [tallCandle, torch]).2.lifecycle = burning.lifecycle ∧
        (burning.reloadFrom [tallCandle, torch]).2.active = burning.active) ∧
      (burning.reloadFrom [tallCandle]).2.active = some (burning.compiler.compile ⟨[tallCandle], []⟩).1 ∧
      waxLeft (burning.reloadFrom [tallCandle]).2.lifecycle = [9] := by
  have refused := ((reload_all_or_nothing burning).2.1 [tallCandle, torch]).1
  have taken := ((reload_all_or_nothing burning).2.1 [tallCandle]).1
  obtain ⟨four, one, noError, nine⟩ : waxLeft burning.lifecycle = [4] ∧
      errorCount (burning.compiler.compile ⟨[tallCandle, torch], []⟩).1 = 0 + 1 ∧
      (∀ d ∈ (burning.compiler.compile ⟨[tallCandle], []⟩).1.diagnostics, d.severity ≠ .error) ∧
      waxLeft (burning.reloadFrom [tallCandle]).2.lifecycle = [9] := by
    decide +kernel
  exact ⟨four, refused.rejected one, (taken.all noError).1, nine⟩

end ScriptHost.Host
