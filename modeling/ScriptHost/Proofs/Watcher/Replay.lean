import ScriptHost.Proofs.Watcher.Quiet
import ScriptHost.Proofs.Watcher.Notified

/-!
# Replay — the change sets of a run, put together

A watcher takes over a snapshot only together with a report of every difference.  So whoever applies the reports of a
run to no files at all, in the order in which they came, holds the files that the watcher tracks, however polls and
rescans are mixed and whichever of them fail; and what has been reported once is not reported again.
-/

namespace ScriptHost

namespace ChangeSet

/-- The known paths with the changes made to them. -/
def applyTo (c : ChangeSet) (known : Finset String) : Finset String :=
  (known \ c.removed.toFinset) ∪ c.added.toFinset

/-- The paths that are known from change sets alone, one behind the other. -/
def replay (changes : List ChangeSet) : Finset String := changes.foldl (fun known c => c.applyTo known) ∅

theorem replay_concat (changes : List ChangeSet) (c : ChangeSet) :
    replay (changes ++ [c]) = c.applyTo (replay changes) := by
  unfold replay
  rw [List.foldl_append]
  rfl

end ChangeSet

namespace Snapshot.Below

variable {root : String} {s t : Snapshot} (hs : Below root s) (ht : Below root t)
include hs ht

theorem lacks_iff {q : String} (hq : q ∈ s.paths) : t.Lacks q ↔ q ∉ t.paths := by
  obtain ⟨a, ha, rfl⟩ := List.mem_map.mp hq
  constructor
  · intro lacks there
    obtain ⟨b, hb, eq⟩ := List.mem_map.mp there
    have other := lacks b hb
    rw [Path.same_iff.mpr (congrArg Path.components eq)] at other
    cases other
  · intro missing b hb
    apply Bool.eq_false_iff.mpr
    intro same
    apply missing
    rw [← ht.eq_of_same hs hb ha same]
    exact List.mem_map_of_mem hb

/-- The changes between two snapshots lead from the paths of the one to those of the other. -/
theorem applyTo_diff : (s.diff t).applyTo s.paths.toFinset = t.paths.toFinset := by
  ext q
  unfold ChangeSet.applyTo
  rw [Finset.mem_union, Finset.mem_sdiff, List.mem_toFinset, List.mem_toFinset, List.mem_toFinset, List.mem_toFinset,
    mem_removed, mem_added]
  by_cases old : q ∈ s.paths
  · have kept : t.Lacks q ↔ q ∉ t.paths := hs.lacks_iff ht old
    have known : ¬ (q ∈ t.paths ∧ s.Lacks q) := by
      rintro ⟨new, lacks⟩
      exact (ht.lacks_iff hs new).mp lacks old
    simp [old, kept, known]
  · constructor
    · rintro (⟨old', -⟩ | ⟨new, -⟩)
      · exact absurd old' old
      · exact new
    · intro new
      exact .inr ⟨new, (ht.lacks_iff hs new).mpr old⟩

end Snapshot.Below

namespace Watcher

variable {w : Watcher} {fs : Files} {current : Snapshot} {notices : List Notice}

/-! ## 1. One step -/

/-- What can happen to a watcher: notifications are turned on, it is polled, or it looks in any case. -/
inductive Step where
  | notify (interval : Nat)
  | poll (notices : List Notice) (files : Files)
  | rescan (files : Files)

/-- The files as they are at a step that may look. -/
def Step.files? : Step → Option Files
  | notify _ => none
  | poll _ files => some files
  | rescan files => some files

/-- What a step reports, if anything, and the watcher behind it. -/
def take (w : Watcher) : Step → Option ChangeSet × Watcher
  | .notify interval => (none, w.withNotices interval)
  | .poll notices files => w.poll notices files
  | .rescan files =>
    match w.rescan files with
    | .ok (changes, w) => (some changes, w)
    | .error _ => (none, w)

/-- The step looks and sees the snapshot. -/
def Sees (w : Watcher) : Step → Snapshot → Prop
  | .notify _, _ => False
  | .poll notices files, current => (∀ n ∈ w.nudge, (n.poll notices).1 = true) ∧ w.scan files = .ok current
  | .rescan files, current => w.scan files = .ok current

theorem rescan_of_ok (seen : w.scan fs = .ok current) :
    w.rescan fs = .ok (w.snapshot.diff current, { w with snapshot := current }) := by
  rw [rescan, seen]
  rfl

theorem rescan_of_error {e : ScanError} (failed : w.scan fs = .error e) : w.rescan fs = .error e := by
  rw [rescan, failed]
  rfl

theorem take_rescan_of_ok (seen : w.scan fs = .ok current) :
    w.take (.rescan fs) = (some (w.snapshot.diff current), { w with snapshot := current }) := by
  simp only [take, rescan_of_ok seen]

theorem take_rescan_of_error {e : ScanError} (failed : w.scan fs = .error e) : w.take (.rescan fs) = (none, w) := by
  simp only [take, rescan_of_error failed]

/-- What a poll can do: report nothing and keep the snapshot, or report some differences and take over what it saw. -/
theorem poll_cases (w : Watcher) (notices : List Notice) (fs : Files) :
    (∃ nudge, w.poll notices fs = (none, { w with nudge := nudge })) ∨
      ∃ current nudge, w.scan fs = .ok current ∧ (w.snapshot.diff current).isEmpty = false ∧
        w.poll notices fs = (some (w.snapshot.diff current), { w with snapshot := current, nudge := nudge }) := by
  cases on : w.nudge with
  | none =>
    rw [poll_of_polling on]
    rcases look_cases w fs with same | ⟨current, seen, differs, changed⟩
    · exact .inl ⟨w.nudge, same⟩
    · exact .inr ⟨current, w.nudge, seen, differs, changed⟩
  | some n =>
    rw [poll_of_notified on]
    split
    · rcases look_cases { w with nudge := some (n.poll notices).2 } fs with same | ⟨current, seen, differs, changed⟩
      · exact .inl ⟨_, same⟩
      · exact .inr ⟨current, _, seen, differs, changed⟩
    · exact .inl ⟨_, rfl⟩

/-- A snapshot is taken over only with a report of all that differs from the one before. -/
theorem take_cases (w : Watcher) (s : Step) :
    (∃ nudge, w.take s = (none, { w with nudge := nudge })) ∨
      ∃ fs current nudge, s.files? = some fs ∧ w.scan fs = .ok current ∧
        w.take s = (some (w.snapshot.diff current), { w with snapshot := current, nudge := nudge }) := by
  cases s with
  | notify interval => exact .inl ⟨_, rfl⟩
  | poll notices fs =>
    rcases poll_cases w notices fs with quiet | ⟨current, nudge, seen, -, changed⟩
    · exact .inl quiet
    · exact .inr ⟨fs, current, nudge, rfl, seen, changed⟩
  | rescan fs =>
    cases seen : w.scan fs with
    | error e => exact .inl ⟨w.nudge, take_rescan_of_error seen⟩
    | ok current => exact .inr ⟨fs, current, w.nudge, rfl, seen, take_rescan_of_ok seen⟩

/-- The watcher looks where and for what it was made to, and tracks what such a look gave. -/
structure Tracks (root extension : String) (recursive : Bool) (w : Watcher) : Prop where
  sameRoot : w.root = root
  sameExtension : w.extension = extension
  sameDepth : w.recursive = recursive
  below : w.snapshot.Below root

namespace Tracks

variable {root extension : String} {recursive : Bool} (h : Tracks root extension recursive w)
include h

/-- Two such watchers see the same. -/
theorem scan_eq {v : Watcher} (hv : Tracks root extension recursive v) (fs : Files) : v.scan fs = w.scan fs := by
  unfold scan
  rw [hv.sameRoot, hv.sameExtension, hv.sameDepth, h.sameRoot, h.sameExtension, h.sameDepth]

theorem below_of_scan (wf : fs.WellFormed) (seen : w.scan fs = .ok current) : current.Below root :=
  h.sameRoot ▸ below_scan wf seen

theorem take {s : Step} (wf : ∀ fs ∈ s.files?, fs.WellFormed) : Tracks root extension recursive (w.take s).2 := by
  rcases take_cases w s with ⟨nudge, same⟩ | ⟨fs, current, nudge, files, seen, changed⟩
  · rw [same]
    exact ⟨h.sameRoot, h.sameExtension, h.sameDepth, h.below⟩
  · rw [changed]
    exact ⟨h.sameRoot, h.sameExtension, h.sameDepth, h.below_of_scan (wf fs files) seen⟩

/-- Behind a look that succeeds the snapshot is what it saw, whether or not there was something to report. -/
theorem snapshot_of_sees {s : Step} (wf : ∀ fs ∈ s.files?, fs.WellFormed) (sees : w.Sees s current) :
    (w.take s).2.snapshot = current := by
  -- A look without a difference need not take over anything: the snapshot is the one that it saw.
  have looked {v : Watcher} (hv : Tracks root extension recursive v) (fs : Files) (wf : fs.WellFormed)
      (seen : v.scan fs = .ok current) : (v.look fs).2.snapshot = current := by
    by_cases same : (v.snapshot.diff current).isEmpty = true
    · rw [look_of_same seen same]
      exact (hv.below.diff_isEmpty_iff (hv.below_of_scan wf seen)).mp same
    · rw [look_of_changed seen same]
  cases s with
  | notify interval => exact sees.elim
  | poll notices fs =>
    obtain ⟨due, seen⟩ := sees
    show (w.poll notices fs).2.snapshot = current
    cases on : w.nudge with
    | none =>
      rw [poll_of_polling on]
      exact looked h fs (wf fs rfl) seen
    | some n =>
      rw [poll_of_notified on, if_pos (due n on)]
      have counted : Tracks root extension recursive { w with nudge := some (n.poll notices).2 } :=
        ⟨h.sameRoot, h.sameExtension, h.sameDepth, h.below⟩
      exact looked counted fs (wf fs rfl) seen
  | rescan fs => rw [take_rescan_of_ok sees]

end Tracks

theorem tracks_create (root extension : String) (recursive : Bool) :
    Tracks root (create root extension recursive).extension recursive (create root extension recursive) :=
  ⟨rfl, rfl, rfl, Snapshot.below_nil root⟩

/-! ## 2. Runs -/

/-- The watcher behind a run. -/
def undergo (w : Watcher) (steps : List Step) : Watcher := steps.foldl (fun w s => (w.take s).2) w

/-- The change sets that a run reports, in order. -/
def reports (w : Watcher) : List Step → List ChangeSet
  | [] => []
  | s :: steps => (w.take s).1.toList ++ (w.take s).2.reports steps

theorem undergo_concat (w : Watcher) (steps : List Step) (s : Step) :
    w.undergo (steps ++ [s]) = ((w.undergo steps).take s).2 := List.foldl_concat ..

theorem reports_concat (w : Watcher) (steps : List Step) (s : Step) :
    w.reports (steps ++ [s]) = w.reports steps ++ ((w.undergo steps).take s).1.toList := by
  induction steps generalizing w with
  | nil => simp [reports, undergo]
  | cons first steps ih =>
    rw [List.cons_append, reports, ih, reports, List.append_assoc]
    rfl

/-- Every look of the run finds files that stand once and under proper names. -/
def Proper (steps : List Step) : Prop := ∀ s ∈ steps, ∀ fs ∈ s.files?, fs.WellFormed

section Run

variable {root extension : String} {recursive : Bool} {steps : List Step}

theorem Tracks.undergo (h : Tracks root extension recursive w) (proper : Proper steps) :
    Tracks root extension recursive (w.undergo steps) := by
  induction steps generalizing w with
  | nil => exact h
  | cons s steps ih =>
    rw [Proper, List.forall_mem_cons] at proper
    exact ih (h.take proper.1) proper.2

/-- What was reported, applied in order, is what is tracked. -/
theorem replay_reports (proper : Proper steps) :
    ChangeSet.replay ((create root extension recursive).reports steps) =
      ((create root extension recursive).undergo steps).snapshot.paths.toFinset := by
  -- From the front to the back of the run: a step reports nothing and changes nothing, or leads from the paths before
  -- it to those behind it.
  induction steps using List.reverseRecOn with
  | nil => rfl
  | append_singleton steps s ih =>
    unfold Proper at proper
    rw [List.forall_mem_append] at proper
    have before := (tracks_create root extension recursive).undergo proper.1
    have known := ih proper.1
    rw [undergo_concat, reports_concat]
    rcases take_cases ((create root extension recursive).undergo steps) s with
      ⟨nudge, same⟩ | ⟨fs, current, nudge, files, seen, changed⟩
    · rw [same]
      simpa using known
    · have current' := before.below_of_scan (proper.2 s (List.mem_singleton_self s) fs files) seen
      rw [changed]
      show ChangeSet.replay (_ ++ [_]) = _
      rw [ChangeSet.replay_concat, known]
      exact before.below.applyTo_diff current'

/-- While nothing else is seen than what is tracked, every report is empty. -/
theorem reports_of_unchanged (h : Tracks root extension recursive w)
    (still : ∀ s ∈ steps, ∀ fs ∈ s.files?, ∀ seen, w.scan fs = .ok seen → seen = w.snapshot) :
    ∀ c ∈ w.reports steps, c.isEmpty = true := by
  induction steps generalizing w with
  | nil => simp [reports]
  | cons s steps ih =>
    rw [List.forall_mem_cons] at still
    obtain ⟨here, later⟩ := still
    -- One step reports nothing, or that there is no difference, and leaves the snapshot as it was.
    have step : (∀ c ∈ (w.take s).1, c.isEmpty = true) ∧ ∃ nudge, (w.take s).2 = { w with nudge := nudge } := by
      rcases take_cases w s with ⟨nudge, same⟩ | ⟨fs, current, nudge, files, seen, changed⟩
      · rw [same]
        exact ⟨by simp, nudge, rfl⟩
      · obtain rfl := here fs files current seen
        rw [changed]
        refine ⟨fun c hc => ?_, nudge, rfl⟩
        obtain rfl := Option.some.inj hc
        exact (h.below.diff_isEmpty_iff h.below).mpr rfl
    obtain ⟨quiet, nudge, next⟩ := step
    rw [reports, List.forall_mem_append]
    constructor
    · simpa using quiet
    · rw [next]
      exact ih ⟨h.sameRoot, h.sameExtension, h.sameDepth, h.below⟩ later

end Run

end Watcher

/-- **The change sets of a run replay to the directory.**  A comparison of two snapshots tells exactly what is new, what
    changed and what is gone, each in order and in one list, and nothing only of snapshots that show the same.  In a run
    of polls and rescans, with or without notifications and with looks that fail, the reports applied in order to no
    paths at all give the tracked ones; a poll that reports changes reports all of them and at least one, and any other
    keeps the snapshot; and once a look has succeeded, nothing is reported until a look sees something else. -/
theorem Watcher.changes_replay :
    (∀ previous current : Snapshot, previous.InOrder → current.InOrder →
      (previous.diff current).Tells previous current) ∧
    ∀ (root extension : String) (recursive : Bool) (steps : List Step), Proper steps →
      let new := create root extension recursive
      let w := new.undergo steps
      ChangeSet.replay (new.reports steps) = w.snapshot.paths.toFinset ∧ w.snapshot.InOrder ∧
      (∀ notices fs, fs.WellFormed →
        match w.poll notices fs with
        | (none, next) => next.snapshot = w.snapshot
        | (some changes, next) =>
          changes.isEmpty = false ∧ changes.Tells w.snapshot next.snapshot ∧ w.scan fs = .ok next.snapshot) ∧
      (∀ fs, fs.WellFormed →
        match w.rescan fs with
        | .error e => w.scan fs = .error e
        | .ok (changes, next) => changes.Tells w.snapshot next.snapshot ∧ w.scan fs = .ok next.snapshot) ∧
      ∀ (s : Step) (current : Snapshot), (∀ fs ∈ s.files?, fs.WellFormed) → w.Sees s current →
        ∀ later : List Step,
          (∀ t ∈ later, ∀ fs ∈ t.files?, w.scan fs = .ok current ∨ ∃ e, w.scan fs = .error e) →
          ∀ c ∈ (w.take s).2.reports later, c.isEmpty = true := by
  refine ⟨fun previous current hp hc => Snapshot.tells_diff hp hc, ?_⟩
  intro root extension recursive steps proper new w
  have tracks : Tracks root new.extension recursive w := (tracks_create root extension recursive).undergo proper
  refine ⟨replay_reports proper, tracks.below.inOrder, fun notices fs wf => ?_, fun fs wf => ?_, ?_⟩
  -- A poll either changes nothing but the count, or takes what it has seen over.
  · rcases poll_cases w notices fs with ⟨nudge, same⟩ | ⟨current, nudge, seen, differs, changed⟩
    · rw [same]
    · rw [changed]
      have current' := tracks.below_of_scan wf seen
      exact ⟨differs, Snapshot.tells_diff tracks.below.inOrder current'.inOrder, seen⟩
  · cases seen : w.scan fs with
    | error e =>
      rw [rescan_of_error seen]
    | ok current =>
      rw [rescan_of_ok seen]
      exact ⟨Snapshot.tells_diff tracks.below.inOrder (tracks.below_of_scan wf seen).inOrder, rfl⟩
  -- What has been seen is the snapshot from here on, and a look that sees it again has nothing to report.
  · intro s current wf sees later still
    have next := tracks.take wf
    apply reports_of_unchanged next
    intro t ht fs files seen' seen
    rw [tracks.scan_eq next] at seen
    rw [tracks.snapshot_of_sees wf sees]
    rcases still t ht fs files with same | ⟨e, failed⟩
    · rw [same] at seen
      exact (Except.ok.inj seen).symm
    · rw [failed] at seen
      cases seen

/-- A plain file stands where the scripts should be, until a directory with a script takes its place. -/
def putRight : History := ⟨.empty, fun
  | 0 => .write "s" [] (.time 1)
  | 1 => .remove "s"
  | 2 => .makeDirectory "s"
  | 3 => .write "s/a.ks" [] (.time 2)
  | _ => .remove "gone"⟩

/-- A look that fails, a poll that is not due and one that is. -/
def pollsOfPutRight : List Watcher.Step :=
  [.notify 2, .poll [] (putRight.files 0), .poll [.created] (putRight.files 1), .poll [] (putRight.files 4),
    .poll [] (putRight.files 4)]

/-- The script is reported once: what a rescan reports behind the polls is that nothing differs. -/
theorem Watcher.changes_replay_putRight :
    Snapshot.InOrder [("s/a.ks", .time 2), ("s/b.ks", .time 3)] ∧ Snapshot.InOrder [("s/b.ks", .time 5)] ∧
      ChangeSet.Tells ⟨[], ["s/b.ks"], ["s/a.ks"]⟩ [("s/a.ks", .time 2), ("s/b.ks", .time 3)] [("s/b.ks", .time 5)] ∧
      Proper pollsOfPutRight ∧ ((create "s" "ks" true).undergo pollsOfPutRight).snapshot.paths = ["s/a.ks"] ∧
      ChangeSet.replay ((create "s" "ks" true).reports pollsOfPutRight) = ["s/a.ks"].toFinset ∧
      ((create "s" "ks" true).undergo pollsOfPutRight).Sees (.rescan (putRight.files 4)) [("s/a.ks", .time 2)] ∧
      ∀ c ∈ (((create "s" "ks" true).undergo pollsOfPutRight).take (.rescan (putRight.files 4))).2.reports
          [.rescan (putRight.files 1), .poll [.failed] (putRight.files 4), .rescan (putRight.files 4)],
        c.isEmpty = true := by
  have old : Snapshot.InOrder [("s/a.ks", .time 2), ("s/b.ks", .time 3)] := by
    unfold Snapshot.InOrder Path.Ascending
    decide +kernel
  have new : Snapshot.InOrder [("s/b.ks", .time 5)] := by
    unfold Snapshot.InOrder Path.Ascending
    decide +kernel
  have changes : Snapshot.diff [("s/a.ks", .time 2), ("s/b.ks", .time 3)] [("s/b.ks", .time 5)] =
      ⟨[], ["s/b.ks"], ["s/a.ks"]⟩ := by decide +kernel
  have wf (t : Nat) : (putRight.files t).WellFormed := History.wellFormed Files.wellFormed_empty t
  have proper : Proper pollsOfPutRight := by simp [Proper, pollsOfPutRight, Step.files?, wf]
  have snapshot : ((create "s" "ks" true).undergo pollsOfPutRight).snapshot = [("s/a.ks", .time 2)] := by cbv
  have sees : ((create "s" "ks" true).undergo pollsOfPutRight).scan (putRight.files 4) = .ok [("s/a.ks", .time 2)] := by
    cbv
  have fails : ((create "s" "ks" true).undergo pollsOfPutRight).scan (putRight.files 1) =
      .error ⟨"s", .notDirectory⟩ := by cbv
  have replays := changes_replay.2 "s" "ks" true pollsOfPutRight proper
  have told := changes_replay.1 _ _ old new
  have tracked : ((create "s" "ks" true).undergo pollsOfPutRight).snapshot.paths = ["s/a.ks"] := by
    rw [snapshot]
    rfl
  rw [changes] at told
  refine ⟨old, new, told, proper, tracked, tracked ▸ replays.1, sees, ?_⟩
  apply replays.2.2.2.2 (.rescan (putRight.files 4)) _ (by simp [Step.files?, wf]) sees
  simp [Step.files?, sees, fails]

end ScriptHost
