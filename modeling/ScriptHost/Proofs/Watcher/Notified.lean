import Mathlib
import ScriptHost.Watcher.Basic

/-!
# Notified polls — what becomes of a notice when the look fails

A notice makes the next poll look, and the look takes the notice with it, whether it succeeds or not.  After a look
that fails the snapshot is still the one from before, so that no difference is forgotten; but it takes another notice,
or as many quiet polls as the interval says, until a poll looks again.
-/

namespace ScriptHost

/-! ## 1. When polls look -/

namespace Nudge

variable {n : Nudge} {notices : List Notice}

theorem poll_of_relevant (relevant : notices.any Notice.isRelevant = true) :
    n.poll notices = (true, ⟨n.interval, 0, true⟩) := by
  rw [poll, relevant, Bool.or_true, if_pos rfl]

theorem poll_of_quiet (primed : n.primed = true) (quiet : notices.any Notice.isRelevant = false) :
    n.poll notices =
      if 0 < n.interval && n.interval ≤ n.quiet + 1 then (true, ⟨n.interval, 0, true⟩)
      else (false, ⟨n.interval, n.quiet + 1, true⟩) := by
  rw [poll, primed, quiet, Bool.not_true, Bool.or_false, if_neg Bool.false_ne_true]

/-- The state after `quiet` polls in a row without a notice that matters: every look among them has started the count
    afresh. -/
def counting (interval quiet : Nat) : Nudge := ⟨interval, quiet % interval, true⟩

/-- How many polls in a row are without such a notice after one more. -/
def quietAfter (quiet : Nat) (notices : List Notice) : Nat :=
  if notices.any Notice.isRelevant then 0 else quiet + 1

/-- Whether a poll looks behind so many quiet ones: on a notice that matters, and where the interval is full. -/
def Due (interval quiet : Nat) (notices : List Notice) : Prop :=
  notices.any Notice.isRelevant = true ∨ 0 < interval ∧ interval ∣ quiet + 1

instance (interval quiet : Nat) (notices : List Notice) : Decidable (Due interval quiet notices) :=
  inferInstanceAs (Decidable (_ ∨ _))

/-- The interval is full where the count reaches it. -/
theorem dvd_succ_iff {i q : Nat} (positive : 0 < i) : i ∣ q + 1 ↔ i ≤ q % i + 1 := by
  have below : q % i < i := Nat.mod_lt q positive
  have split : q + 1 = i * (q / i) + (q % i + 1) := by rw [← Nat.add_assoc, Nat.div_add_mod]
  rw [split, Nat.dvd_add_right (Nat.dvd_mul_right i _)]
  constructor
  · exact Nat.le_of_dvd (Nat.succ_pos _)
  · intro reached
    have full : q % i + 1 = i := by omega
    exact full.symm ▸ Nat.dvd_refl i

theorem succ_mod_of_short {i q : Nat} (short : q % i + 1 < i) : (q + 1) % i = q % i + 1 := by
  have split : q + 1 = i * (q / i) + (q % i + 1) := by rw [← Nat.add_assoc, Nat.div_add_mod]
  rw [split, Nat.mul_add_mod, Nat.mod_eq_of_lt short]

/-- One poll: it looks where it is due, and goes on counting. -/
theorem poll_counting (interval quiet : Nat) (notices : List Notice) :
    (counting interval quiet).poll notices =
      (decide (Due interval quiet notices), counting interval (quietAfter quiet notices)) := by
  by_cases told : notices.any Notice.isRelevant = true
  · have due : Due interval quiet notices := .inl told
    rw [poll_of_relevant told, decide_eq_true due, quietAfter, if_pos told]
    simp only [counting, Nat.zero_mod]
  rw [poll_of_quiet rfl (Bool.not_eq_true _ ▸ told), quietAfter, if_neg told]
  by_cases full : 0 < interval ∧ interval ∣ quiet + 1
  · have reached := (dvd_succ_iff full.1).mp full.2
    have due : Due interval quiet notices := .inr full
    rw [decide_eq_true due]
    simp [counting, full.1, reached, Nat.mod_eq_zero_of_dvd full.2]
  have idle : ¬ Due interval quiet notices := fun due => due.elim told full
  rw [decide_eq_false idle]
  -- Without an interval the count is never full, so it may run on as it likes.
  rcases Nat.eq_zero_or_pos interval with rfl | positive
  · simp [counting]
  · have short := Nat.not_le.mp fun reached => full ⟨positive, (dvd_succ_iff positive).mpr reached⟩
    simp [counting, Nat.not_le.mpr short, succ_mod_of_short short]

end Nudge

/-! ## 2. Looks -/

namespace Watcher

variable {w : Watcher} {n : Nudge} {fs : Files} {current : Snapshot} {e : ScanError} {notices : List Notice} {i q : Nat}

theorem look_of_error (failed : w.scan fs = .error e) : w.look fs = (none, w) := by
  rw [look, failed]

/-- A look that sees no difference leaves everything as it was. -/
theorem look_of_same (seen : w.scan fs = .ok current) (same : (w.snapshot.diff current).isEmpty = true) :
    w.look fs = (none, w) := by
  rw [look, seen]
  exact if_pos same

/-- A look that sees differences reports all of them. -/
theorem look_of_changed (seen : w.scan fs = .ok current) (changed : ¬ (w.snapshot.diff current).isEmpty = true) :
    w.look fs = (some (w.snapshot.diff current), { w with snapshot := current }) := by
  rw [look, seen]
  exact if_neg changed

/-- What a look can do: report nothing and change nothing, or report all differences and take over what it sees. -/
theorem look_cases (w : Watcher) (fs : Files) :
    w.look fs = (none, w) ∨
      ∃ current, w.scan fs = .ok current ∧ (w.snapshot.diff current).isEmpty = false ∧
        w.look fs = (some (w.snapshot.diff current), { w with snapshot := current }) := by
  cases seen : w.scan fs with
  | error e => exact .inl (look_of_error seen)
  | ok current =>
    by_cases same : (w.snapshot.diff current).isEmpty = true
    · exact .inl (look_of_same seen same)
    · exact .inr ⟨current, rfl, Bool.not_eq_true _ ▸ same, look_of_changed seen same⟩

/-- A look that reports nothing changes nothing. -/
theorem look_of_none (silent : (w.look fs).1 = none) : w.look fs = (none, w) := by
  rcases look_cases w fs with same | ⟨current, -, -, changed⟩
  · exact same
  · rw [changed] at silent
    cases silent

theorem poll_of_notified (on : w.nudge = some n) (notices : List Notice) :
    w.poll notices fs =
      if (n.poll notices).1 then ({ w with nudge := some (n.poll notices).2 } : Watcher).look fs
      else (none, { w with nudge := some (n.poll notices).2 }) := by
  rw [poll, on]

/-- The watcher behind so many quiet polls. -/
def counting (w : Watcher) (interval quiet : Nat) : Watcher := { w with nudge := some (.counting interval quiet) }

/-- A poll that is due looks. -/
theorem poll_of_due (due : Nudge.Due i q notices) :
    (w.counting i q).poll notices fs = (w.counting i (Nudge.quietAfter q notices)).look fs := by
  rw [poll_of_notified rfl, Nudge.poll_counting, decide_eq_true due, if_pos rfl]
  rfl

/-- A poll that is not due does nothing but count. -/
theorem poll_of_idle (idle : ¬ Nudge.Due i q notices) :
    (w.counting i q).poll notices fs = (none, w.counting i (Nudge.quietAfter q notices)) := by
  rw [poll_of_notified rfl, Nudge.poll_counting, decide_eq_false idle, if_neg Bool.false_ne_true]
  rfl

/-- Nor does a poll that looks and reports nothing. -/
theorem poll_of_silent (silent : ((w.counting i q).poll notices fs).1 = none) :
    (w.counting i q).poll notices fs = (none, w.counting i (Nudge.quietAfter q notices)) := by
  by_cases due : Nudge.Due i q notices
  · rw [poll_of_due due] at silent ⊢
    exact look_of_none silent
  · exact poll_of_idle due

end Watcher

/-! ## 3. Polls in a row -/

/-- What a poll meets: the notices since the one before, and the files as they are then. -/
structure Encounter where
  notices : List Notice
  files : Files

namespace Encounter

/-- How many polls in a row are without a notice that matters behind `row`, where there were `q` in front of it. -/
def quietFrom (q : Nat) (row : List Encounter) : Nat := row.foldl (fun q m => Nudge.quietAfter q m.notices) q

/-- How many of the polls at the end of a row are without such a notice. -/
def quiet (row : List Encounter) : Nat := quietFrom 0 row

end Encounter

namespace Watcher

variable {w : Watcher} {n : Nudge} {fs : Files} {e : ScanError} {notices : List Notice} {i q : Nat}

/-- The watcher after polls in a row. -/
def after (w : Watcher) (row : List Encounter) : Watcher := row.foldl (fun w m => (w.poll m.notices m.files).2) w

/-- No poll of the row reports a change. -/
def Silent (w : Watcher) : List Encounter → Prop
  | [] => True
  | m :: row => (w.poll m.notices m.files).1 = none ∧ ((w.poll m.notices m.files).2).Silent row

/-- Through polls that report nothing the snapshot stays as it was. -/
theorem after_of_silent {row : List Encounter} (silent : (w.counting i q).Silent row) :
    (w.counting i q).after row = w.counting i (Encounter.quietFrom q row) := by
  -- On the row, for every count in front of it: each poll moves the count and nothing else.
  induction row generalizing q with
  | nil => rfl
  | cons m row ih =>
    obtain ⟨first, later⟩ := silent
    have step := poll_of_silent first
    rw [step] at later
    show ((w.counting i q).poll m.notices m.files).2.after row = _
    rw [step]
    exact ih later

/-- **What is reported once a look has failed.**  Let a poll be told of a change and fail to look.  However many polls
    follow that report nothing, the snapshot stays the one from before; and the next poll that is due, on a notice or
    where the interval is full, reports every difference from this snapshot if it can look.  A poll that is not due
    reports nothing.  So with an interval of one the next poll that can look reports, without another notice too; with a
    longer one it may take as many polls, and without one it takes another notice. -/
theorem notified_change_kept (on : w.nudge = some n) (told : notices.any Notice.isRelevant = true)
    (failed : w.scan fs = .error e) :
    (w.poll notices fs).1 = none ∧
      ∀ (row : List Encounter) (m : Encounter) (current : Snapshot), (w.poll notices fs).2.Silent row →
        w.scan m.files = .ok current →
        let before := (w.poll notices fs).2.after row
        let next := before.poll m.notices m.files
        before.snapshot = w.snapshot ∧
          (Nudge.Due n.interval (Encounter.quiet row) m.notices →
            if (w.snapshot.diff current).isEmpty then next.1 = none
            else next.1 = some (w.snapshot.diff current) ∧ next.2.snapshot = current) ∧
          (¬ Nudge.Due n.interval (Encounter.quiet row) m.notices →
            next.1 = none ∧ next.2.snapshot = w.snapshot) := by
  have first : w.poll notices fs = (none, w.counting n.interval 0) := by
    rw [poll_of_notified on, Nudge.poll_of_relevant told, if_pos rfl]
    exact look_of_error failed
  rw [first]
  refine ⟨rfl, fun row m current silent seen => ?_⟩
  rw [after_of_silent silent]
  refine ⟨rfl, fun due => ?_, fun idle => ?_⟩
  · have seen' : (w.counting n.interval (Nudge.quietAfter (Encounter.quiet row) m.notices)).scan m.files =
        .ok current := seen
    rw [← Encounter.quiet, poll_of_due due]
    by_cases same : (w.snapshot.diff current).isEmpty = true
    · rw [if_pos same, look_of_same seen' same]
    · rw [if_neg same, look_of_changed seen' same]
      exact ⟨rfl, rfl⟩
  · rw [← Encounter.quiet, poll_of_idle idle]
    exact ⟨rfl, rfl⟩

/-- A watcher of `s` behind its first poll, when there was nothing yet. -/
def watched (interval : Nat) : Watcher := (((Watcher.create "s" "ks" true).withNotices interval).poll [] .empty).2

/-- A root that is a plain file cannot be looked through. -/
def brokenRoot : Files := ⟨[], [(["s"], .file [] (.time 1))], 0⟩

/-- The directory that is put in its place, with a script in it. -/
def mendedRoot : Files := ⟨[], [(["s"], .directory), (["s", "a.ks"], .file [] (.time 2))], 0⟩

theorem scan_mendedRoot (interval : Nat) : (watched interval).scan mendedRoot = .ok [("s/a.ks", .time 2)] := by
  cbv

/-- With an interval of two, the second quiet poll behind the failed look reports the script. -/
theorem notified_change_kept_second :
    (watched 2).nudge = some ⟨2, 0, true⟩ ∧ (watched 2).scan brokenRoot = .error ⟨"s", .notDirectory⟩ ∧
      (let failed := ((watched 2).poll [.created] brokenRoot).2
       failed.Silent [⟨[], mendedRoot⟩] ∧
         ((failed.after [⟨[], mendedRoot⟩]).poll [] mendedRoot).1 = some ⟨["s/a.ks"], [], []⟩) := by
  have on : (watched 2).nudge = some ⟨2, 0, true⟩ := by cbv
  have failed : (watched 2).scan brokenRoot = .error ⟨"s", .notDirectory⟩ := by cbv
  have silent : ((watched 2).poll [.created] brokenRoot).2.Silent [⟨[], mendedRoot⟩] := ⟨by cbv, trivial⟩
  have due : Nudge.Due 2 (Encounter.quiet [⟨[], mendedRoot⟩]) [] := by decide +kernel
  have kept := (notified_change_kept on (by decide : [Notice.created].any Notice.isRelevant = true) failed).2
    [⟨[], mendedRoot⟩] ⟨[], mendedRoot⟩ _ silent (scan_mendedRoot 2)
  have changes : (watched 2).snapshot.diff [("s/a.ks", .time 2)] = ⟨["s/a.ks"], [], []⟩ := by cbv
  have reported := kept.2.1 due
  rw [changes, if_neg (by decide)] at reported
  exact ⟨on, failed, silent, reported.1⟩

/-- Without an interval the notice is gone with the look that failed: however often it is polled, the script that is
    there by then is not reported. -/
theorem notified_change_lost :
    (watched 0).scan brokenRoot = .error ⟨"s", .notDirectory⟩ ∧
      (let failed := ((watched 0).poll [.created] brokenRoot).2
       failed.scan mendedRoot = .ok [("s/a.ks", .time 2)] ∧
         ((failed.snapshot.diff [("s/a.ks", .time 2)]).added = ["s/a.ks"]) ∧
         ∀ k, failed.Silent (List.replicate k ⟨[], mendedRoot⟩)) := by
  have never (q : Nat) : ¬ Nudge.Due 0 q [] := by simp [Nudge.Due]
  have still (q k : Nat) : ((watched 0).counting 0 q).Silent (List.replicate k ⟨[], mendedRoot⟩) := by
    induction k generalizing q with
    | zero => trivial
    | succ k ih =>
      have idle : ((watched 0).counting 0 q).poll [] mendedRoot = (none, (watched 0).counting 0 (q + 1)) :=
        poll_of_idle (never q)
      rw [List.replicate_succ, Silent, idle]
      exact ⟨rfl, ih (q + 1)⟩
  have failed : ((watched 0).poll [.created] brokenRoot).2 = (watched 0).counting 0 0 := by cbv
  rw [failed]
  exact ⟨by cbv, scan_mendedRoot 0, by cbv, still 0⟩

end Watcher

end ScriptHost
