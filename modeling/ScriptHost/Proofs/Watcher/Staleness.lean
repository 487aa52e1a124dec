import ScriptHost.Proofs.Watcher.Notified

/-!
# Staleness — how long a notified watcher goes without a look

The count of quiet polls is the number of polls since the last look, and a look comes before it reaches the interval.
So among any `interval` polls in a row there is a look; with an interval of zero only the first poll and a notice make
the watcher look.
-/

namespace ScriptHost

namespace Nudge

/-! ## 1. Answers in a row -/

/-- The state after polls in a row, each with the notices since the one before. -/
def after (n : Nudge) (batches : List (List Notice)) : Nudge := batches.foldl (fun n batch => (n.poll batch).2) n

/-- What the polls answer: whether there is to be a look. -/
def answers (n : Nudge) : List (List Notice) → List Bool
  | [] => []
  | batch :: batches => (n.poll batch).1 :: (n.poll batch).2.answers batches

/-- How many polls there have been since the last look. -/
def idle (answered : List Bool) : Nat := (answered.rtakeWhile (! ·)).length

/-- What makes a poll look: that it is the first one, a notice that matters, or that the interval is full with it. -/
def Looks (interval : Nat) (answered : List Bool) (batch : List Notice) : Prop :=
  answered = [] ∨ batch.any Notice.isRelevant = true ∨ 0 < interval ∧ idle answered + 1 = interval

instance (interval : Nat) (answered : List Bool) (batch : List Notice) : Decidable (Looks interval answered batch) :=
  inferInstanceAs (Decidable (_ ∨ _))

variable {interval : Nat} {answered : List Bool} {batch : List Notice} {batches more : List (List Notice)} {n : Nudge}

theorem after_append : n.after (batches ++ more) = (n.after batches).after more := List.foldl_append

theorem length_answers : (n.answers batches).length = batches.length := by
  induction batches generalizing n with
  | nil => rfl
  | cons batch batches ih => rw [answers, List.length_cons, ih, List.length_cons]

/-- Polls without a look add up. -/
theorem idle_append_of_quiet {later : List Bool} (quiet : true ∉ later) :
    idle (answered ++ later) = idle answered + later.length := by
  induction later using List.reverseRecOn with
  | nil => simp
  | append_singleton later answer ih =>
    have no : answer = false := by
      apply Bool.eq_false_iff.mpr
      intro yes
      exact quiet (by rw [yes]; simp)
    have before : true ∉ later := fun looked => quiet (List.mem_append_left _ looked)
    rw [no, ← List.append_assoc, idle, List.rtakeWhile_concat_pos _ _ _ (by decide), List.length_append,
      List.length_append, ← Nat.add_assoc]
    exact congrArg (· + 1) (ih before)

/-! ## 2. The count -/

/-- The state counts the polls since the last look, and the count has not reached the interval. -/
structure Counts (interval : Nat) (answered : List Bool) (n : Nudge) : Prop where
  spaced : n.interval = interval
  counted : n.quiet = idle answered
  primed : n.primed = true ↔ answered ≠ []
  short : 0 < interval → idle answered < interval

theorem counts_start (interval : Nat) : Counts interval [] (start interval) where
  spaced := rfl
  counted := rfl
  primed := by simp [start]
  short positive := positive

namespace Counts

/-- A look starts the count afresh. -/
theorem looked (h : Counts interval answered n) : Counts interval (answered ++ [true]) ⟨n.interval, 0, true⟩ := by
  have fresh : idle (answered ++ [true]) = 0 := by
    rw [idle, List.rtakeWhile_concat_neg _ _ _ (by decide)]
    rfl
  refine ⟨h.spaced, fresh.symm, by simp, fun positive => ?_⟩
  rw [fresh]
  exact positive

/-- One poll: it looks where it should, and the count goes on. -/
theorem poll (h : Counts interval answered n) (batch : List Notice) :
    (n.poll batch).1 = decide (Looks interval answered batch) ∧
      Counts interval (answered ++ [(n.poll batch).1]) (n.poll batch).2 := by
  by_cases told : n.primed = false ∨ batch.any Notice.isRelevant = true
  · -- The first poll and a told one look whatever the count is.
    have polled : n.poll batch = (true, ⟨n.interval, 0, true⟩) := by
      rw [Nudge.poll, if_pos]
      rcases told with first | relevant
      · rw [first]; rfl
      · rw [relevant, Bool.or_true]
    have looks : Looks interval answered batch := by
      rcases told with first | relevant
      · left
        by_contra some'
        rw [h.primed.mpr some'] at first
        cases first
      · exact .inr (.inl relevant)
    rw [polled]
    exact ⟨(decide_eq_true looks).symm, h.looked⟩
  obtain ⟨primed, quiet⟩ := not_or.mp told
  rw [Bool.not_eq_false] at primed
  rw [Bool.not_eq_true] at quiet
  have some' : answered ≠ [] := h.primed.mp primed
  rw [poll_of_quiet primed quiet, h.counted, h.spaced]
  by_cases full : 0 < interval ∧ interval ≤ idle answered + 1
  · have last : idle answered + 1 = interval := by
      have := h.short full.1
      omega
    have looks : Looks interval answered batch := .inr (.inr ⟨full.1, last⟩)
    rw [if_pos (by simpa using full)]
    have fresh := h.looked
    rw [h.spaced] at fresh
    exact ⟨(decide_eq_true looks).symm, fresh⟩
  · have idles : ¬ Looks interval answered batch := by
      rintro (none | relevant | ⟨positive, last⟩)
      · exact some' none
      · rw [quiet] at relevant
        cases relevant
      · exact full ⟨positive, last.ge⟩
    have longer : idle (answered ++ [false]) = idle answered + 1 := idle_append_of_quiet (by decide)
    rw [if_neg (by simpa using full)]
    refine ⟨(decide_eq_false idles).symm, rfl, longer.symm, by simp, fun positive => ?_⟩
    rw [longer]
    have short := h.short positive
    omega

/-- Polls in a row. -/
theorem after (h : Counts interval answered n) (batches : List (List Notice)) :
    Counts interval (answered ++ n.answers batches) (n.after batches) := by
  -- On the polls, for every state in front of them: each one adds its answer.
  induction batches generalizing answered n with
  | nil =>
    rw [answers, List.append_nil]
    exact h
  | cons batch batches ih =>
    have later := ih (h.poll batch).2
    rw [List.append_assoc, List.singleton_append] at later
    exact later

/-- Among as many polls in a row as the interval says one looks. -/
theorem exists_look (h : Counts interval answered n) (positive : 0 < interval) (window : List (List Notice))
    (full : window.length = interval) : true ∈ n.answers window := by
  by_contra quiet
  have short := (h.after window).short positive
  rw [idle_append_of_quiet quiet, length_answers, full] at short
  omega

end Counts

theorem counts_after (interval : Nat) (batches : List (List Notice)) :
    Counts interval ((start interval).answers batches) ((start interval).after batches) :=
  (counts_start interval).after batches

end Nudge

/-! ## 3. Looks of a watcher -/

namespace Watcher

variable {w : Watcher} {n : Nudge}

/-- However the looks go, the state of notification is that of the polls. -/
theorem nudge_after (on : w.nudge = some n) (row : List Encounter) :
    (w.after row).nudge = some (n.after (row.map (·.notices))) := by
  induction row generalizing w n with
  | nil => exact on
  | cons m row ih =>
    apply ih
    show (w.poll m.notices m.files).2.nudge = some (n.poll m.notices).2
    rw [poll_of_notified on]
    split
    · rcases look_cases { w with nudge := some (n.poll m.notices).2 } m.files with same | ⟨current, -, -, changed⟩
      · rw [same]
      · rw [changed]
    · rfl

end Watcher

/-- **A notified watcher is never stale for long.**  A poll looks on the first time, on a notice that matters or has
    failed, and, if there is an interval, where it is the last of so many polls since the last look; otherwise it does
    nothing but count.  So the count stays below the interval and any `interval` polls in a row contain a look, and with
    an interval of zero there is none but on the first poll and on a notice. -/
theorem Nudge.staleness_bounded (interval : Nat) :
    (∀ before batch, (((start interval).after before).poll batch).1 = true ↔
      before = [] ∨ batch.any Notice.isRelevant = true ∨
        0 < interval ∧ idle ((start interval).answers before) + 1 = interval) ∧
    (∀ (w : Watcher) (row : List Encounter) (m : Encounter),
      let polled := (w.withNotices interval).after row
      let counted := { polled with
        nudge := some ((start interval).after ((row ++ [m]).map fun e => e.notices)) }
      polled.poll m.notices m.files =
        if Looks interval ((start interval).answers (row.map (·.notices))) m.notices then counted.look m.files
        else (none, counted)) ∧
    (0 < interval → ∀ before,
      ((start interval).after before).quiet < interval ∧
        ∀ window, window.length = interval → true ∈ ((start interval).after before).answers window) ∧
    (interval = 0 → ∀ before batch, (((start interval).after before).poll batch).1 = true ↔
      before = [] ∨ batch.any Notice.isRelevant = true) := by
  -- Every poll has an answer, so there are none only in front of the first one.
  have nothing (before : List (List Notice)) : (start interval).answers before = [] ↔ before = [] := by
    rw [← List.length_eq_zero_iff, length_answers, List.length_eq_zero_iff]
  have exact' (before : List (List Notice)) (batch : List Notice) :
      (((start interval).after before).poll batch).1 = true ↔
        before = [] ∨ batch.any Notice.isRelevant = true ∨
          0 < interval ∧ idle ((start interval).answers before) + 1 = interval := by
    rw [((counts_after interval before).poll batch).1, decide_eq_true_iff, Looks, nothing]
  refine ⟨exact', fun w row m => ?_, fun positive before => ⟨?_, fun window full => ?_⟩, fun zero before batch => ?_⟩
  · have on : (w.withNotices interval).nudge = some (start interval) := rfl
    intro polled counted
    have answer := ((counts_after interval (row.map (·.notices))).poll m.notices).1
    have next : (start interval).after ((row ++ [m]).map (·.notices)) =
        (((start interval).after (row.map (·.notices))).poll m.notices).2 := by
      rw [List.map_append, after_append]
      rfl
    rw [Watcher.poll_of_notified (Watcher.nudge_after on row), answer, ← next]
    simp only [decide_eq_true_iff]
    rfl
  · rw [(counts_after interval before).counted]
    exact (counts_after interval before).short positive
  · exact (counts_after interval before).exists_look positive window full
  · rw [exact', zero]
    simp

/-- Of three polls behind the first one the second looks, without any notice that matters. -/
theorem Nudge.staleness_bounded_two :
    0 < 2 ∧ ((start 2).after [[], [.accessed]]).quiet < 2 ∧
      [[], [Notice.other]].length = 2 ∧ true ∈ ((start 2).after [[], [.accessed]]).answers [[], [Notice.other]] := by
  have bounded := ((staleness_bounded 2).2.2.1 (by decide)) [[], [.accessed]]
  exact ⟨by decide, bounded.1, rfl, bounded.2 [[], [Notice.other]] rfl⟩

end ScriptHost
