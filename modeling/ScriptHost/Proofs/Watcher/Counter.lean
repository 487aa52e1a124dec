import ScriptHost.Proofs.Watcher.Staleness

/-!
# Counter — the count of quiet polls in a word

The count and the interval are words of 32 bits.  With an interval the count starts afresh before it gets beyond it, so
that it fits however long the watcher runs.  Without one only a notice starts it afresh, and it runs over where as many
polls in a row are quiet as there are words.
-/

namespace ScriptHost.Nudge

/-! ## 1. Polls that count in a word -/

/-- Where words end. -/
def wordLimit : Nat := 1 <<< 32

/-- Whether to look again, with the count in a word; there is no answer where it does not fit. -/
def poll? (n : Nudge) (notices : List Notice) : Option (Bool × Nudge) :=
  if !n.primed || notices.any Notice.isRelevant then some (true, ⟨n.interval, 0, true⟩)
  else if wordLimit ≤ n.quiet + 1 then none
  else if 0 < n.interval && n.interval ≤ n.quiet + 1 then some (true, ⟨n.interval, 0, true⟩)
  else some (false, ⟨n.interval, n.quiet + 1, true⟩)

/-- The state after polls in a row, if all of their counts fit. -/
def after? (n : Nudge) : List (List Notice) → Option Nudge
  | [] => some n
  | batch :: batches => (n.poll? batch).bind fun polled => polled.2.after? batches

/-- If the poll has to count, there is room for one more. -/
def Room (n : Nudge) (batch : List Notice) : Prop :=
  n.primed = true → batch.any Notice.isRelevant = false → n.quiet + 1 < wordLimit

/-- There is room at every one of the polls. -/
def Fits (n : Nudge) (batches : List (List Notice)) : Prop :=
  ∀ before batch more, batches = before ++ batch :: more → (n.after before).Room batch

variable {n : Nudge} {interval : Nat} {batch : List Notice} {batches before more quiet : List (List Notice)}

/-- Where there is room, the word does not show. -/
theorem poll?_of_room (room : n.Room batch) : n.poll? batch = some (n.poll batch) := by
  rw [poll?, poll]
  split
  · rfl
  · next untold =>
    obtain ⟨primed, quiet⟩ : n.primed = true ∧ batch.any Notice.isRelevant = false := by simpa using untold
    rw [if_neg (Nat.not_le.mpr (room primed quiet))]
    split <;> rfl

theorem room_of_poll? (answers : (n.poll? batch).isSome = true) : n.Room batch := by
  intro primed quiet
  by_contra full
  rw [poll?, primed, quiet, Bool.not_true, Bool.or_false, if_neg Bool.false_ne_true,
    if_pos (Nat.not_lt.mp full)] at answers
  cases answers

theorem fits_cons : n.Fits (batch :: batches) ↔ n.Room batch ∧ (n.poll batch).2.Fits batches := by
  constructor
  · intro fits
    refine ⟨fits [] batch batches rfl, fun before batch' more split => fits (batch :: before) batch' more ?_⟩
    rw [split, List.cons_append]
  · rintro ⟨room, fits⟩ before batch' more split
    cases before with
    | nil =>
      obtain ⟨rfl, -⟩ := List.cons.inj split
      exact room
    | cons first before =>
      obtain ⟨rfl, behind⟩ := List.cons.inj split
      exact fits before batch' more behind

/-- Polls in a row go on as ever, as long as there is room. -/
theorem after?_of_fits (fits : n.Fits batches) : n.after? batches = some (n.after batches) := by
  induction batches generalizing n with
  | nil => rfl
  | cons batch batches ih =>
    obtain ⟨room, fits⟩ := fits_cons.mp fits
    rw [after?, poll?_of_room room, Option.bind_some, ih fits]
    rfl

theorem fits_of_after? (answers : (n.after? batches).isSome = true) : n.Fits batches := by
  induction batches generalizing n with
  | nil => exact fun before batch more split => nomatch List.append_eq_nil_iff.mp split.symm
  | cons batch batches ih =>
    rw [after?] at answers
    have room : n.Room batch := room_of_poll? (Option.isSome_of_isSome_bind answers)
    rw [poll?_of_room room, Option.bind_some] at answers
    exact fits_cons.mpr ⟨room, ih answers⟩

/-! ## 2. Quiet polls in a row -/

/-- The polls are quiet, and there have been others before them. -/
structure Quiet (before quiet : List (List Notice)) : Prop where
  primed : before ≠ []
  unnoticed : ∀ batch ∈ quiet, batch.any Notice.isRelevant = false

theorem quiet_append_singleton :
    Quiet before (quiet ++ [batch]) ↔ Quiet before quiet ∧ batch.any Notice.isRelevant = false := by
  constructor
  · rintro ⟨primed, unnoticed⟩
    exact ⟨⟨primed, fun b hb => unnoticed b (List.mem_append_left _ hb)⟩, unnoticed batch (by simp)⟩
  · rintro ⟨⟨primed, unnoticed⟩, last⟩
    exact ⟨primed, List.forall_mem_append.mpr ⟨unnoticed, List.forall_mem_singleton.mpr last⟩⟩

theorem primed_after (some' : batches ≠ []) : ((start interval).after batches).primed = true := by
  refine (counts_after interval batches).primed.mpr ?_
  rw [← List.length_pos_iff, length_answers]
  exact List.length_pos_iff.mpr some'

/-- Without an interval a quiet poll counts. -/
theorem quiet_poll_zero (some' : batches ≠ []) (unnoticed : batch.any Notice.isRelevant = false) :
    ((start 0).after (batches ++ [batch])).quiet = ((start 0).after batches).quiet + 1 := by
  have spaced : ((start 0).after batches).interval = 0 := (counts_after 0 batches).spaced
  rw [after_append]
  show (((start 0).after batches).poll batch).2.quiet = _
  rw [poll_of_quiet (primed_after some') unnoticed, spaced]
  rfl

/-- Without an interval the count is at least that of the quiet polls that came last. -/
theorem length_le_quiet (row : Quiet before quiet) : quiet.length ≤ ((start 0).after (before ++ quiet)).quiet := by
  induction quiet using List.reverseRecOn with
  | nil => exact Nat.zero_le _
  | append_singleton quiet batch ih =>
    obtain ⟨row, unnoticed⟩ := quiet_append_singleton.mp row
    rw [← List.append_assoc, quiet_poll_zero (List.append_ne_nil_of_left_ne_nil row.primed _) unnoticed,
      List.length_append]
    exact Nat.add_le_add_right (ih row) 1

/-- Without an interval the count is that of quiet polls which came last. -/
theorem exists_quiet (some' : batches ≠ []) : ∃ before quiet,
    batches = before ++ quiet ∧ Quiet before quiet ∧ quiet.length = ((start 0).after batches).quiet := by
  induction batches using List.reverseRecOn with
  | nil => exact absurd rfl some'
  | append_singleton batches batch ih =>
    by_cases told : batches = [] ∨ batch.any Notice.isRelevant = true
    · -- A poll that looks starts the count afresh.
      refine ⟨batches ++ [batch], [], (List.append_nil _).symm, ⟨some', List.forall_mem_nil _⟩, ?_⟩
      rw [after_append]
      show 0 = (((start 0).after batches).poll batch).2.quiet
      rcases told with rfl | relevant
      · rfl
      · rw [poll_of_relevant relevant]
    · obtain ⟨primed, unnoticed⟩ := not_or.mp told
      rw [Bool.not_eq_true] at unnoticed
      obtain ⟨before, quiet, rfl, row, length⟩ := ih primed
      refine ⟨before, quiet ++ [batch], List.append_assoc _ _ _, quiet_append_singleton.mpr ⟨row, unnoticed⟩, ?_⟩
      rw [quiet_poll_zero primed unnoticed, ← length, List.length_append]
      rfl

/-! ## 3. When the count fits -/

/-- With an interval that is a word there is always room. -/
theorem fits_of_pos (positive : 0 < interval) (word : interval < wordLimit) (batches : List (List Notice)) :
    (start interval).Fits batches := by
  intro before batch more _ _ _
  have counts := counts_after interval before
  have short := counts.short positive
  rw [counts.counted]
  omega

/-- Without an interval there is room as long as no row of quiet polls has the length of all words. -/
theorem fits_zero_iff : (start 0).Fits batches ↔
    ∀ before quiet more, batches = before ++ quiet ++ more → Quiet before quiet → quiet.length < wordLimit := by
  constructor
  · intro fits before quiet more split row
    induction quiet using List.reverseRecOn with
    | nil => decide
    | append_singleton quiet last =>
      obtain ⟨row, unnoticed⟩ := quiet_append_singleton.mp row
      have primed : ((start 0).after (before ++ quiet)).primed = true :=
        primed_after (List.append_ne_nil_of_left_ne_nil row.primed quiet)
      have room := fits (before ++ quiet) last more (by rw [split]; simp) primed unnoticed
      have shorter := length_le_quiet row
      rw [List.length_append]
      exact (Nat.add_le_add_right shorter 1).trans_lt room
  · intro short before batch more split primed unnoticed
    have some' : before ≠ [] := by
      rintro rfl
      cases primed
    obtain ⟨front, quiet, rfl, row, length⟩ := exists_quiet some'
    rw [← length]
    have longer := short front (quiet ++ [batch]) more (by rw [split]; simp)
      (quiet_append_singleton.mpr ⟨row, unnoticed⟩)
    rwa [List.length_append] at longer

/-- **The count in a word.**  With an interval that is a word the count fits at every poll of every run.  Without an
    interval it fits exactly as long as the run has no 2^32 polls in a row, behind another one, without a notice that
    matters.  As long as it fits, the run is that with a count without bounds. -/
theorem count_fits {interval : Nat} (word : interval < wordLimit) (batches : List (List Notice)) :
    (∀ n, (start interval).after? batches = some n → n = (start interval).after batches) ∧
      (0 < interval → ((start interval).after? batches).isSome = true) ∧
      (interval = 0 → (((start interval).after? batches).isSome = true ↔
        ∀ before quiet more, batches = before ++ quiet ++ more → Quiet before quiet → quiet.length < wordLimit)) := by
  refine ⟨fun n counted => ?_, fun positive => ?_, ?_⟩
  · have fits : (start interval).Fits batches := fits_of_after? (by rw [counted]; rfl)
    rw [after?_of_fits fits] at counted
    exact (Option.some.inj counted).symm
  · rw [after?_of_fits (fits_of_pos positive word batches)]
    rfl
  · rintro rfl
    rw [← fits_zero_iff]
    refine ⟨fits_of_after?, fun fits => ?_⟩
    rw [after?_of_fits fits]
    rfl

/-- With the greatest interval there is room for any number of polls. -/
theorem count_fits_greatest : wordLimit - 1 < wordLimit ∧ 0 < wordLimit - 1 ∧
    ∀ k, ((start (wordLimit - 1)).after? (List.replicate k [.accessed])).isSome = true :=
  ⟨by decide, by decide, fun k => (count_fits (by decide) (List.replicate k [.accessed])).2.1 (by decide)⟩

/-- Without an interval, and left alone, the count does not fit after as many polls as there are words, and one. -/
theorem count_runs_over : 0 < wordLimit ∧ (start 0).after? (List.replicate (wordLimit + 1) []) = none := by
  refine ⟨by decide, ?_⟩
  rw [← Option.not_isSome_iff_eq_none]
  intro answers
  have short := fits_zero_iff.mp (fits_of_after? answers) [[]] (List.replicate wordLimit []) []
    (by rw [List.append_nil, Nat.add_comm, ← List.replicate_append_replicate]; rfl)
    ⟨List.cons_ne_nil _ _, fun batch hb => by rw [List.eq_of_mem_replicate hb]; rfl⟩
  rw [List.length_replicate] at short
  exact absurd short (Nat.lt_irrefl _)

/-! ## 4. A count that goes round -/

/-- Whether to look again, with a count that starts at zero again where words end. -/
def pollAround (n : Nudge) (notices : List Notice) : Bool × Nudge :=
  if !n.primed || notices.any Notice.isRelevant then (true, ⟨n.interval, 0, true⟩)
  else
    let count := (n.quiet + 1) % wordLimit
    if 0 < n.interval && n.interval ≤ count then (true, ⟨n.interval, 0, true⟩)
    else (false, ⟨n.interval, count, true⟩)

/-- What polls with such a count answer. -/
def answersAround (n : Nudge) : List (List Notice) → List Bool
  | [] => []
  | batch :: batches => (n.pollAround batch).1 :: (n.pollAround batch).2.answersAround batches

/-- The state with its count gone round. -/
def around (n : Nudge) : Nudge := ⟨n.interval, n.quiet % wordLimit, n.primed⟩

/-- The interval is a word, and if it is there at all, the count is below it. -/
structure Short (n : Nudge) : Prop where
  word : n.interval < wordLimit
  below : 0 < n.interval → n.quiet < n.interval

/-- One poll: it answers the same, and the counts go on as before. -/
theorem pollAround_around (h : n.Short) (batch : List Notice) :
    n.around.pollAround batch = ((n.poll batch).1, (n.poll batch).2.around) ∧ (n.poll batch).2.Short := by
  have fresh : Short ⟨n.interval, 0, true⟩ := ⟨h.word, id⟩
  by_cases told : (!n.primed || batch.any Notice.isRelevant) = true
  · rw [pollAround, poll, if_pos told]
    exact ⟨if_pos told, fresh⟩
  rw [pollAround, poll, if_neg told, if_neg (show ¬(!n.around.primed || batch.any Notice.isRelevant) = true from told)]
  have count : (n.around.quiet + 1) % wordLimit = (n.quiet + 1) % wordLimit := Nat.mod_add_mod _ _ _
  simp only [count]
  by_cases positive : 0 < n.interval
  · -- With an interval no count comes to where words end.
    have below := h.below positive
    have fits : (n.quiet + 1) % wordLimit = n.quiet + 1 := Nat.mod_eq_of_lt (lt_of_le_of_lt below h.word)
    rw [fits]
    show (if (0 < n.interval && n.interval ≤ n.quiet + 1) = true then _ else _) = _ ∧ _
    split
    · exact ⟨rfl, fresh⟩
    · next more =>
      have same : around ⟨n.interval, n.quiet + 1, true⟩ = ⟨n.interval, n.quiet + 1, true⟩ :=
        congrArg (Nudge.mk n.interval · true) fits
      refine ⟨Prod.ext rfl same.symm, h.word, fun _ => ?_⟩
      simp only [positive, decide_true, Bool.true_and, decide_eq_true_eq] at more
      exact Nat.not_le.mp more
  · have idle : ∀ count, (decide (0 < n.interval) && decide (n.interval ≤ count)) = false := by simp [positive]
    rw [idle]
    rw [show n.around.interval = n.interval from rfl, idle]
    exact ⟨rfl, h.word, fun positive' => absurd positive' positive⟩

/-- **Nobody sees the count go round.**  It is looked at with an interval only, and then it does not get so far. -/
theorem answersAround_eq (word : interval < wordLimit) (batches : List (List Notice)) :
    (start interval).answersAround batches = (start interval).answers batches := by
  have run {n : Nudge} (h : n.Short) : n.around.answersAround batches = n.answers batches := by
    induction batches generalizing n with
    | nil => rfl
    | cons batch batches ih =>
      obtain ⟨same, short⟩ := pollAround_around h batch
      rw [answersAround, answers, same, ih short]
  exact run (n := start interval) ⟨word, id⟩

end ScriptHost.Nudge
