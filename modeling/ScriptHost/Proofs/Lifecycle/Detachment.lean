import ScriptHost.Proofs.Lifecycle.Deeds

/-!
# Detachment — all that is attached to an entity, at once or one by one

An entity that goes takes all its attachments with it.  They are taken out of the list in a walk by index, with
scripts at work between one removal and the next.  That comes to the same as detaching each of its types by name,
and no failure on the way keeps another attachment from its farewell.
-/

namespace ScriptHost.Lifecycle

variable {l : Lifecycle} {s : Surroundings} {owner : Entity}

/-! ## 1. One by one -/

/-- The attachments on an entity. -/
def on (owner : Entity) (as : List Attachment) : List Attachment := as.filter (·.owner == owner)

/-- The attachments on other entities. -/
def off (owner : Entity) (as : List Attachment) : List Attachment := as.filter (·.owner != owner)

theorem on_off_cons_of_eq {a : Attachment} (mine : a.owner = owner) (as : List Attachment) :
    on owner (a :: as) = a :: on owner as ∧ off owner (a :: as) = off owner as := by
  simp [on, off, mine]

theorem on_off_cons_of_ne {a : Attachment} (other : a.owner ≠ owner) (as : List Attachment) :
    on owner (a :: as) = on owner as ∧ off owner (a :: as) = a :: off owner as := by
  simp [on, off, other]

/-- The types attached to an entity, in the order in which they were attached. -/
def typesOn (l : Lifecycle) (owner : Entity) : List String := (on owner l.attachments).map (·.typeName)

/-- Detaches types from an entity one after the other, and counts those that were attached. -/
def detachEach (l : Lifecycle) (s : Surroundings) (owner : Entity) : List String → Nat × Lifecycle × Trace
  | [] => (0, l, .empty)
  | typeName :: more =>
    let first := l.detach s owner typeName
    let later := first.2.1.detachEach s owner more
    ((if first.1 then 1 else 0) + later.1, later.2.1, first.2.2 ++ later.2.2)

/-- Detaching the types one after the other, as deeds. -/
def detachDeeds (s : Surroundings) (owner : Entity) (types : List String) : List Deed :=
  types.map fun typeName => .event (.detach s owner typeName)

/-- Goes through the attachments by index, from one on.  Where one is of the entity it is taken out, its instance
    gets `on_destroy`, and the one that has moved up is looked at next.  It counts the attachments taken out and tells
    the calls. -/
def sweep (l : Lifecycle) (s : Surroundings) (owner : Entity) (k : Nat) : Nat × Lifecycle × List Delivery :=
  if there : k < l.attachments.length then
    if l.attachments[k].owner == owner then
      let later := (l.settle (l.attachments.eraseIdx k) (l.attachments[k].destroy s)).1.sweep s owner k
      (1 + later.1, later.2.1, l.attachments[k].calls s .destroy ++ later.2.2)
    else l.sweep s owner (k + 1)
  else (0, l, [])
termination_by l.attachments.length - k
decreasing_by
  · show (l.attachments.eraseIdx k).length - k < _
    rw [List.length_eraseIdx_of_lt there]
    omega
  · omega

theorem settle_settle (l : Lifecycle) (as bs : List Attachment) (t u : Trace) :
    ((l.settle as t).1.settle bs u).1 = (l.settle bs (t ++ u)).1 :=
  congrArg (Lifecycle.mk bs · l.callDestroy) (recordAll_append l.errors t.errors u.errors).symm

theorem settle_self {as : List Attachment} (there : l.attachments = as) : l.settle as .empty = (l, .empty) := by
  rw [settle, ← there]
  rfl

/-- The first attachment of an entity is the one found under its name. -/
theorem detach_first {before more : List Attachment} {a : Attachment} (others : ∀ b ∈ before, b.owner ≠ a.owner)
    (there : l.attachments = before ++ a :: more) :
    l.find? a.owner a.typeName = some a ∧
      l.detach s a.owner a.typeName = (true, l.settle (before ++ more) (a.destroy s)) := by
  have passed : ∀ b ∈ before, ¬ b.isFor a.owner a.typeName = true := fun b hb named =>
    others b hb (beq_iff_eq.mp (Bool.and_eq_true_iff.mp named).1)
  have own : a.isFor a.owner a.typeName = true := by simp [Attachment.isFor]
  have found : l.find? a.owner a.typeName = some a := by
    rw [find?, there, List.find?_append, List.find?_eq_none.mpr passed, Option.none_or, List.find?_cons, own]
  have left : l.attachments.eraseP (·.isFor a.owner a.typeName) = before ++ more := by
    rw [there, List.eraseP_append_right _ passed, List.eraseP_cons, own]
    rfl
  exact ⟨found, by rw [detach, found, left]⟩

/-- The attachments on an entity are detached one after the other, if none of it are in front of them. -/
theorem detachEach_eq {before as : List Attachment} (others : ∀ b ∈ before, b.owner ≠ owner)
    (there : l.attachments = before ++ as) :
    l.detachEach s owner ((on owner as).map (·.typeName)) =
        ((on owner as).length,
          l.settle (before ++ off owner as) (.concat ((on owner as).map (·.destroy s)))) ∧
      l.runCalls (detachDeeds s owner ((on owner as).map (·.typeName))) =
        (on owner as).flatMap (·.calls s .destroy) := by
  -- On the attachments that are still to come, in every lifecycle that has them behind some that stay.
  induction as generalizing l before with
  | nil => exact ⟨Prod.ext rfl (settle_self there).symm, rfl⟩
  | cons a as ih =>
    by_cases mine : a.owner = owner
    · obtain ⟨here, left⟩ := on_off_cons_of_eq mine as
      obtain rfl := mine
      obtain ⟨found, first⟩ := detach_first (s := s) others there
      obtain ⟨each, calls⟩ := ih (l := (l.settle (before ++ as) (a.destroy s)).1) others rfl
      rw [here, left, List.map_cons]
      constructor
      · rw [detachEach, first]
        dsimp only
        rw [each, if_pos rfl, List.length_cons, Nat.add_comm, settle_settle]
        rfl
      · have farewell : l.calls (.detach s a.owner a.typeName) = a.calls s .destroy := by
          rw [Lifecycle.calls, found, Option.toList_some, List.flatMap_singleton]
        have gone : (l.undergo (.detach s a.owner a.typeName)).1 = (l.settle (before ++ as) (a.destroy s)).1 := by
          rw [undergo, first]
        rw [detachDeeds, List.map_cons, runCalls, List.flatMap_cons, callsOf, farewell, perform, gone]
        exact congrArg (_ ++ ·) calls
    · -- It stays, and belongs to those in front from now on.
      obtain ⟨here, left⟩ := on_off_cons_of_ne mine as
      have others : ∀ b ∈ before ++ [a], b.owner ≠ owner :=
        List.forall_mem_append.mpr ⟨others, List.forall_mem_singleton.mpr mine⟩
      have there : l.attachments = (before ++ [a]) ++ as := there.trans (List.append_cons ..)
      rw [here, left, List.append_cons]
      exact ih others there

/-- A walk by index takes the same ones out. -/
theorem sweep_eq {before as : List Attachment} (there : l.attachments = before ++ as) :
    l.sweep s owner before.length =
      ((on owner as).length,
        (l.settle (before ++ off owner as) (Delivery.traces ((on owner as).flatMap (·.calls s .destroy)))).1,
        (on owner as).flatMap (·.calls s .destroy)) := by
  induction as generalizing l before with
  | nil =>
    have done : ¬ before.length < l.attachments.length := by simp [there]
    rw [sweep, dif_neg done]
    exact Prod.ext rfl (Prod.ext (congrArg Prod.fst (settle_self there)).symm rfl)
  | cons a as ih =>
    have more : before.length < l.attachments.length := by simp [there]
    have next : l.attachments[before.length] = a := by simp [there]
    rw [sweep, dif_pos more]
    simp only [next]
    by_cases mine : a.owner = owner
    · obtain ⟨here, left⟩ := on_off_cons_of_eq mine as
      -- What is behind it moves up, so the walk goes on at the same index.
      have erased : l.attachments.eraseIdx before.length = before ++ as := by
        rw [there, List.eraseIdx_append_of_length_le (Nat.le_refl _), Nat.sub_self, List.eraseIdx_cons_zero]
      rw [if_pos (beq_iff_eq.mpr mine), erased, ih rfl, here, left, List.flatMap_cons, Delivery.traces_append,
        settle_settle, List.length_cons, Nat.add_comm, ← Attachment.deliver_told]
      rfl
    · obtain ⟨here, left⟩ := on_off_cons_of_ne mine as
      have there : l.attachments = (before ++ [a]) ++ as := there.trans (List.append_cons ..)
      have walked := ih there
      rw [List.length_append, List.length_singleton] at walked
      rw [if_neg (by simpa using mine), here, left, List.append_cons before a, walked]

/-! ## 2. All at once -/

theorem detachEntity_eq (l : Lifecycle) (s : Surroundings) (owner : Entity) :
    l.detachEntity s owner =
      ((on owner l.attachments).length,
        l.settle (off owner l.attachments) (.concat ((on owner l.attachments).map (·.destroy s)))) := by
  rw [detachEntity, List.partition_eq_filter_filter]
  rfl

theorem free_detachEntity (l : Lifecycle) (s : Surroundings) (owner : Entity) :
    (l.detachEntity s owner).2.1.Free owner := by
  refine free_iff.mpr fun a ha => ?_
  rw [detachEntity_attachments] at ha
  exact bne_iff_ne.mp (List.mem_filter.mp ha).2

theorem calls_detachEntity (l : Lifecycle) (s : Surroundings) (owner : Entity) :
    l.calls (.detachEntity s owner) =
      (on owner l.attachments).filterMap fun a =>
        a.running.map fun i => ⟨a.owner, a.typeName, ⟨s, .destroy, i, a.state⟩⟩ := by
  rw [List.filterMap_eq_flatMap_toList]
  simp only [Option.toList_map]
  rfl

/-- What it is to detach all that is attached to an entity. -/
structure Detaches (l : Lifecycle) (s : Surroundings) (owner : Entity) : Prop where
  /-- The count, the lifecycle and what the hooks leave behind are those of detaching type after type. -/
  oneByOne : l.detachEach s owner (l.typesOn owner) = l.detachEntity s owner
  /-- So are they where the list is gone through by index, while it gets shorter. -/
  walked : l.sweep s owner 0 =
    ((l.detachEntity s owner).1, (l.detachEntity s owner).2.1, l.calls (.detachEntity s owner))
  count : (l.detachEntity s owner).1 = l.attachments.countP (·.owner == owner)
  /-- The other attachments are left as they were, in their order. -/
  left : (l.detachEntity s owner).2.1.attachments = l.attachments.filter (·.owner != owner)
  /-- Each instance gets `on_destroy` once and as it was, whatever came of the calls before. -/
  farewells : l.calls (.detachEntity s owner) =
    (l.attachments.filter (·.owner == owner)).filterMap fun a =>
      a.running.map fun i => ⟨a.owner, a.typeName, ⟨s, .destroy, i, a.state⟩⟩
  sameCalls : l.runCalls (detachDeeds s owner (l.typesOn owner)) = l.calls (.detachEntity s owner)
  told : (l.detachEntity s owner).2.2 = Delivery.traces (l.calls (.detachEntity s owner))
  recorded : (l.detachEntity s owner).2.1.errors =
    l.errors.recordAll ((l.calls (.detachEntity s owner)).filterMap Delivery.failure?)
  gone : ∀ a ∈ (l.detachEntity s owner).2.1.attachments, a.owner ≠ owner
  /-- From then on there is nothing to detach, until something is attached again. -/
  later : ∀ deeds : List Deed, (∀ d ∈ deeds, ∀ typeName, d ≠ .event (.attach owner typeName)) →
    ∀ s' typeName, ((l.detachEntity s owner).2.1.run deeds).detach s' owner typeName =
      (false, (l.detachEntity s owner).2.1.run deeds, .empty)

theorem detaches (l : Lifecycle) (s : Surroundings) (owner : Entity) : l.Detaches s owner := by
  have nobody : ∀ b ∈ ([] : List Attachment), b.owner ≠ owner := List.forall_mem_nil _
  obtain ⟨each, calls⟩ := detachEach_eq (s := s) nobody (l := l) rfl
  have whole := detachEntity_eq l s owner
  have told : (l.detachEntity s owner).2.2 = Delivery.traces (l.calls (.detachEntity s owner)) :=
    undergo_told l (.detachEntity s owner)
  have left : (l.detachEntity s owner).2.1 =
      (l.settle (off owner l.attachments) (Delivery.traces (l.calls (.detachEntity s owner)))).1 := by
    rw [← told, whole]
    rfl
  have free := free_detachEntity l s owner
  exact
    { oneByOne := each.trans whole.symm
      walked := by
        rw [left, whole]
        exact sweep_eq (List.nil_append l.attachments).symm
      count := by
        rw [whole, List.countP_eq_length_filter]
        rfl
      left := detachEntity_attachments l s owner
      farewells := calls_detachEntity l s owner
      sameCalls := calls
      told := told
      recorded := undergo_errors l (.detachEntity s owner)
      gone := free_iff.mp free
      later := fun deeds others s' typeName => (free.run others).detach s' typeName }

end ScriptHost.Lifecycle
