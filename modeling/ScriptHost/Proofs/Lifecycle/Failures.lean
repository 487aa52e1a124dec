import Mathlib.Data.List.DropRight
import ScriptHost.Proofs.Lifecycle.Deeds

/-!
# Failures — the log of errors and what has failed

Errors come into the log from hooks of every kind and from every operation.  What the log keeps is told here from
the calls that were made: it is the end of the list of those that failed, as long as there is room for.
-/

namespace ScriptHost

/-! ## 1. The log -/

namespace ErrorLog

/-- The log keeps the latest of `es` that it has room for. -/
def Keeps (log : ErrorLog) (es : List RecordedError) : Prop := log.entries = es.rtake log.capacity

theorem keeps_empty (capacity : Nat) : (empty capacity).Keeps [] := (List.rtake_nil capacity).symm

theorem Keeps.record {log : ErrorLog} {es : List RecordedError} (h : log.Keeps es) (e : RecordedError) :
    (log.record e).Keeps (es ++ [e]) := by
  show (log.entries ++ [e]).rtake log.capacity = (es ++ [e]).rtake log.capacity
  rw [h]
  cases log.capacity with
  | zero => rw [List.rtake_zero, List.rtake_zero]
  | succ n =>
    -- The last place is for the new error, and of the others the last `n` are the same in both.
    rw [List.rtake_concat_succ, List.rtake_concat_succ, List.rtake_eq_reverse_take_reverse,
      List.rtake_eq_reverse_take_reverse, List.rtake_eq_reverse_take_reverse, List.reverse_reverse, List.take_take,
      Nat.min_eq_left (Nat.le_succ n)]

theorem recordAll_capacity (log : ErrorLog) (es : List RecordedError) :
    (log.recordAll es).capacity = log.capacity := by
  induction es generalizing log with
  | nil => rfl
  | cons e es ih => exact ih (log.record e)

theorem Keeps.recordAll {log : ErrorLog} {es : List RecordedError} (h : log.Keeps es) (more : List RecordedError) :
    (log.recordAll more).Keeps (es ++ more) := by
  induction more generalizing log es with
  | nil =>
    rw [List.append_nil]
    exact h
  | cons e more ih =>
    rw [← List.singleton_append, ← List.append_assoc]
    exact ih (h.record e)

theorem Keeps.length {log : ErrorLog} {es : List RecordedError} (h : log.Keeps es) :
    log.entries.length = min log.capacity es.length := by
  rw [h, List.rtake, List.length_drop]
  omega

end ErrorLog

/-! ## 2. Since the errors were taken -/

/-- Whether the errors stay where they are. -/
def Deed.leavesErrors : Deed → Bool
  | takeErrors => false
  | _ => true

theorem Deed.eq_takeErrors {d : Deed} (takes : d.leavesErrors = false) : d = .takeErrors := by
  cases d with
  | takeErrors => rfl
  | event e => cases takes
  | putFields owner typeName fields => cases takes

namespace Lifecycle

variable {l : Lifecycle} {d : Deed}

/-- The calls since the errors were taken last, or since the beginning. -/
def callsSince (l : Lifecycle) (deeds : List Deed) : List Delivery :=
  (l.run (deeds.rdropWhile Deed.leavesErrors)).runCalls (deeds.rtakeWhile Deed.leavesErrors)

/-- The errors of the calls since the errors were taken last. -/
def failures (l : Lifecycle) (deeds : List Deed) : List RecordedError :=
  (l.callsSince deeds).filterMap Delivery.failure?

theorem callsSince_takeErrors (l : Lifecycle) (deeds : List Deed) : l.callsSince (deeds ++ [.takeErrors]) = [] := by
  rw [callsSince, List.rtakeWhile_concat_neg _ _ _ (by decide)]
  rfl

theorem callsSince_concat (deeds : List Deed) (leaves : d.leavesErrors = true) :
    l.callsSince (deeds ++ [d]) = l.callsSince deeds ++ (l.run deeds).callsOf d := by
  -- The deeds up to the last taking of errors and those since are all of them.
  have whole : (l.run (deeds.rdropWhile Deed.leavesErrors)).run (deeds.rtakeWhile Deed.leavesErrors) = l.run deeds := by
    rw [run, run, ← List.foldl_append, List.rdropWhile_append_rtakeWhile, run]
  rw [callsSince, List.rdropWhile_concat_pos _ _ _ leaves, List.rtakeWhile_concat_pos _ _ _ leaves, runCalls_concat,
    whole, callsSince]

/-! ## 3. What the log keeps -/

/-- A deed that takes no errors puts those of its calls into the log. -/
theorem perform_errors (l : Lifecycle) (leaves : d.leavesErrors = true) :
    (l.perform d).errors = l.errors.recordAll ((l.callsOf d).filterMap Delivery.failure?) := by
  cases d with
  | event e => exact undergo_errors l e
  | putFields owner typeName fields => rfl
  | takeErrors => cases leaves

theorem run_errors (settings : ReloadSettings) (deeds : List Deed) :
    ((create settings).run deeds).errors.capacity = settings.maxErrors ∧
      ((create settings).run deeds).errors.Keeps ((create settings).failures deeds) := by
  -- On the last deed: whatever there was before it is cut off by a taking of errors, and kept by any other deed.
  induction deeds using List.reverseRecOn with
  | nil => exact ⟨rfl, ErrorLog.keeps_empty settings.maxErrors⟩
  | append_singleton deeds d ih =>
    obtain ⟨room, keeps⟩ := ih
    rw [run_concat]
    cases leaves : d.leavesErrors with
    | false =>
      obtain rfl := Deed.eq_takeErrors leaves
      rw [failures, callsSince_takeErrors]
      exact ⟨room, ErrorLog.keeps_empty _⟩
    | true =>
      rw [failures, callsSince_concat deeds leaves, List.filterMap_append, ← failures, perform_errors _ leaves,
        ErrorLog.recordAll_capacity]
      exact ⟨room, keeps.recordAll _⟩

end Lifecycle

/-! ## 4. One failure for each failing call -/

def Delivery.hasFailed (d : Delivery) : Bool := d.received.hasFailed

/-- The error is the one of a call: it tells the entity that the call was on, and its hook. -/
structure Delivery.Fails (d : Delivery) (e : RecordedError) : Prop where
  entity : e.entity = d.owner
  owned : d.received.receiver.owner = d.owner
  error : d.received.result.error = some e.error
  hook : e.error.hook = d.received.hook

theorem Instance.hook_of_error {s : Surroundings} {i : Instance} {c : HookCall} {e : HookError}
    (failed : (i.call s c).error = some e) : e.hook = c.hook := by
  unfold call at failed
  split at failed
  · split at failed
    · obtain ⟨f, -, rfl⟩ := Option.map_eq_some_iff.mp failed
      rfl
    · obtain rfl := Option.some.inj failed
      rfl
  · cases failed

theorem Delivery.forall₂_failures {ds : List Delivery} (owned : ∀ d ∈ ds, d.Owned) :
    List.Forall₂ Fails (ds.filter hasFailed) (ds.filterMap failure?) := by
  induction ds with
  | nil => exact .nil
  | cons d ds ih =>
    obtain ⟨here, others⟩ := List.forall_mem_cons.mp owned
    cases error : d.received.result.error with
    | none =>
      have fine : ¬ d.hasFailed = true := by rw [hasFailed, Received.hasFailed, error]; exact Bool.false_ne_true
      have nothing : d.failure? = none := by rw [failure?, error]; rfl
      rw [List.filter_cons_of_neg fine, List.filterMap_cons_none nothing]
      exact ih others
    | some e =>
      have failed : d.hasFailed = true := by rw [hasFailed, Received.hasFailed, error]; rfl
      have recorded : d.failure? = some ⟨d.owner, e⟩ := by rw [failure?, error]; rfl
      rw [List.filter_cons_of_pos failed, List.filterMap_cons_some recorded]
      exact .cons ⟨rfl, here, error, Instance.hook_of_error error⟩ (ih others)

/-! ## 5. Farewells -/

namespace Attachment

variable {r : Registry} {s : Surroundings} {c : HookCall} {a : Attachment}

theorem hook_calls : ∀ d ∈ a.calls s c, d.received.hook = c.hook := by
  intro d hd
  obtain ⟨i, -, rfl⟩ := List.mem_map.mp hd
  rfl

theorem hook_instantiateCalls : ∀ d ∈ a.instantiateCalls r s, d.received.hook = .create := by
  rw [instantiateCalls]
  split
  · exact List.forall_mem_nil _
  · exact hook_calls

/-- Of the calls of a reload those of `on_destroy` go to the instance there was. -/
theorem filter_renewCalls (a : Attachment) (r : Registry) (s : Surroundings) (callDestroy : Bool) :
    (a.renewCalls r s callDestroy).filter (·.received.hook = .destroy) =
      if callDestroy then a.calls s .destroy else [] := by
  -- The fresh instance gets `on_create` only.
  have made : ((create a.owner a.typeName).instantiateCalls r s).filter (·.received.hook = .destroy) = [] := by
    refine List.filter_eq_nil_iff.mpr fun d hd => ?_
    rw [hook_instantiateCalls d hd]
    decide
  rw [renewCalls, List.filter_append, made, List.append_nil]
  split
  · exact List.filter_eq_self.mpr fun d hd => decide_eq_true (hook_calls d hd)
  · rfl

end Attachment

namespace Lifecycle

variable {l l' : Lifecycle} {s : Surroundings}

/-- Where `on_destroy` is called: wherever an attachment that holds an instance goes, and on every instance that a
    reload replaces if it is to be told. -/
structure Farewells (l : Lifecycle) : Prop where
  detach : ∀ s, ∀ a ∈ l.attachments, l.calls (.detach s a.owner a.typeName) = a.calls s .destroy
  detachEntity : ∀ s owner,
    l.calls (.detachEntity s owner) = (l.attachments.filter (·.owner == owner)).flatMap (·.calls s .destroy)
  reload : ∀ s r, (l.calls (.operate s (.reload r))).filter (·.received.hook = .destroy) =
    if l.callDestroy then l.attachments.flatMap (·.calls s .destroy) else []

theorem Whole.farewells (h : l.Whole) : l.Farewells where
  detach s a mem := by
    show (l.find? a.owner a.typeName).toList.flatMap _ = _
    rw [find?_of_mem h.distinct mem, Option.toList_some, List.flatMap_singleton]
  detachEntity s owner := rfl
  reload s r := by
    show (l.attachments.flatMap (Attachment.renewCalls r s l.callDestroy) ++ []).filter _ = _
    rw [List.append_nil, List.filter_flatMap]
    simp only [Attachment.filter_renewCalls]
    split
    · rfl
    · rw [List.flatMap_eq_nil_iff]
      exact fun _ _ => rfl

/-! ## 6. Capacity -/

/-- The lifecycles differ in nothing but the errors that they keep. -/
structure Alike (l l' : Lifecycle) : Prop where
  attachments : l.attachments = l'.attachments
  callDestroy : l.callDestroy = l'.callDestroy

theorem Alike.calls (h : Alike l l') (e : Event) : l.calls e = l'.calls e := by
  obtain ⟨as, log, b⟩ := l
  obtain ⟨as', log', b'⟩ := l'
  obtain ⟨rfl, rfl⟩ := h
  cases e <;> rfl

theorem Alike.undergo (h : Alike l l') (e : Event) : Alike (l.undergo e).1 (l'.undergo e).1 := by
  refine ⟨?_, by rw [undergo_callDestroy, undergo_callDestroy, h.callDestroy]⟩
  have found (owner : Entity) (typeName : String) : l.find? owner typeName = l'.find? owner typeName := by
    rw [find?, find?, h.attachments]
  cases e with
  | attach owner typeName =>
    show (l.attach owner typeName).2.attachments = (l'.attach owner typeName).2.attachments
    rw [attach, attach, found]
    split
    · exact h.attachments
    · exact congrArg (· ++ _) h.attachments
  | detach s owner typeName =>
    show (l.detach s owner typeName).2.1.attachments = (l'.detach s owner typeName).2.1.attachments
    rw [detach, detach, found]
    split
    · exact h.attachments
    · exact congrArg (List.eraseP _) h.attachments
  | detachEntity s owner =>
    show (l.detachEntity s owner).2.1.attachments = (l'.detachEntity s owner).2.1.attachments
    rw [detachEntity_attachments, detachEntity_attachments, h.attachments]
  | operate s op =>
    show (l.operate s op).1.attachments = (l'.operate s op).1.attachments
    rw [operate_attachments, operate_attachments, h.attachments, h.callDestroy]

theorem Alike.perform (h : Alike l l') (d : Deed) : Alike (l.perform d) (l'.perform d) := by
  cases d with
  | event e => exact h.undergo e
  | putFields owner typeName fields =>
    refine ⟨?_, h.callDestroy⟩
    show (l.putFields owner typeName fields).attachments = (l'.putFields owner typeName fields).attachments
    rw [putFields_eq, putFields_eq, h.attachments]
  | takeErrors => exact ⟨h.attachments, h.callDestroy⟩

/-- The same deeds take the same calls and make the same attachments, whatever is kept of the errors. -/
theorem Alike.run (h : Alike l l') (deeds : List Deed) :
    Alike (l.run deeds) (l'.run deeds) ∧ l.runCalls deeds = l'.runCalls deeds := by
  induction deeds generalizing l l' with
  | nil => exact ⟨h, rfl⟩
  | cons d deeds ih =>
    obtain ⟨alike, calls⟩ := ih (h.perform d)
    refine ⟨alike, ?_⟩
    rw [runCalls, runCalls, calls]
    cases d with
    | event e => exact congrArg (· ++ _) (h.calls e)
    | putFields owner typeName fields => rfl
    | takeErrors => rfl

/-! ## 7. The law -/

/-- What a lifecycle with room for so many errors keeps of the failures among some calls. -/
structure Latest (l : Lifecycle) (capacity : Nat) (calls : List Delivery) (failures : List RecordedError) : Prop where
  /-- The last ones, the oldest of them first. -/
  entries : l.errors.entries = failures.rtake capacity
  length : l.errors.entries.length = min capacity failures.length
  /-- The failures are one for each call that failed. -/
  failed : List.Forall₂ Delivery.Fails (calls.filter Delivery.hasFailed) failures
  taken : l.takeErrors = (l.errors.entries, { l with errors := .empty capacity })
  unkept : capacity = 0 → l.errors.entries = []

/-- The log is the end of what has failed since it was emptied last.  Every deed adds its calls, taking the errors
    begins anew, `on_destroy` counts like any other hook, and how much is kept has no part in anything else. -/
theorem errors_are_latest (settings : ReloadSettings) (deeds : List Deed) :
    Latest ((create settings).run deeds) settings.maxErrors ((create settings).callsSince deeds)
        ((create settings).failures deeds) ∧
      (∀ d, (create settings).callsSince (deeds ++ [d]) =
        if d.leavesErrors then (create settings).callsSince deeds ++ ((create settings).run deeds).callsOf d else []) ∧
      Farewells ((create settings).run deeds) ∧
      ∀ room, ((create { settings with maxErrors := room }).run deeds).attachments =
          ((create settings).run deeds).attachments ∧
        (create { settings with maxErrors := room }).runCalls deeds = (create settings).runCalls deeds := by
  obtain ⟨room, keeps⟩ := run_errors settings deeds
  have entries : ((create settings).run deeds).errors.entries =
      ((create settings).failures deeds).rtake settings.maxErrors := by
    rw [← room]
    exact keeps
  refine ⟨⟨entries, ?_, ?_, ?_, fun none => ?_⟩, fun d => ?_, (whole_run settings deeds).farewells, fun other => ?_⟩
  · rw [keeps.length, room]
  · exact Delivery.forall₂_failures (runCalls_owned (whole_run settings _) _)
  · rw [takeErrors, ErrorLog.clear, room]
    rfl
  · rw [entries, none, List.rtake_zero]
  · cases leaves : d.leavesErrors with
    | true =>
      rw [if_pos rfl]
      exact callsSince_concat deeds leaves
    | false =>
      obtain rfl := Deed.eq_takeErrors leaves
      exact callsSince_takeErrors _ deeds
  · have alike : Alike (create { settings with maxErrors := other }) (create settings) := ⟨rfl, rfl⟩
    exact ⟨(alike.run deeds).1.attachments, (alike.run deeds).2⟩

end Lifecycle

end ScriptHost
