import ScriptHost.Proofs.Lifecycle.Deeds

/-!
# Dispatch — who is told of an event

An input event is told to every attachment at work, and a collision to those on its two entities, each of which
hears of the other one.  The attachments have their turns in order, and a hook that fails is the end of its own
attachment only.
-/

namespace ScriptHost

open Script (Value Entries)

/-! ## 1. Collisions -/

namespace Collision

variable {a b e : Entity} {phase : Phase}

/-- What a script is told of a collision with another entity. -/
def report (other : Entity) (phase : Phase) : Value :=
  .map (Entries.ofList [("other", .int other.signedBits), ("phase", .text phase.word),
    ("force", .float (0 : Float32).toFloat)])

/-- The order of the indices decides only which of the two comes first. -/
theorem between_cases (a b : Entity) (phase : Phase) :
    between a b phase = ⟨a, b, phase, 0⟩ ∨ between a b phase = ⟨b, a, phase, 0⟩ := by
  unfold between
  split
  · exact .inl rfl
  · exact .inr rfl

theorem involves_between (a b : Entity) (phase : Phase) (e : Entity) :
    (between a b phase).involves e = (e == a || e == b) := by
  rw [BEq.comm (a := e) (b := a), BEq.comm (a := e) (b := b)]
  rcases between_cases a b phase with h | h
  · rw [h, involves]
  · rw [h, involves, Bool.or_comm]

theorem other?_between_left (a b : Entity) (phase : Phase) : (between a b phase).other? a = some b := by
  rcases between_cases a b phase with h | h
  · rw [h, other?, if_pos (beq_self_eq_true a)]
  · rw [h, other?]
    by_cases same : b = a
    · rw [if_pos (beq_iff_eq.mpr same), same]
    · rw [if_neg (by simpa using same), if_pos (beq_self_eq_true a)]

theorem other?_between_right (a b : Entity) (phase : Phase) : (between a b phase).other? b = some a := by
  rcases between_cases a b phase with h | h
  · rw [h, other?]
    by_cases same : a = b
    · rw [if_pos (beq_iff_eq.mpr same), same]
    · rw [if_neg (by simpa using same), if_pos (beq_self_eq_true b)]
  · rw [h, other?, if_pos (beq_self_eq_true b)]

theorem other?_between_swap (a b : Entity) (phase : Phase) (e : Entity) :
    (between b a phase).other? e = (between a b phase).other? e := by
  by_cases left : e = a
  · rw [left, other?_between_left, other?_between_right]
  · by_cases right : e = b
    · rw [right, other?_between_left, other?_between_right]
    · -- An entity that is none of the two is on no side.
      have nowhere (x y : Entity) (hx : e ≠ x) (hy : e ≠ y) : (between x y phase).other? e = none := by
        rw [← Option.not_isSome_iff_eq_none, ← involves_iff, involves_between]
        simp [hx, hy]
      rw [nowhere b a right left, nowhere a b left right]

theorem toValue_between (a b : Entity) (phase : Phase) (e : Entity) :
    (between a b phase).toValue e = report (((between a b phase).other? e).getD e) phase := by
  have rest : (between a b phase).phase = phase ∧ (between a b phase).force = 0 := by
    rcases between_cases a b phase with h | h
    · rw [h]
      exact ⟨rfl, rfl⟩
    · rw [h]
      exact ⟨rfl, rfl⟩
  rw [toValue, rest.1, rest.2, report]

theorem toValue_between_swap (a b : Entity) (phase : Phase) (e : Entity) :
    (between b a phase).toValue e = (between a b phase).toValue e := by
  rw [toValue_between, toValue_between, other?_between_swap]

/-- Two entities of one index stay in the order in which they are given, so these are not one collision. -/
example : (between ⟨0, 2⟩ ⟨0, 1⟩ .started).a = ⟨0, 2⟩ ∧ (between ⟨0, 1⟩ ⟨0, 2⟩ .started).a = ⟨0, 1⟩ := by decide

end Collision

/-! ## 2. What is heard of a call -/

/-- A call as its script and the host come to know of it. -/
structure Heard where
  key : Entity × String
  receiver : Instance
  hook : Hook
  arguments : List Value
  result : CallResult

def Delivery.heard (d : Delivery) : Heard :=
  ⟨d.key, d.received.receiver, d.received.hook, d.received.call.arguments d.received.receiver.owner, d.received.result⟩

/-- An instance answers to the hook and to what it is told. -/
theorem Instance.call_congr {s : Surroundings} {i : Instance} {c c' : HookCall} (hook : c.hook = c'.hook)
    (told : c.arguments i.owner = c'.arguments i.owner) : i.call s c = i.call s c' := by
  unfold call run
  rw [hook, told]

namespace Attachment

variable {s : Surroundings} {c c' : HookCall} {a : Attachment} {on : Entity → Bool}

theorem deliver_congr (hook : c.hook = c'.hook) (told : ∀ e, c.arguments e = c'.arguments e) :
    a.deliver s c = a.deliver s c' := by
  cases running : a.running with
  | none => rw [deliver_of_none running, deliver_of_none running]
  | some i =>
    unfold deliver
    rw [running]
    dsimp only
    rw [Instance.call_congr hook (told i.owner), hook]

theorem heard_calls_congr (hook : c.hook = c'.hook) (told : ∀ e, c.arguments e = c'.arguments e) :
    (a.calls s c).map Delivery.heard = (a.calls s c').map Delivery.heard := by
  simp only [calls, List.map_map]
  refine List.map_congr_left fun i _ => ?_
  show Heard.mk _ i c.hook (c.arguments i.owner) (i.call s c) = ⟨_, i, c'.hook, c'.arguments i.owner, i.call s c'⟩
  rw [Instance.call_congr hook (told i.owner), hook, told]
  rfl

theorem arguments_swap (a b : Entity) (phase : Phase) (e : Entity) :
    (HookCall.collision (.between b a phase)).arguments e = (HookCall.collision (.between a b phase)).arguments e :=
  congrArg (fun v => [v]) (Collision.toValue_between_swap a b phase e)

theorem receive_swap (o : Attachment) (a b : Entity) (phase : Phase) :
    o.receive s (.collision (.between b a phase)) = o.receive s (.collision (.between a b phase)) := by
  rw [receive, receive]
  split
  · exact deliver_congr rfl (arguments_swap a b phase)
  · rfl

theorem heard_receiveCalls_swap (o : Attachment) (a b : Entity) (phase : Phase) :
    (o.receiveCalls s (.collision (.between b a phase))).map Delivery.heard =
      (o.receiveCalls s (.collision (.between a b phase))).map Delivery.heard := by
  rw [receiveCalls, receiveCalls]
  split
  · exact heard_calls_congr rfl (arguments_swap a b phase)
  · rfl

/-! ## 3. Turns -/

/-- Whether a call on the entities that `on` tells of is one for the attachment. -/
def isCalled (on : Entity → Bool) (a : Attachment) : Bool := a.state == .live && on a.owner

/-- What becomes of an attachment in its turn. -/
def heed (s : Surroundings) (c : HookCall) (on : Entity → Bool) (a : Attachment) : Attachment :=
  if a.isCalled on then (a.deliver s c).1 else a

def heedCalls (s : Surroundings) (c : HookCall) (on : Entity → Bool) (a : Attachment) : List Delivery :=
  if a.isCalled on then a.calls s c else []

/-- The turn of the attachment at an index: it gets the call if it is at work by then. -/
def turn (s : Surroundings) (c : HookCall) (on : Entity → Bool) (now : List Attachment × List Delivery) (k : Nat) :
    List Attachment × List Delivery :=
  match now.1[k]? with
  | none => now
  | some a => (now.1.set k (a.heed s c on), now.2 ++ a.heedCalls s c on)

/-- So many turns, from the first attachment on, and the calls that they take. -/
def turns (s : Surroundings) (c : HookCall) (on : Entity → Bool) (as : List Attachment) (n : Nat) :
    List Attachment × List Delivery :=
  (List.range n).foldl (turn s c on) (as, [])

/-- The attachments that had their turn have heeded the call, and the others are as they were. -/
theorem turns_eq (s : Surroundings) (c : HookCall) (on : Entity → Bool) (as : List Attachment) (n : Nat) :
    turns s c on as n = ((as.take n).map (heed s c on) ++ as.drop n, (as.take n).flatMap (heedCalls s c on)) := by
  induction n with
  | zero => rfl
  | succ n ih =>
    rw [turns, List.range_succ, List.foldl_append, ← turns, ih, List.foldl_cons, List.foldl_nil, turn]
    dsimp only
    by_cases more : n < as.length
    · -- The one whose turn it is stands first among those that are as they were.
      have front : ((as.take n).map (heed s c on)).length = n := by
        rw [List.length_map, List.length_take_of_le (Nat.le_of_lt more)]
      have next : ((as.take n).map (heed s c on) ++ as.drop n)[n]? = some as[n] := by
        rw [List.getElem?_append_right (Nat.le_of_eq front), front, Nat.sub_self, List.getElem?_drop]
        exact List.getElem?_eq_getElem more
      rw [next]
      dsimp only
      rw [List.set_append_right _ _ (Nat.le_of_eq front), front, Nat.sub_self, List.drop_eq_getElem_cons more,
        List.set_cons_zero, List.take_succ_eq_append_getElem more, List.map_append, List.flatMap_append,
        List.append_assoc, List.map_singleton, List.flatMap_singleton, List.singleton_append]
    · -- All have had their turn, and the index leads nowhere.
      have done : as.length ≤ n := Nat.le_of_not_lt more
      rw [List.take_of_length_le done, List.take_of_length_le (Nat.le_succ_of_le done), List.drop_of_length_le done,
        List.drop_of_length_le (Nat.le_succ_of_le done), List.append_nil,
        List.getElem?_eq_none (by rw [List.length_map]; exact done)]

theorem turns_length (s : Surroundings) (c : HookCall) (on : Entity → Bool) (as : List Attachment) :
    turns s c on as as.length = (as.map (heed s c on), as.flatMap (heedCalls s c on)) := by
  rw [turns_eq, List.take_length, List.drop_length, List.append_nil]

/-- Nothing happens to an attachment before its turn. -/
theorem turns_getElem? (s : Surroundings) (c : HookCall) (on : Entity → Bool) (as : List Attachment) (k : Nat) :
    (turns s c on as k).1[k]? = as[k]? := by
  rw [turns_eq]
  dsimp only
  have front : ((as.take k).map (heed s c on)).length = min k as.length := by
    rw [List.length_map, List.length_take]
  by_cases there : k < as.length
  · rw [List.getElem?_append_right (by omega), front, List.getElem?_drop]
    congr 1
    omega
  · rw [List.getElem?_eq_none (by rw [List.length_append, List.length_drop, front]; omega),
      List.getElem?_eq_none (Nat.le_of_not_lt there)]

/-! ## 4. One attachment -/

/-- An attachment that is called gets this call on the instance it holds. -/
structure Gets (s : Surroundings) (c : HookCall) (a : Attachment) (d : Delivery) : Prop where
  owner : d.owner = a.owner
  typeName : d.typeName = a.typeName
  surroundings : d.received.surroundings = s
  call : d.received.call = c
  state : d.received.state = .live
  receiver : a.running = some d.received.receiver
  owned : d.received.receiver.owner = a.owner

/-- What becomes of an attachment: one that is called holds its instance as the call leaves it and is at fault if the
    call failed, any other one is as it was. -/
structure Becomes (s : Surroundings) (c : HookCall) (on : Entity → Bool) (a b : Attachment) : Prop where
  called : a.isCalled on = true → ∃ d, Gets s c a d ∧
    b = { a with
      running := some d.received.result.after
      state := if d.received.hasFailed then .faulted else .live }
  passed : a.isCalled on = false → b = a

/-- An attachment at work holds an instance of its entity. -/
theorem Whole.exists_running (h : a.Whole) (live : a.state = .live) :
    ∃ i, a.running = some i ∧ i.owner = a.owner := by
  obtain ⟨i, running⟩ := Option.isSome_iff_exists.mp (h.holds_iff.mpr (.inl live))
  exact ⟨i, running, h.owned i running⟩

theorem Whole.isReceiving (h : a.Whole) : a.isReceiving = (a.state == .live) := by
  rw [Attachment.isReceiving]
  by_cases live : a.state = .live
  · obtain ⟨i, running, -⟩ := h.exists_running live
    rw [running, Option.isSome_some, Bool.and_true]
  · rw [show (a.state == .live) = false from by simpa using live, Bool.false_and]

/-- For an attachment in order it is the same whether it is asked for its state or for its instance, too. -/
theorem Whole.heed_eq (h : a.Whole) (s : Surroundings) (c : HookCall) (on : Entity → Bool) :
    (if on a.owner then a.receive s c else (a, .empty)).1 = a.heed s c on ∧
      (if on a.owner then a.receiveCalls s c else []) = a.heedCalls s c on := by
  unfold heed heedCalls isCalled Attachment.receive receiveCalls
  rw [h.isReceiving]
  cases on a.owner with
  | false =>
    rw [Bool.and_false]
    exact ⟨rfl, rfl⟩
  | true =>
    rw [Bool.and_true, if_pos rfl, if_pos rfl]
    refine ⟨?_, rfl⟩
    split
    · rfl
    · rfl

theorem Whole.heedCalls_of_called (h : a.Whole) (called : a.isCalled on = true) :
    ∃ d, a.heedCalls s c on = [d] ∧ Gets s c a d := by
  obtain ⟨live, -⟩ := Bool.and_eq_true_iff.mp called
  obtain ⟨i, running, owned⟩ := h.exists_running (beq_iff_eq.mp live)
  refine ⟨⟨a.owner, a.typeName, ⟨s, c, i, a.state⟩⟩, ?_, ⟨rfl, rfl, rfl, rfl, beq_iff_eq.mp live, running, owned⟩⟩
  rw [heedCalls, if_pos called, calls, running]
  rfl

theorem heedCalls_of_passed (passed : a.isCalled on = false) : a.heedCalls s c on = [] := by
  rw [heedCalls, if_neg (by rw [passed]; exact Bool.false_ne_true)]

theorem Whole.becomes (h : a.Whole) (lasting : c.hook ≠ .destroy) : Becomes s c on a (a.heed s c on) where
  called called := by
    obtain ⟨d, -, gets⟩ := h.heedCalls_of_called (s := s) (c := c) called
    obtain ⟨owner, typeName, surroundings, call, state, receiver, owned⟩ := gets
    refine ⟨d, ⟨owner, typeName, surroundings, call, state, receiver, owned⟩, ?_⟩
    have live : a.state = .live := beq_iff_eq.mp (Bool.and_eq_true_iff.mp called).1
    have faults : (c.hook != .destroy) = true := bne_iff_ne.mpr lasting
    rw [heed, if_pos called, Attachment.deliver, receiver, Received.hasFailed, Received.result, surroundings, call]
    -- The hook is none whose failure is overlooked, so the state goes by the error alone.
    dsimp only
    rw [faults, Bool.and_true, live]
  passed passed := by
    rw [heed, if_neg (by rw [passed]; exact Bool.false_ne_true)]

end Attachment

/-! ## 5. All attachments -/

namespace Lifecycle

open Attachment (Gets Becomes)

variable {l : Lifecycle} {s : Surroundings} {c : HookCall} {on : Entity → Bool}

/-- A call has gone to the attachments at work on the entities that `on` tells of.  It took these calls of hooks, and
    this has come of it. -/
structure Delivered (l : Lifecycle) (s : Surroundings) (c : HookCall) (on : Entity → Bool) (calls : List Delivery)
    (after : Lifecycle × Trace) : Prop where
  /-- The attachments had their turns in order, and whether one was at work was judged in its turn. -/
  inTurns : Attachment.turns s c on l.attachments l.attachments.length = (after.1.attachments, calls)
  /-- Until its turn an attachment is as it was before the first one. -/
  untouched : ∀ k, (Attachment.turns s c on l.attachments k).1[k]? = l.attachments[k]?
  /-- The attachments to be called have got a call each, in their order, and there are no other calls. -/
  gets : List.Forall₂ (Gets s c) (l.attachments.filter (·.isCalled on)) calls
  once : ∀ a ∈ l.attachments,
    (calls.map Delivery.key).count (a.owner, a.typeName) = if a.state = .live ∧ on a.owner = true then 1 else 0
  /-- A failure is one of the attachment it happened to. -/
  becomes : List.Forall₂ (Becomes s c on) l.attachments after.1.attachments
  left : after.2 = Delivery.traces calls
  recorded : after.1.errors = l.errors.recordAll (calls.filterMap Delivery.failure?)

theorem forall₂_heedCalls {as : List Attachment} (whole : ∀ a ∈ as, a.Whole) :
    List.Forall₂ (Gets s c) (as.filter (·.isCalled on)) (as.flatMap (·.heedCalls s c on)) := by
  induction as with
  | nil => exact .nil
  | cons a as ih =>
    obtain ⟨first, others⟩ := List.forall_mem_cons.mp whole
    rw [List.flatMap_cons]
    cases called : a.isCalled on with
    | true =>
      obtain ⟨d, eq, gets⟩ := first.heedCalls_of_called (s := s) (c := c) called
      rw [List.filter_cons_of_pos called, eq]
      exact .cons gets (ih others)
    | false =>
      rw [List.filter_cons_of_neg (by simpa using called), Attachment.heedCalls_of_passed called]
      exact ih others

theorem keys_of_gets {as : List Attachment} {ds : List Delivery} (h : List.Forall₂ (Gets s c) as ds) :
    ds.map Delivery.key = as.map fun a => (a.owner, a.typeName) := by
  induction h with
  | nil => rfl
  | cons gets _ ih => exact List.cons_eq_cons.mpr ⟨Prod.ext gets.owner gets.typeName, ih⟩

theorem exists_of_gets {as : List Attachment} {ds : List Delivery} (h : List.Forall₂ (Gets s c) as ds) :
    ∀ d ∈ ds, ∃ a ∈ as, Gets s c a d := by
  induction h with
  | nil => exact List.forall_mem_nil _
  | cons gets _ ih =>
    refine List.forall_mem_cons.mpr ⟨⟨_, List.mem_cons_self, gets⟩, fun d hd => ?_⟩
    obtain ⟨a, ha, gets⟩ := ih d hd
    exact ⟨a, List.mem_cons_of_mem _ ha, gets⟩

/-- Where names are distinct, the name of an attachment occurs once among those of the chosen ones if it is chosen. -/
theorem count_key {as : List Attachment} (distinct : (as.map fun a => (a.owner, a.typeName)).Nodup)
    (p : Attachment → Bool) {a : Attachment} (mem : a ∈ as) :
    ((as.filter p).map fun a => (a.owner, a.typeName)).count (a.owner, a.typeName) = if p a = true then 1 else 0 := by
  have chosen : ((as.filter p).map fun a => (a.owner, a.typeName)).Nodup :=
    distinct.sublist (List.filter_sublist.map _)
  split
  · rename_i pa
    exact List.count_eq_one_of_mem chosen (List.mem_map_of_mem (List.mem_filter.mpr ⟨mem, pa⟩))
  · rename_i pa
    refine List.count_eq_zero_of_not_mem fun named => pa ?_
    obtain ⟨b, hb, same⟩ := List.mem_map.mp named
    obtain ⟨memb, pb⟩ := List.mem_filter.mp hb
    rwa [← List.inj_on_of_nodup_map distinct memb mem same]

/-- What holds of every dispatch, given who is to be told. -/
theorem Whole.delivered (h : l.Whole) (s : Surroundings) (lasting : c.hook ≠ .destroy) (on : Entity → Bool) :
    Delivered l s c on (l.attachments.flatMap fun a => if on a.owner then a.receiveCalls s c else [])
      (l.each fun a => if on a.owner then a.receive s c else (a, .empty)) := by
  have attachments : (l.each fun a => if on a.owner then a.receive s c else (a, .empty)).1.attachments =
      l.attachments.map (·.heed s c on) :=
    List.map_congr_left fun a ha => ((h.attachments a ha).heed_eq s c on).1
  have calls : (l.attachments.flatMap fun a => if on a.owner then a.receiveCalls s c else []) =
      l.attachments.flatMap (·.heedCalls s c on) := by
    rw [List.flatMap_def, List.flatMap_def]
    exact congrArg List.flatten (List.map_congr_left fun a ha => ((h.attachments a ha).heed_eq s c on).2)
  have told : (l.each fun a => if on a.owner then a.receive s c else (a, .empty)).2 =
      Delivery.traces (l.attachments.flatMap fun a => if on a.owner then a.receiveCalls s c else []) := by
    rw [Delivery.traces_flatMap]
    exact congrArg Trace.concat (List.map_congr_left fun a _ => ((Round.receive s c).only (fun a => on a.owner)).told a)
  have gets : List.Forall₂ (Gets s c) (l.attachments.filter (·.isCalled on))
      (l.attachments.flatMap (·.heedCalls s c on)) := forall₂_heedCalls h.attachments
  refine ⟨?_, Attachment.turns_getElem? s c on l.attachments, ?_, fun a ha => ?_, ?_, told, ?_⟩
  · rw [attachments, calls, Attachment.turns_length]
  · rw [calls]
    exact gets
  · rw [calls, keys_of_gets gets, count_key h.distinct _ ha]
    simp only [Attachment.isCalled, Bool.and_eq_true, beq_iff_eq]
  · rw [attachments, List.forall₂_map_right_iff]
    refine List.forall₂_same.mpr fun a ha => (h.attachments a ha).becomes lasting
  · rw [← Delivery.errors_traces, ← told]
    rfl

/-- Two entities meet: both are told of each other, and nobody else is told. -/
structure Meets (l : Lifecycle) (s : Surroundings) (a b : Entity) (phase : Phase) : Prop where
  delivered : Delivered l s (.collision (.between a b phase)) (fun e => e == a || e == b)
    (l.calls (.operate s (.collision (.between a b phase)))) (l.dispatchCollision s (.between a b phase))
  opposite : ∀ d ∈ l.calls (.operate s (.collision (.between a b phase))),
    (d.owner = a → d.heard.arguments = [Collision.report b phase]) ∧
      (d.owner = b → d.heard.arguments = [Collision.report a phase])
  /-- It does not matter which of the two is named first. -/
  swapped : l.dispatchCollision s (.between b a phase) = l.dispatchCollision s (.between a b phase)
  heard : (l.calls (.operate s (.collision (.between b a phase)))).map Delivery.heard =
    (l.calls (.operate s (.collision (.between a b phase)))).map Delivery.heard

theorem Whole.meets (h : l.Whole) (s : Surroundings) (a b : Entity) (phase : Phase) : Meets l s a b phase := by
  have sides (e : Entity) : (Collision.between a b phase).involves e = (e == a || e == b) :=
    Collision.involves_between a b phase e
  have sides' (e : Entity) : (Collision.between b a phase).involves e = (e == a || e == b) := by
    rw [Collision.involves_between, Bool.or_comm]
  -- Whichever is named first, the same two entities are told.
  have calls_eq (x y : Entity) (side : ∀ e, (Collision.between x y phase).involves e = (e == a || e == b)) :
      l.calls (.operate s (.collision (.between x y phase))) =
        l.attachments.flatMap fun o =>
          if o.owner == a || o.owner == b then o.receiveCalls s (.collision (.between x y phase)) else [] := by
    refine (List.append_nil _).trans ?_
    exact congrArg (l.attachments.flatMap ·) (funext fun o => by rw [← side]; rfl)
  have dispatch_eq (x y : Entity) (side : ∀ e, (Collision.between x y phase).involves e = (e == a || e == b)) :
      l.dispatchCollision s (.between x y phase) =
        l.each fun o =>
          if o.owner == a || o.owner == b then o.receive s (.collision (.between x y phase)) else (o, .empty) :=
    congrArg l.each (funext fun o => by rw [← side])
  have delivered := h.delivered s (c := .collision (.between a b phase)) nofun fun e => e == a || e == b
  rw [← calls_eq a b sides, ← dispatch_eq a b sides] at delivered
  refine ⟨delivered, fun d hd => ?_, ?_, ?_⟩
  · obtain ⟨o, -, gets⟩ := exists_of_gets delivered.gets d hd
    have arguments : d.heard.arguments = [(Collision.between a b phase).toValue d.owner] := by
      rw [Delivery.heard, gets.call, gets.owned, ← gets.owner]
      rfl
    rw [arguments, Collision.toValue_between]
    constructor
    · intro left
      rw [left, Collision.other?_between_left]
      rfl
    · intro right
      rw [right, Collision.other?_between_right]
      rfl
  · rw [dispatch_eq b a sides', dispatch_eq a b sides]
    exact congrArg l.each (funext fun o => by rw [Attachment.receive_swap])
  · rw [calls_eq b a sides', calls_eq a b sides, List.map_flatMap, List.map_flatMap]
    refine congrArg (l.attachments.flatMap ·) (funext fun o => ?_)
    split
    · exact Attachment.heard_receiveCalls_swap o a b phase
    · rfl

/-- Events are delivered exactly.  However a lifecycle has come about: an input event is told to every attachment at
    work, in the order in which they were attached, and a collision to those at work on the two entities, whichever of
    them comes first. -/
theorem events_delivered (settings : ReloadSettings) (deeds : List Deed) (s : Surroundings) :
    (∀ e, Delivered ((create settings).run deeds) s (.input e) (fun _ => true)
      (((create settings).run deeds).calls (.operate s (.input e)))
      (((create settings).run deeds).dispatchInput s e)) ∧
    ∀ a b phase, Meets ((create settings).run deeds) s a b phase := by
  have whole := whole_run settings deeds
  refine ⟨fun e => ?_, whole.meets s⟩
  have calls : ((create settings).run deeds).calls (.operate s (.input e)) =
      ((create settings).run deeds).attachments.flatMap (·.receiveCalls s (.input e)) := List.append_nil _
  rw [calls]
  exact whole.delivered s (c := .input e) nofun fun _ => true

/-- A behaviour that fails on every input, and one that tells of the key. -/
def shyAndBold : Registry :=
  .ofUnit ((Compiler.create toString false).compile
    ⟨[⟨"a.ks", "type Shy : Behaviour \x7b fn on_input(ctx, e) \x7b throw 1; \x7d \x7d " ++
        "type Bold : Behaviour \x7b fn on_input(ctx, e) \x7b ctx.log(e.key); \x7d \x7d", .time 0⟩], []⟩).1

/-- The one that fails is called first, and the other one is called all the same. -/
example :
    let told := ((create default).run [.event (.attach (.first 0) "Shy"), .event (.attach (.first 0) "Bold"),
      .event (.operate default (.tick shyAndBold 0))]).dispatchInput default (.keyPressed "w")
    told.1.attachments.map (·.state) = [.faulted, .live] ∧ told.2.logs = ["[Bold#0] w"] := by
  decide +kernel

end Lifecycle

end ScriptHost
