import ScriptHost.Proofs.Lifecycle.Lives

/-!
# Deliveries — the calls that an operation makes, in their order

A life tells what one instance has received.  Here the calls are told across all instances, one after the other, as
a host makes them.  They account for everything that an operation leaves behind: commands, logs and errors are
those of the calls, in the same order.
-/

namespace ScriptHost

variable {r : Registry} {s : Surroundings} {c : HookCall} {a : Attachment}

/-! ## 1. Names -/

section Names

variable {α β κ : Type} [BEq κ] {xs : List α}

/-- What is made of things goes by their names, so those of one name can be picked before it is made. -/
theorem filter_flatMap_of_named (name : α → κ) (name' : β → κ) {f : α → List β}
    (named : ∀ x ∈ xs, ∀ y ∈ f x, name' y = name x) (k : κ) :
    (xs.flatMap f).filter (name' · == k) = (xs.filter (name · == k)).flatMap f := by
  induction xs with
  | nil => rfl
  | cons x xs ih =>
    obtain ⟨first, named⟩ := List.forall_mem_cons.mp named
    have same : ∀ y ∈ f x, (name' y == k) = (name x == k) := fun y hy => by rw [first y hy]
    rw [List.flatMap_cons, List.filter_append, ih named, List.filter_congr same, List.filter_cons]
    cases name x == k with
    | true => rw [List.filter_true, if_pos rfl, List.flatMap_cons]
    | false => rw [List.filter_false, if_neg Bool.false_ne_true, List.nil_append]

theorem filter_filter_named (name : α → κ) [LawfulBEq κ] (q : κ → Bool) (xs : List α) (k : κ) :
    (xs.filter fun x => q (name x)).filter (name · == k) = if q k then xs.filter (name · == k) else [] := by
  rw [List.filter_filter]
  split
  · rename_i mine
    refine List.filter_congr fun x _ => ?_
    by_cases named : name x = k
    · rw [named, mine, Bool.and_true]
    · rw [beq_false_of_ne named, Bool.false_and]
  · rename_i other
    refine List.filter_eq_nil_iff.mpr fun x _ both => other ?_
    obtain ⟨named, mine⟩ := Bool.and_eq_true_iff.mp both
    exact beq_iff_eq.mp named ▸ mine

/-- Where names are distinct, to take out the first of a name is to take out all of that name. -/
theorem eraseP_eq_filter_of_nodup [LawfulBEq κ] (name : α → κ) (distinct : (xs.map name).Nodup) (k : κ) :
    xs.eraseP (name · == k) = xs.filter (name · != k) := by
  induction xs with
  | nil => rfl
  | cons x xs ih =>
    obtain ⟨fresh, distinct⟩ := List.nodup_cons.mp distinct
    rw [List.eraseP_cons, List.filter_cons, bne]
    cases mine : name x == k with
    | true =>
      have others : ∀ y ∈ xs, (name y != k) = true := fun y hy => bne_iff_ne.mpr fun same =>
        fresh (List.mem_map.mpr ⟨y, hy, same.trans (beq_iff_eq.mp mine).symm⟩)
      exact (List.filter_eq_self.mpr others).symm
    | false => exact congrArg (x :: ·) (ih distinct)

/-- Where names are distinct there is at most one of each. -/
theorem filter_cases_of_nodup [LawfulBEq κ] (name : α → κ) (distinct : (xs.map name).Nodup) (k : κ) :
    xs.filter (name · == k) = [] ∨ ∃ x ∈ xs, name x = k ∧ xs.filter (name · == k) = [x] := by
  induction xs with
  | nil => exact .inl rfl
  | cons x xs ih =>
    obtain ⟨fresh, distinct⟩ := List.nodup_cons.mp distinct
    rw [List.filter_cons]
    by_cases mine : (name x == k) = true
    · have others : xs.filter (name · == k) = [] := by
        refine List.filter_eq_nil_iff.mpr fun y hy same => fresh ?_
        exact List.mem_map.mpr ⟨y, hy, (beq_iff_eq.mp same).trans (beq_iff_eq.mp mine).symm⟩
      exact .inr ⟨x, List.mem_cons_self, beq_iff_eq.mp mine, by rw [if_pos mine, others]⟩
    · rw [if_neg mine]
      exact (ih distinct).imp_right fun ⟨y, hy, found⟩ => ⟨y, List.mem_cons_of_mem x hy, found⟩

end Names

/-! ## 2. Deliveries -/

/-- A call that an attachment gets: what the attachment is known by, and what its instance receives. -/
structure Delivery where
  owner : Entity
  typeName : String
  received : Received

namespace Delivery

def key (d : Delivery) : Entity × String := (d.owner, d.typeName)

/-- The instance that gets the call is one of the entity. -/
def Owned (d : Delivery) : Prop := d.received.receiver.owner = d.owner

/-- The error to record, if the call fails. -/
def failure? (d : Delivery) : Option RecordedError := d.received.result.error.map (RecordedError.mk d.owner)

def trace (d : Delivery) : Trace := ⟨d.received.result.commands, d.received.result.logs, d.failure?.toList⟩

/-- What calls leave behind, one after the other. -/
def traces (ds : List Delivery) : Trace := .concat (ds.map trace)

@[simp] theorem traces_nil : traces [] = .empty := rfl

@[simp] theorem traces_append (ds es : List Delivery) : traces (ds ++ es) = traces ds ++ traces es := by
  induction ds with
  | nil => rfl
  | cons d ds ih => exact (congrArg (d.trace ++ ·) ih).trans (Trace.append_assoc ..).symm

theorem traces_flatMap {α : Type} (f : α → List Delivery) (xs : List α) :
    traces (xs.flatMap f) = .concat (xs.map fun x => traces (f x)) := by
  induction xs with
  | nil => rfl
  | cons x xs ih => rw [List.flatMap_cons, traces_append, ih, List.map_cons, Trace.concat_cons]

theorem errors_traces (ds : List Delivery) : (traces ds).errors = ds.filterMap failure? := by
  induction ds with
  | nil => rfl
  | cons d ds ih =>
    show d.failure?.toList ++ (traces ds).errors = _
    rw [ih]
    cases failed : d.failure? with
    | none => rw [List.filterMap_cons_none failed]; rfl
    | some e => rw [List.filterMap_cons_some failed]; rfl

end Delivery

/-! ## 3. One attachment -/

namespace Attachment

/-- An attachment that no registry is asked about: it holds an instance exactly while it is at work or at fault, and
    the instance is one of its entity. -/
structure Whole (a : Attachment) : Prop where
  holds_iff : a.running.isSome = true ↔ a.state = .live ∨ a.state = .faulted
  owned : ∀ i, a.running = some i → i.owner = a.owner

theorem whole_create (owner : Entity) (typeName : String) : (create owner typeName).Whole :=
  ⟨by simp [create], nofun⟩

theorem Whole.deliver (h : a.Whole) (s : Surroundings) (c : HookCall) : (a.deliver s c).1.Whole := by
  cases running : a.running with
  | none =>
    rw [deliver_of_none running]
    exact h
  | some i =>
    -- The state is the one before or that of one at fault, and the instance keeps its entity.
    obtain ⟨state, cases, after⟩ := deliver_of_some (s := s) (c := c) running
    have before := h.holds_iff.mp (by rw [running]; rfl)
    rw [after]
    refine ⟨⟨fun _ => ?_, fun _ => rfl⟩, fun j hj => ?_⟩
    · rcases cases with rfl | rfl
      · exact before
      · exact .inr rfl
    · obtain rfl : (i.call s c).after = j := Option.some.inj hj
      exact (i.call_owner s c).trans (h.owned i running)

theorem Whole.receive (h : a.Whole) (s : Surroundings) (c : HookCall) : (a.receive s c).1.Whole := by
  rw [Attachment.receive]
  split
  · exact h.deliver s c
  · exact h

theorem whole_instantiate (idle : a.running = none) : (a.instantiate r s).1.Whole := by
  cases found : r.get? a.typeName with
  | none =>
    rw [instantiate_of_none found]
    exact ⟨by simp [idle], fun i hi => nomatch idle.symm.trans hi⟩
  | some entry =>
    rw [instantiate_of_some found]
    refine Whole.deliver ⟨⟨fun _ => .inl rfl, fun _ => rfl⟩, fun i hi => ?_⟩ s .create
    obtain rfl : Instance.fresh entry.program a.owner = i := Option.some.inj hi
    rfl

theorem Whole.start (h : a.Whole) (r : Registry) (s : Surroundings) : (a.start r s).1.Whole := by
  rw [Attachment.start]
  by_cases pending : a.state = .pending
  · rw [if_pos (beq_iff_eq.mpr pending)]
    -- What waits holds nothing.
    have idle : ¬ a.running.isSome = true := by
      rw [h.holds_iff, pending]
      decide
    exact whole_instantiate (by simpa using idle)
  · rw [if_neg (by simpa using pending)]
    exact h

theorem whole_renew (a : Attachment) (r : Registry) (s : Surroundings) (callDestroy : Bool) :
    (a.renew r s callDestroy).1.Whole := whole_instantiate (a := create a.owner a.typeName) rfl

/-! ### Calls -/

/-- The call that an attachment gets if it holds an instance. -/
def calls (s : Surroundings) (c : HookCall) (a : Attachment) : List Delivery :=
  a.running.toList.map fun i => ⟨a.owner, a.typeName, ⟨s, c, i, a.state⟩⟩

def receiveCalls (s : Surroundings) (c : HookCall) (a : Attachment) : List Delivery :=
  if a.isReceiving then a.calls s c else []

def instantiateCalls (r : Registry) (s : Surroundings) (a : Attachment) : List Delivery :=
  match r.instantiate? a.typeName a.owner with
  | none => []
  | some i => calls s .create { a with running := some i, state := .live }

def startCalls (r : Registry) (s : Surroundings) (a : Attachment) : List Delivery :=
  if a.state == .pending then a.instantiateCalls r s else []

def renewCalls (r : Registry) (s : Surroundings) (callDestroy : Bool) (a : Attachment) : List Delivery :=
  (if callDestroy then a.calls s .destroy else []) ++ (create a.owner a.typeName).instantiateCalls r s

theorem Whole.owned_calls (h : a.Whole) (s : Surroundings) (c : HookCall) : ∀ d ∈ a.calls s c, d.Owned := by
  intro d hd
  obtain ⟨i, hi, rfl⟩ := List.mem_map.mp hd
  exact h.owned i (Option.mem_toList.mp hi)

theorem Whole.owned_receiveCalls (h : a.Whole) (s : Surroundings) (c : HookCall) :
    ∀ d ∈ a.receiveCalls s c, d.Owned := by
  rw [receiveCalls]
  split
  · exact h.owned_calls s c
  · exact List.forall_mem_nil _

theorem owned_instantiateCalls (r : Registry) (s : Surroundings) (a : Attachment) :
    ∀ d ∈ a.instantiateCalls r s, d.Owned := by
  rw [instantiateCalls]
  split
  · exact List.forall_mem_nil _
  · rename_i i made
    obtain ⟨entry, -, rfl⟩ := Option.map_eq_some_iff.mp made
    intro d hd
    obtain ⟨j, hj, rfl⟩ := List.mem_map.mp hd
    obtain rfl := Option.some.inj (Option.mem_toList.mp hj)
    rfl

theorem owned_startCalls (r : Registry) (s : Surroundings) (a : Attachment) : ∀ d ∈ a.startCalls r s, d.Owned := by
  rw [startCalls]
  split
  · exact owned_instantiateCalls r s a
  · exact List.forall_mem_nil _

theorem Whole.owned_renewCalls (h : a.Whole) (r : Registry) (s : Surroundings) (callDestroy : Bool) :
    ∀ d ∈ a.renewCalls r s callDestroy, d.Owned := by
  rw [renewCalls]
  refine List.forall_mem_append.mpr ⟨?_, owned_instantiateCalls r s _⟩
  split
  · exact h.owned_calls s .destroy
  · exact List.forall_mem_nil _

/-- What an attachment is known by. -/
def key (a : Attachment) : Entity × String := (a.owner, a.typeName)

theorem key_calls (s : Surroundings) (c : HookCall) (a : Attachment) : ∀ d ∈ a.calls s c, d.key = a.key := by
  intro d hd
  obtain ⟨i, -, rfl⟩ := List.mem_map.mp hd
  rfl

theorem key_receiveCalls (s : Surroundings) (c : HookCall) (a : Attachment) :
    ∀ d ∈ a.receiveCalls s c, d.key = a.key := by
  rw [receiveCalls]
  split
  · exact key_calls s c a
  · exact List.forall_mem_nil _

theorem key_instantiateCalls (r : Registry) (s : Surroundings) (a : Attachment) :
    ∀ d ∈ a.instantiateCalls r s, d.key = a.key := by
  rw [instantiateCalls]
  split
  · exact List.forall_mem_nil _
  · exact key_calls s .create _

theorem key_startCalls (r : Registry) (s : Surroundings) (a : Attachment) :
    ∀ d ∈ a.startCalls r s, d.key = a.key := by
  rw [startCalls]
  split
  · exact key_instantiateCalls r s a
  · exact List.forall_mem_nil _

theorem key_renewCalls (r : Registry) (s : Surroundings) (callDestroy : Bool) (a : Attachment) :
    ∀ d ∈ a.renewCalls r s callDestroy, d.key = a.key := by
  refine List.forall_mem_append.mpr ⟨?_, key_instantiateCalls r s _⟩
  split
  · exact key_calls s .destroy a
  · exact List.forall_mem_nil _

theorem deliver_told (s : Surroundings) (c : HookCall) (a : Attachment) :
    (a.deliver s c).2 = Delivery.traces (a.calls s c) := by
  cases running : a.running with
  | none =>
    rw [deliver_of_none running, calls, running]
    rfl
  | some i =>
    rw [deliver, calls, running]
    exact (Trace.append_empty _).symm

theorem receive_told (s : Surroundings) (c : HookCall) (a : Attachment) :
    (a.receive s c).2 = Delivery.traces (a.receiveCalls s c) := by
  rw [receive, receiveCalls]
  split
  · exact deliver_told s c a
  · rfl

theorem instantiate_told (r : Registry) (s : Surroundings) (a : Attachment) :
    (a.instantiate r s).2 = Delivery.traces (a.instantiateCalls r s) := by
  unfold instantiate instantiateCalls
  cases r.instantiate? a.typeName a.owner with
  | none => rfl
  | some i => exact deliver_told s .create _

theorem start_told (r : Registry) (s : Surroundings) (a : Attachment) :
    (a.start r s).2 = Delivery.traces (a.startCalls r s) := by
  rw [start, startCalls]
  split
  · exact instantiate_told r s a
  · rfl

theorem renew_told (r : Registry) (s : Surroundings) (callDestroy : Bool) (a : Attachment) :
    (a.renew r s callDestroy).2 = Delivery.traces (a.renewCalls r s callDestroy) := by
  have left : (if callDestroy then (a.deliver s .destroy).2 else .empty) =
      Delivery.traces (if callDestroy then a.calls s .destroy else []) := by
    split
    · exact deliver_told s .destroy a
    · rfl
  rw [renewCalls, Delivery.traces_append, ← left, ← instantiate_told]
  rfl

end Attachment

/-! ## 4. Rounds -/

/-- What is done to each attachment in turn, with the calls that it takes. -/
structure Round where
  act : Attachment → Attachment × Trace
  calls : Attachment → List Delivery
  told : ∀ a, (act a).2 = Delivery.traces (calls a)
  keeps : Attachment.Keeps act
  whole : ∀ a, a.Whole → (act a).1.Whole
  owned : ∀ a, a.Whole → ∀ d ∈ calls a, d.Owned
  key : ∀ a, ∀ d ∈ calls a, d.key = a.key

namespace Round

def receive (s : Surroundings) (c : HookCall) : Round where
  act := Attachment.receive s c
  calls := Attachment.receiveCalls s c
  told := Attachment.receive_told s c
  keeps := Attachment.keeps_receive s c
  whole _ h := h.receive s c
  owned _ h := h.owned_receiveCalls s c
  key := Attachment.key_receiveCalls s c

def start (r : Registry) (s : Surroundings) : Round where
  act := Attachment.start r s
  calls := Attachment.startCalls r s
  told := Attachment.start_told r s
  keeps := Attachment.keeps_start r s
  whole _ h := h.start r s
  owned a _ := Attachment.owned_startCalls r s a
  key := Attachment.key_startCalls r s

def renew (r : Registry) (s : Surroundings) (callDestroy : Bool) : Round where
  act := Attachment.renew r s callDestroy
  calls := Attachment.renewCalls r s callDestroy
  told := Attachment.renew_told r s callDestroy
  keeps := Attachment.keeps_renew r s callDestroy
  whole a _ := Attachment.whole_renew a r s callDestroy
  owned _ h := h.owned_renewCalls r s callDestroy
  key := Attachment.key_renewCalls r s callDestroy

/-- The round of those attachments only that `on` tells of. -/
def only (on : Attachment → Bool) (round : Round) : Round where
  act a := if on a then round.act a else (a, .empty)
  calls a := if on a then round.calls a else []
  told a := by
    split
    · exact round.told a
    · rfl
  keeps a := by
    dsimp only
    split
    · exact round.keeps a
    · exact ⟨rfl, rfl⟩
  whole a h := by
    split
    · exact round.whole a h
    · exact h
  owned a h := by
    split
    · exact round.owned a h
    · exact List.forall_mem_nil _
  key a := by
    split
    · exact round.key a
    · exact List.forall_mem_nil _

/-- Rounds one after the other, and all their calls. -/
def through (as : List Attachment) : List Round → List Attachment × List Delivery
  | [] => (as, [])
  | round :: rounds =>
    let later := through (as.map fun a => (round.act a).1) rounds
    (later.1, as.flatMap round.calls ++ later.2)

theorem through_attachments (as : List Attachment) (rounds : List Round) :
    (through as rounds).1 = Lifecycle.through as (rounds.map act) := by
  induction rounds generalizing as with
  | nil => rfl
  | cons round rounds ih => exact ih _

theorem through_told (as : List Attachment) (rounds : List Round) :
    .concat (Lifecycle.tracesOf as (rounds.map act)) = Delivery.traces (through as rounds).2 := by
  induction rounds generalizing as with
  | nil => rfl
  | cons round rounds ih =>
    -- Within a round the calls go attachment by attachment, as their traces do.
    have first : (Attachment.each round.act as).2 = Delivery.traces (as.flatMap round.calls) := by
      rw [Delivery.traces_flatMap]
      exact congrArg Trace.concat (List.map_congr_left fun a _ => round.told a)
    rw [List.map_cons, Lifecycle.tracesOf, Trace.concat_cons, first]
    exact (congrArg (_ ++ ·) (ih _)).trans (Delivery.traces_append ..).symm

end Round

/-- What an operation does, round by round. -/
def Operation.rounds (s : Surroundings) (callDestroy : Bool) : Operation → List Round
  | tick r dt => [(Round.start r s).only fun _ => r.unit.isSome, .receive s (.update dt)]
  | input e => [.receive s (.input e)]
  | collision c => [(Round.receive s (.collision c)).only fun a => c.involves a.owner]
  | reload r => [.renew r s callDestroy]

theorem Operation.act_rounds (op : Operation) (s : Surroundings) (callDestroy : Bool) :
    (op.rounds s callDestroy).map Round.act = op.phases s callDestroy := by
  cases op <;> rfl

/-! ## 5. Events -/

namespace Lifecycle

/-- The calls that an event takes, one after the other. -/
def calls (l : Lifecycle) : Event → List Delivery
  | .attach _ _ => []
  | .detach s owner typeName => (l.find? owner typeName).toList.flatMap (·.calls s .destroy)
  | .detachEntity s owner => (l.attachments.filter (·.owner == owner)).flatMap (·.calls s .destroy)
  | .operate s op => (Round.through l.attachments (op.rounds s l.callDestroy)).2

theorem operate_attachments (l : Lifecycle) (s : Surroundings) (op : Operation) :
    (l.operate s op).1.attachments = (Round.through l.attachments (op.rounds s l.callDestroy)).1 := by
  rw [operate_eq, Round.through_attachments, op.act_rounds]
  rfl

/-- The calls account for what an event leaves behind. -/
theorem undergo_told (l : Lifecycle) (e : Event) : (l.undergo e).2 = Delivery.traces (l.calls e) := by
  cases e with
  | attach owner typeName => rfl
  | detach s owner typeName =>
    show (l.detach s owner typeName).2.2 = Delivery.traces ((l.find? owner typeName).toList.flatMap _)
    rw [detach]
    cases l.find? owner typeName with
    | none => rfl
    | some a =>
      refine (Attachment.deliver_told s .destroy a).trans ?_
      rw [Option.toList_some, List.flatMap_singleton]
  | detachEntity s owner =>
    show Trace.concat ((l.attachments.partition (·.owner == owner)).1.map (·.destroy s)) =
      Delivery.traces (List.flatMap _ _)
    rw [Delivery.traces_flatMap, List.partition_eq_filter_filter]
    exact congrArg Trace.concat (List.map_congr_left fun a _ => Attachment.deliver_told s .destroy a)
  | operate s op =>
    show (l.operate s op).2 = _
    rw [operate_eq]
    refine Eq.trans ?_ (Round.through_told l.attachments (op.rounds s l.callDestroy))
    rw [op.act_rounds]
    rfl

/-- Every failing call is recorded, and nothing else. -/
theorem undergo_errors (l : Lifecycle) (e : Event) :
    (l.undergo e).1.errors = l.errors.recordAll ((l.calls e).filterMap Delivery.failure?) := by
  rw [← Delivery.errors_traces, ← undergo_told]
  cases e with
  | attach owner typeName =>
    show (l.attach owner typeName).2.errors = l.errors
    rw [attach]
    split <;> rfl
  | detach s owner typeName =>
    show (l.detach s owner typeName).2.1.errors = l.errors.recordAll (l.detach s owner typeName).2.2.errors
    rw [detach]
    split <;> rfl
  | detachEntity s owner => rfl
  | operate s op =>
    show (l.operate s op).1.errors = l.errors.recordAll (l.operate s op).2.errors
    rw [operate_eq]
    rfl

/-- The calls that several events take, one after the other. -/
def historyCalls (l : Lifecycle) : List Event → List Delivery
  | [] => []
  | e :: es => l.calls e ++ (l.undergo e).1.historyCalls es

theorem historyCalls_append (l : Lifecycle) (es fs : List Event) :
    l.historyCalls (es ++ fs) = l.historyCalls es ++ (l.history es).1.historyCalls fs := by
  induction es generalizing l with
  | nil => rfl
  | cons e es ih => rw [List.cons_append, historyCalls, ih, historyCalls, history, List.append_assoc]

/-- They account for what the events leave behind, and for the errors that are recorded. -/
theorem history_told (l : Lifecycle) (es : List Event) :
    (l.history es).2 = Delivery.traces (l.historyCalls es) ∧
      (l.history es).1.errors = l.errors.recordAll ((l.historyCalls es).filterMap Delivery.failure?) := by
  induction es generalizing l with
  | nil => exact ⟨rfl, rfl⟩
  | cons e es ih =>
    obtain ⟨told, recorded⟩ := ih (l.undergo e).1
    rw [historyCalls, Delivery.traces_append, ← undergo_told, List.filterMap_append, recordAll_append,
      ← undergo_errors]
    exact ⟨congrArg (_ ++ ·) told, recorded⟩

end Lifecycle

end ScriptHost
