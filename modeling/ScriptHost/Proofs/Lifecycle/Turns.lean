import ScriptHost.Proofs.Lifecycle.Basic
import ScriptHost.Proofs.Script.Queue

/-!
# Turns — hooks that run one after the other on what all instances share

A host has one engine, whose machine keeps the queues, and one log of errors, and each hook runs on what the
hooks before it have left there.  Here the operations are done in this way, with the machine handed from call
to call, and it makes no difference: every attachment becomes what it becomes alone, and the queues hold what
each of them asks for alone, in the order of the calls.
-/

namespace ScriptHost

open Script (Machine callFunction callFunction_behind)

/-! ## 1. What is shared -/

namespace Trace

theorem append_def (s t : Trace) : s ++ t = ⟨s.commands ++ t.commands, s.logs ++ t.logs, s.errors ++ t.errors⟩ :=
  rfl

@[simp] theorem empty_append (t : Trace) : empty ++ t = t := rfl

@[simp] theorem append_empty (t : Trace) : t ++ empty = t := by
  simp only [append_def, empty, List.append_nil]

theorem append_assoc (s t u : Trace) : s ++ t ++ u = s ++ (t ++ u) := by
  simp only [append_def, List.append_assoc]

@[simp] theorem concat_nil : concat [] = empty := rfl

@[simp] theorem concat_cons (t : Trace) (ts : List Trace) : concat (t :: ts) = t ++ concat ts := rfl

theorem concat_eq_empty {ts : List Trace} (h : ∀ t ∈ ts, t = empty) : concat ts = empty := by
  induction ts with
  | nil => rfl
  | cons t ts ih =>
    rw [concat_cons, h t List.mem_cons_self, empty_append]
    exact ih fun u hu => h u (List.mem_cons_of_mem t hu)

end Trace

/-- What the hooks of a host have in common: the machine they run on, with its queues, and the log. -/
structure Stage where
  machine : Machine
  errors : ErrorLog

/-- Something done on the stage, after what has been done there before. -/
abbrev Turn := StateM Stage

namespace Stage

/-- What `t` asks of the host, and its errors, are now behind those there were. -/
structure Continues (before : Stage) (t : Trace) (after : Stage) : Prop where
  commands : after.machine.commands = before.machine.commands ++ t.commands.toArray
  logs : after.machine.logs = before.machine.logs ++ t.logs.toArray
  errors : after.errors = before.errors.recordAll t.errors

theorem Continues.refl (stage : Stage) : stage.Continues .empty stage where
  commands := Array.append_empty.symm
  logs := Array.append_empty.symm
  errors := rfl

theorem Continues.trans {a b c : Stage} {t u : Trace} (first : a.Continues t b) (second : b.Continues u c) :
    a.Continues (t ++ u) c where
  commands := by
    rw [second.commands, first.commands, Array.append_assoc, List.append_toArray t.commands u.commands]
    rfl
  logs := by
    rw [second.logs, first.logs, Array.append_assoc, List.append_toArray t.logs u.logs]
    rfl
  errors := by
    rw [second.errors, first.errors]
    exact (List.foldl_append ..).symm

end Stage

/-- On any stage the turn gives what `r` says, and leaves what `r` says behind what is there. -/
def Turn.Gives {α : Type} (x : Turn α) (r : α × Trace) : Prop :=
  ∀ stage, (x.run stage).1 = r.1 ∧ stage.Continues r.2 (x.run stage).2

namespace Turn

variable {α β : Type} {x : Turn α} {f : α → Turn β}

theorem Gives.pure (a : α) : Gives (pure a) (a, .empty) := fun stage => ⟨rfl, .refl stage⟩

theorem Gives.bind {r : α × Trace} {r' : β × Trace} (hx : Gives x r) (hf : Gives (f r.1) r') :
    Gives (x >>= f) (r'.1, r.2 ++ r'.2) := by
  intro stage
  obtain ⟨given, there⟩ := hx stage
  obtain ⟨given', there'⟩ := hf (x.run stage).2
  rw [StateT.run_bind]
  show ((f (x.run stage).1).run (x.run stage).2).1 = r'.1 ∧
    stage.Continues (r.2 ++ r'.2) ((f (x.run stage).1).run (x.run stage).2).2
  rw [given]
  exact ⟨given', there.trans there'⟩

theorem Gives.ite {c : Prop} [Decidable c] {y : Turn α} {r r' : α × Trace} (hx : Gives x r) (hy : Gives y r') :
    Gives (if c then x else y) (if c then r else r') := by
  split
  · exact hx
  · exact hy

end Turn

/-! ## 2. One attachment -/

namespace Instance

/-- Calls a hook on a machine that other hooks have used.  Random numbers go by the seed of the instance, and
    what its closures share is its own. -/
def callOn (s : Surroundings) (i : Instance) (c : HookCall) (m : Machine) :
    Instance × Option HookError × Machine :=
  if i.program.hooks.contains c.hook then
    match i.program.function? c.hook.name c.hook.arity with
    | some f =>
      let r := callFunction i.program.function? s.limits f (.map i.fields)
        (.context (i.context s) :: c.arguments i.owner) { m with seed := i.seed, heap := i.heap }
      let called := i.finish c.hook r
      (called.after, called.error, r.2.2)
    | none =>
      let missing := Script.Failure.raised (.functionNotFound c.hook.name) none
      (i, some (.ofFailure i.program c.hook missing), m)
  else (i, none, m)

/-- The instance and its error are those of a call on a machine of its own. -/
theorem callOn_eq (s : Surroundings) (i : Instance) (c : HookCall) (m : Machine) :
    (i.callOn s c m).1 = (i.call s c).after ∧ (i.callOn s c m).2.1 = (i.call s c).error ∧
      (i.callOn s c m).2.2.commands = m.commands ++ (i.call s c).commands.toArray ∧
      (i.callOn s c m).2.2.logs = m.logs ++ (i.call s c).logs.toArray := by
  unfold callOn call
  by_cases serves : i.program.hooks.contains c.hook = true
  · rw [if_pos serves, if_pos serves]
    cases i.program.function? c.hook.name c.hook.arity with
    | none => exact ⟨rfl, rfl, Array.append_empty.symm, Array.append_empty.symm⟩
    | some f =>
      have shared := callFunction_behind i.program.function? s.limits f (.map i.fields)
        (.context (i.context s) :: c.arguments i.owner) { m with seed := i.seed, heap := i.heap }
      dsimp only at shared ⊢
      rw [shared]
      -- Alone the hook runs on the machine that `shared` puts in front of the queue.
      exact ⟨rfl, rfl, rfl, rfl⟩
  · rw [if_neg serves, if_neg serves]
    exact ⟨rfl, rfl, Array.append_empty.symm, Array.append_empty.symm⟩

end Instance

namespace Attachment

variable {r : Registry} {s : Surroundings} {c : HookCall} {a : Attachment} {callDestroy : Bool}

def deliverOn (s : Surroundings) (c : HookCall) (a : Attachment) : Turn Attachment := fun stage =>
  match a.running with
  | none => (a, stage)
  | some i =>
    let (after, error, machine) := i.callOn s c stage.machine
    let state := if error.isSome && c.hook != .destroy then .faulted else a.state
    ({ a with running := some after, state := state },
      ⟨machine, (error.map fun e => stage.errors.record ⟨a.owner, e⟩).getD stage.errors⟩)

def receiveOn (s : Surroundings) (c : HookCall) (a : Attachment) : Turn Attachment :=
  if a.isReceiving then a.deliverOn s c else pure a

def instantiateOn (r : Registry) (s : Surroundings) (a : Attachment) : Turn Attachment :=
  match r.instantiate? a.typeName a.owner with
  | none => pure { a with state := .failed }
  | some i => { a with running := some i, state := .live }.deliverOn s .create

def startOn (r : Registry) (s : Surroundings) (a : Attachment) : Turn Attachment :=
  if a.state == .pending then a.instantiateOn r s else pure a

def renewOn (r : Registry) (s : Surroundings) (callDestroy : Bool) (a : Attachment) : Turn Attachment := do
  let left ← if callDestroy then a.deliverOn s .destroy else pure a
  (create left.owner left.typeName).instantiateOn r s

theorem deliverOn_gives : (a.deliverOn s c).Gives (a.deliver s c) := by
  intro stage
  cases running : a.running with
  | none =>
    rw [deliver_of_none running, StateT.run, deliverOn, running]
    exact ⟨rfl, .refl stage⟩
  | some i =>
    obtain ⟨after, error, commands, logs⟩ := i.callOn_eq s c stage.machine
    simp only [StateT.run, deliverOn, deliver, running]
    rw [after, error]
    refine ⟨rfl, commands, logs, ?_⟩
    cases (i.call s c).error with
    | none => rfl
    | some e => rfl

theorem receiveOn_gives : (a.receiveOn s c).Gives (a.receive s c) :=
  Turn.Gives.ite deliverOn_gives (.pure a)

theorem instantiateOn_gives : (a.instantiateOn r s).Gives (a.instantiate r s) := by
  unfold instantiateOn instantiate
  cases r.instantiate? a.typeName a.owner with
  | none => exact .pure _
  | some i => exact deliverOn_gives

theorem startOn_gives : (a.startOn r s).Gives (a.start r s) := Turn.Gives.ite instantiateOn_gives (.pure a)

/-- The end of the old instance has no part in the new one, for a call changes no name. -/
theorem renewOn_gives : (a.renewOn r s callDestroy).Gives (a.renew r s callDestroy) := by
  have ended : (if callDestroy then a.deliverOn s .destroy else pure a : Turn Attachment).Gives
      (if callDestroy then a.deliver s .destroy else (a, .empty)) :=
    Turn.Gives.ite deliverOn_gives (.pure a)
  unfold renewOn renew
  cases callDestroy with
  | false => exact ended.bind instantiateOn_gives
  | true =>
    have made : ((create (a.deliver s .destroy).1.owner (a.deliver s .destroy).1.typeName).instantiateOn r s).Gives
        ((create a.owner a.typeName).instantiate r s) := by
      rw [(keeps_deliver s .destroy a).1, (keeps_deliver s .destroy a).2]
      exact instantiateOn_gives
    exact ended.bind made

/-- What is true of one attachment is true of all, one after the other. -/
theorem mapM_gives {f : Attachment → Turn Attachment} {g : Attachment → Attachment × Trace}
    (h : ∀ a, (f a).Gives (g a)) (as : List Attachment) : Turn.Gives (as.mapM f) (each g as) := by
  induction as with
  | nil => exact .pure []
  | cons a as ih =>
    rw [List.mapM_cons]
    have rest : Turn.Gives (as.mapM f >>= fun bs => pure ((g a).1 :: bs))
        ((g a).1 :: (each g as).1, (each g as).2 ++ .empty) :=
      ih.bind (f := fun bs => pure ((g a).1 :: bs)) (.pure _)
    rw [Trace.append_empty] at rest
    exact (h a).bind (f := fun b => as.mapM f >>= fun bs => pure (b :: bs)) rest

end Attachment

/-! ## 3. Operations -/

/-- The operations that call hooks of all attachments. -/
inductive Operation where
  | tick (r : Registry) (dt : Float32)
  | input (e : InputEvent)
  | collision (c : Collision)
  | reload (r : Registry)

namespace Operation

/-- What is done to each attachment, phase by phase. -/
def phases (s : Surroundings) (callDestroy : Bool) : Operation → List (Attachment → Attachment × Trace)
  | tick r dt => [fun a => if r.unit.isSome then a.start r s else (a, .empty), (·.receive s (.update dt))]
  | input e => [(·.receive s (.input e))]
  | collision c => [fun a => if c.involves a.owner then a.receive s (.collision c) else (a, .empty)]
  | reload r => [(·.renew r s callDestroy)]

/-- The same in turns on a stage. -/
def phasesOn (s : Surroundings) (callDestroy : Bool) : Operation → List (Attachment → Turn Attachment)
  | tick r dt => [fun a => if r.unit.isSome then a.startOn r s else pure a, (·.receiveOn s (.update dt))]
  | input e => [(·.receiveOn s (.input e))]
  | collision c => [fun a => if c.involves a.owner then a.receiveOn s (.collision c) else pure a]
  | reload r => [(·.renewOn r s callDestroy)]

theorem phasesOn_gives (op : Operation) (s : Surroundings) (callDestroy : Bool) :
    List.Forall₂ (fun f g => ∀ a, (f a).Gives (g a)) (op.phasesOn s callDestroy) (op.phases s callDestroy) := by
  cases op with
  | tick r dt =>
    exact .cons (fun a => Turn.Gives.ite Attachment.startOn_gives (.pure a))
      (.cons (fun _ => Attachment.receiveOn_gives) .nil)
  | input e => exact .cons (fun _ => Attachment.receiveOn_gives) .nil
  | collision c => exact .cons (fun a => Turn.Gives.ite Attachment.receiveOn_gives (.pure a)) .nil
  | reload r => exact .cons (fun _ => Attachment.renewOn_gives) .nil

end Operation

namespace Lifecycle

/-- The operation on a lifecycle. -/
def operate (l : Lifecycle) (s : Surroundings) : Operation → Lifecycle × Trace
  | .tick r dt => l.tick r s dt
  | .input e => l.dispatchInput s e
  | .collision c => l.dispatchCollision s c
  | .reload r => l.renew r s

/-- The operation in turns: every phase goes through the attachments, each hook on the machine and the log that
    the hook before has left. -/
def operateOn (l : Lifecycle) (s : Surroundings) (op : Operation) (m : Machine) : Lifecycle × Machine :=
  let turns : Turn (List Attachment) := (op.phasesOn s l.callDestroy).foldlM (fun as f => as.mapM f) l.attachments
  let (as, stage) := turns.run ⟨m, l.errors⟩
  ({ l with attachments := as, errors := stage.errors }, stage.machine)

/-- What the phases leave behind, each on the attachments that the phases before it have made. -/
def tracesOf (as : List Attachment) : List (Attachment → Attachment × Trace) → List Trace
  | [] => []
  | f :: fs => (Attachment.each f as).2 :: tracesOf (Attachment.each f as).1 fs

/-- What the operation leaves behind, phase by phase. -/
def traces (l : Lifecycle) (s : Surroundings) (op : Operation) : List Trace :=
  tracesOf l.attachments (op.phases s l.callDestroy)

/-- The lifecycle as if there were no other attachment. -/
def alone (l : Lifecycle) (a : Attachment) : Lifecycle := { l with attachments := [a] }

/-- What the phases make of the attachments. -/
def through (as : List Attachment) (fs : List (Attachment → Attachment × Trace)) : List Attachment :=
  fs.foldl (fun as f => (Attachment.each f as).1) as

/-! ### In turns or at once -/

theorem foldlM_gives {fs : List (Attachment → Turn Attachment)} {gs : List (Attachment → Attachment × Trace)}
    (h : List.Forall₂ (fun f g => ∀ a, (f a).Gives (g a)) fs gs) (as : List Attachment) :
    Turn.Gives (fs.foldlM (fun as f => as.mapM f) as) (through as gs, .concat (tracesOf as gs)) := by
  induction h generalizing as with
  | nil => exact .pure as
  | cons one _ ih =>
    rw [List.foldlM_cons]
    exact (Attachment.mapM_gives one as).bind (f := fun as => List.foldlM (fun as f => as.mapM f) as _) (ih _)

theorem recordAll_append (log : ErrorLog) (es fs : List RecordedError) :
    log.recordAll (es ++ fs) = (log.recordAll es).recordAll fs := List.foldl_append ..

/-- A tick without a unit has a first phase that does nothing. -/
theorem started_eq (l : Lifecycle) (r : Registry) (s : Surroundings) :
    l.started r s = l.each fun a => if r.unit.isSome then a.start r s else (a, .empty) := by
  unfold started
  cases r.unit.isSome with
  | true => rfl
  | false =>
    have nothing : Attachment.each (fun a => (a, .empty)) l.attachments = (l.attachments, .empty) := by
      refine Prod.ext (List.map_id _) (Trace.concat_eq_empty fun t ht => ?_)
      obtain ⟨a, -, rfl⟩ := List.mem_map.mp ht
      rfl
    show (l, Trace.empty) = l.settle (Attachment.each (fun a => (a, .empty)) l.attachments).1
      (Attachment.each (fun a => (a, .empty)) l.attachments).2
    rw [nothing]
    rfl

theorem each_eq (l : Lifecycle) (f : Attachment → Attachment × Trace) :
    l.each f = l.settle (through l.attachments [f]) (.concat (tracesOf l.attachments [f])) := by
  have last : Trace.concat (tracesOf l.attachments [f]) = (l.each f).2 := Trace.append_empty _
  rw [last]
  rfl

theorem each_each (l : Lifecycle) (f g : Attachment → Attachment × Trace) :
    (((l.each f).1.each g).1, (l.each f).2 ++ ((l.each f).1.each g).2) =
      l.settle (through l.attachments [f, g]) (.concat (tracesOf l.attachments [f, g])) := by
  have last : Trace.concat (tracesOf l.attachments [f, g]) = (l.each f).2 ++ ((l.each f).1.each g).2 :=
    congrArg ((l.each f).2 ++ ·) (Trace.append_empty _)
  rw [last]
  refine Prod.ext ?_ rfl
  exact congrArg (Lifecycle.mk _ · l.callDestroy) (recordAll_append ..).symm

theorem operate_eq (l : Lifecycle) (s : Surroundings) (op : Operation) :
    l.operate s op = l.settle (through l.attachments (op.phases s l.callDestroy)) (.concat (l.traces s op)) := by
  cases op with
  | tick r dt =>
    have tick : l.tick r s dt =
        (((l.started r s).1.each (·.receive s (.update dt))).1,
          (l.started r s).2 ++ ((l.started r s).1.each (·.receive s (.update dt))).2) := rfl
    show l.tick r s dt = _
    rw [tick, started_eq]
    exact each_each ..
  | input e => exact each_eq ..
  | collision c => exact each_eq ..
  | reload r => exact each_eq ..

theorem operateOn_eq (l : Lifecycle) (s : Surroundings) (op : Operation) (m : Machine) :
    (l.operateOn s op m).1 = (l.operate s op).1 ∧
      (l.operateOn s op m).2.commands = m.commands ++ (l.operate s op).2.commands.toArray ∧
      (l.operateOn s op m).2.logs = m.logs ++ (l.operate s op).2.logs.toArray := by
  obtain ⟨made, there⟩ := foldlM_gives (op.phasesOn_gives s l.callDestroy) l.attachments ⟨m, l.errors⟩
  rw [operate_eq]
  exact ⟨congrArg₂ (Lifecycle.mk · · l.callDestroy) made there.errors, there.commands, there.logs⟩

/-! ### Alone or among others -/

/-- A phase does to each attachment what it does to it alone. -/
theorem through_eq (as : List Attachment) (fs : List (Attachment → Attachment × Trace)) :
    List.Forall₂ (fun a b => through [a] fs = [b]) as (through as fs) := by
  induction fs generalizing as with
  | nil => exact List.forall₂_same.mpr fun a _ => (rfl : [a] = [a])
  | cons f fs ih => exact List.forall₂_map_left_iff.mp (ih (Attachment.each f as).1)

theorem tracesOf_eq (as : List Attachment) (fs : List (Attachment → Attachment × Trace)) (k : Nat) :
    (tracesOf as fs).getD k .empty = .concat (as.map fun a => (tracesOf [a] fs).getD k .empty) := by
  induction fs generalizing as k with
  | nil =>
    refine (Trace.concat_eq_empty fun t ht => ?_).symm
    obtain ⟨a, -, rfl⟩ := List.mem_map.mp ht
    rfl
  | cons f fs ih =>
    cases k with
    | zero =>
      show Trace.concat (as.map fun a => (f a).2) = .concat (as.map fun a => (f a).2 ++ .empty)
      simp only [Trace.append_empty]
    | succ k =>
      -- The phases behind the first one find the attachments as it has left them.
      show (tracesOf (Attachment.each f as).1 fs).getD k .empty =
        .concat (as.map fun a => (tracesOf [(f a).1] fs).getD k .empty)
      rw [ih, Attachment.each, List.map_map]
      rfl

/-- Instances share an engine, its queues and a log, and do not interfere.  In turns on any machine an operation
    does what it does at once; each attachment becomes what it becomes without the others, on any machine; and
    what is asked of the host goes behind what was asked before, phase after phase and within a phase in the
    order of the attachments, as what each of them asks for without the others. -/
theorem instances_independent (l : Lifecycle) (s : Surroundings) (op : Operation) (m : Machine) :
    (l.operateOn s op m).1 = (l.operate s op).1 ∧
      List.Forall₂ (fun a b => ∀ m', ((l.alone a).operateOn s op m').1.attachments = [b])
        l.attachments (l.operateOn s op m).1.attachments ∧
      (l.operateOn s op m).2.commands = m.commands ++ (Trace.concat (l.traces s op)).commands.toArray ∧
      (l.operateOn s op m).2.logs = m.logs ++ (Trace.concat (l.traces s op)).logs.toArray ∧
      (l.operate s op).2 = .concat (l.traces s op) ∧
      ∀ phase, (l.traces s op).getD phase .empty =
        .concat (l.attachments.map fun a => ((l.alone a).traces s op).getD phase .empty) := by
  obtain ⟨same, commands, logs⟩ := operateOn_eq l s op m
  have whole : (l.operate s op).2 = .concat (l.traces s op) := by
    rw [operate_eq]
    rfl
  rw [whole] at commands logs
  refine ⟨same, ?_, commands, logs, whole, ?_⟩
  · rw [same, operate_eq]
    refine (through_eq l.attachments (op.phases s l.callDestroy)).imp fun a b alone m' => ?_
    rw [(operateOn_eq (l.alone a) s op m').1, operate_eq]
    exact alone
  · exact fun phase => tracesOf_eq l.attachments _ phase

end Lifecycle

end ScriptHost
