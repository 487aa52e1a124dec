import ScriptHost.Proofs.Lifecycle.Turns

/-!
# Lives — the calls that each instance has received

Attachments come and go, and a reload puts one instance in the place of another.  Here every attachment comes
with a record of the instances it has held and of the calls they got.  The record is only looked at from
outside: without it the operations do what they do anyway.
-/

namespace ScriptHost

/-! ## 1. Calls and lives -/

/-- A call of a hook, with the instance as it was and the state that its attachment was in. -/
structure Received where
  surroundings : Surroundings
  call : HookCall
  receiver : Instance
  state : AttachmentState

namespace Received

def result (c : Received) : CallResult := c.receiver.call c.surroundings c.call

def hook (c : Received) : Hook := c.call.hook

def hasFailed (c : Received) : Bool := c.result.error.isSome

end Received

/-- How things stand with an instance: an attachment holds it, it has gone with its attachment, or a reload has
    put another one in its place. -/
inductive Ending where
  | held
  | detached
  | replaced
deriving DecidableEq

/-- Whether an instance that ends so gets a call of `on_destroy`. -/
def Ending.destroys (callDestroy : Bool) : Ending → Bool
  | held => false
  | detached => true
  | replaced => callDestroy

/-- The life of an instance: what its attachment is known by, what it was made as, the calls it has received,
    the first one first, and its end. -/
structure Life where
  owner : Entity
  typeName : String
  born : Instance
  calls : List Received
  ending : Ending

namespace Life

def start (a : Attachment) (i : Instance) : Life := ⟨a.owner, a.typeName, i, [], .held⟩

def receive (c : Received) (l : Life) : Life := { l with calls := l.calls ++ [c] }

def finish (e : Ending) (l : Life) : Life := { l with ending := e }

end Life

/-- An attachment with the lives of the instances it has held before, and of the one it holds. -/
structure Tended where
  attachment : Attachment
  past : List Life
  current : Option Life

namespace Tended

variable {r : Registry} {s : Surroundings} {c : HookCall} {t : Tended} {callDestroy : Bool}

def create (owner : Entity) (typeName : String) : Tended := ⟨.create owner typeName, [], none⟩

def isFor (t : Tended) (owner : Entity) (typeName : String) : Bool := t.attachment.isFor owner typeName

/-- The lives so far, when the current one has come to an end. -/
def ended (e : Ending) (t : Tended) : List Life := t.past ++ (t.current.map (·.finish e)).toList

def lives (t : Tended) : List Life := t.past ++ t.current.toList

/-- A call is written down where there is an instance to receive it. -/
def deliver (s : Surroundings) (c : HookCall) (t : Tended) : Tended × Trace :=
  match t.attachment.running with
  | none => (t, .empty)
  | some i =>
    let d := t.attachment.deliver s c
    ({ t with
        attachment := d.1
        current := t.current.map (·.receive ⟨s, c, i, t.attachment.state⟩) }, d.2)

def receive (s : Surroundings) (c : HookCall) (t : Tended) : Tended × Trace :=
  if t.attachment.isReceiving then t.deliver s c else (t, .empty)

/-- A life begins where an instance is made. -/
def instantiate (r : Registry) (s : Surroundings) (t : Tended) : Tended × Trace :=
  match r.instantiate? t.attachment.typeName t.attachment.owner with
  | none => ({ t with attachment := { t.attachment with state := .failed } }, .empty)
  | some i =>
    { t with
      attachment := { t.attachment with running := some i, state := .live }
      current := some (.start t.attachment i) }.deliver s .create

def start (r : Registry) (s : Surroundings) (t : Tended) : Tended × Trace :=
  if t.attachment.state == .pending then t.instantiate r s else (t, .empty)

/-- What a reload leaves of an attachment before it makes the new instance. -/
def cleared (t : Tended) : Tended :=
  ⟨.create t.attachment.owner t.attachment.typeName, t.ended .replaced, none⟩

def renew (r : Registry) (s : Surroundings) (callDestroy : Bool) (t : Tended) : Tended × Trace :=
  let left := if callDestroy then t.deliver s .destroy else (t, .empty)
  let made := left.1.cleared.instantiate r s
  (made.1, left.2 ++ made.2)

/-- The end of an attachment: its lives, and the trace of the last call. -/
def destroy (s : Surroundings) (t : Tended) : List Life × Trace :=
  ((t.deliver s .destroy).1.ended .detached, (t.deliver s .destroy).2)

/-- Does the same to each in order. -/
def each (f : Tended → Tended × Trace) (ts : List Tended) : List Tended × Trace :=
  (ts.map fun t => (f t).1, .concat (ts.map fun t => (f t).2))

/-- With lives or without them, the same comes of an attachment and is left behind. -/
def Mirrors (f : Tended → Tended × Trace) (g : Attachment → Attachment × Trace) : Prop :=
  ∀ t, (f t).1.attachment = (g t.attachment).1 ∧ (f t).2 = (g t.attachment).2

theorem mirrors_deliver (s : Surroundings) (c : HookCall) :
    Mirrors (deliver s c) (Attachment.deliver s c) := by
  intro t
  cases running : t.attachment.running with
  | none =>
    rw [Attachment.deliver_of_none running, deliver, running]
    exact ⟨rfl, rfl⟩
  | some i =>
    rw [deliver, running]
    exact ⟨rfl, rfl⟩

theorem mirrors_ite {f : Tended → Tended × Trace} {g : Attachment → Attachment × Trace} (h : Mirrors f g)
    (p : Attachment → Bool) :
    Mirrors (fun t => if p t.attachment then f t else (t, .empty)) (fun a => if p a then g a else (a, .empty)) := by
  intro t
  dsimp only
  split
  · exact h t
  · exact ⟨rfl, rfl⟩

theorem mirrors_receive (s : Surroundings) (c : HookCall) :
    Mirrors (receive s c) (Attachment.receive s c) :=
  mirrors_ite (mirrors_deliver s c) Attachment.isReceiving

theorem mirrors_instantiate (r : Registry) (s : Surroundings) :
    Mirrors (instantiate r s) (Attachment.instantiate r s) := by
  intro t
  unfold instantiate Attachment.instantiate
  cases r.instantiate? t.attachment.typeName t.attachment.owner with
  | none => exact ⟨rfl, rfl⟩
  | some i => exact mirrors_deliver s .create _

theorem mirrors_start (r : Registry) (s : Surroundings) : Mirrors (start r s) (Attachment.start r s) :=
  mirrors_ite (mirrors_instantiate r s) (·.state == .pending)

theorem mirrors_renew (r : Registry) (s : Surroundings) (callDestroy : Bool) :
    Mirrors (renew r s callDestroy) (Attachment.renew r s callDestroy) := by
  intro t
  cases callDestroy with
  | false =>
    obtain ⟨made, left⟩ := mirrors_instantiate r s t.cleared
    exact ⟨made, congrArg (Trace.empty ++ ·) left⟩
  | true =>
    obtain ⟨after, farewell⟩ := mirrors_deliver s .destroy t
    obtain ⟨made, left⟩ := mirrors_instantiate r s (t.deliver s .destroy).1.cleared
    -- A call changes no name, so the new attachment is made as one of the old name.
    have names : (t.deliver s .destroy).1.cleared.attachment =
        .create t.attachment.owner t.attachment.typeName := by
      show Attachment.create (t.deliver s .destroy).1.attachment.owner
        (t.deliver s .destroy).1.attachment.typeName = _
      rw [after, (Attachment.keeps_deliver s .destroy t.attachment).1,
        (Attachment.keeps_deliver s .destroy t.attachment).2]
    rw [names] at made left
    exact ⟨made, congrArg₂ (· ++ ·) farewell left⟩

theorem mirrors_each {f : Tended → Tended × Trace} {g : Attachment → Attachment × Trace} (h : Mirrors f g)
    (ts : List Tended) :
    (each f ts).1.map (·.attachment) = (Attachment.each g (ts.map (·.attachment))).1 ∧
      (each f ts).2 = (Attachment.each g (ts.map (·.attachment))).2 := by
  simp only [each, Attachment.each, List.map_map]
  exact ⟨List.map_congr_left fun t _ => (h t).1,
    congrArg Trace.concat (List.map_congr_left fun t _ => (h t).2)⟩

end Tended

/-! ## 2. Chronicles -/

/-- A lifecycle whose attachments come with their lives, and the lives of the attachments there are no more. -/
structure Chronicle where
  tended : List Tended
  ended : List Life
  errors : ErrorLog
  callDestroy : Bool

/-- What can happen to a lifecycle. -/
inductive Event where
  | attach (owner : Entity) (typeName : String)
  | detach (s : Surroundings) (owner : Entity) (typeName : String)
  | detachEntity (s : Surroundings) (owner : Entity)
  | operate (s : Surroundings) (op : Operation)

namespace Lifecycle

/-- What an event makes of a lifecycle and leaves behind. -/
def undergo (l : Lifecycle) : Event → Lifecycle × Trace
  | .attach owner typeName => ((l.attach owner typeName).2, .empty)
  | .detach s owner typeName => (l.detach s owner typeName).2
  | .detachEntity s owner => (l.detachEntity s owner).2
  | .operate s op => l.operate s op

/-- Events one after the other. -/
def history (l : Lifecycle) : List Event → Lifecycle × Trace
  | [] => (l, .empty)
  | e :: es =>
    let later := (l.undergo e).1.history es
    (later.1, (l.undergo e).2 ++ later.2)

theorem history_append (l : Lifecycle) (es fs : List Event) :
    l.history (es ++ fs) =
      (((l.history es).1.history fs).1, (l.history es).2 ++ ((l.history es).1.history fs).2) := by
  induction es generalizing l with
  | nil => rfl
  | cons e es ih => simp only [List.cons_append, history, ih, Trace.append_assoc]

end Lifecycle

/-- What is done to each attachment, phase by phase, with lives. -/
def Operation.phasesOf (s : Surroundings) (callDestroy : Bool) : Operation → List (Tended → Tended × Trace)
  | tick r dt => [fun t => if r.unit.isSome then t.start r s else (t, .empty), (·.receive s (.update dt))]
  | input e => [(·.receive s (.input e))]
  | collision c => [fun t => if c.involves t.attachment.owner then t.receive s (.collision c) else (t, .empty)]
  | reload r => [(·.renew r s callDestroy)]

theorem Operation.phasesOf_mirrors (op : Operation) (s : Surroundings) (callDestroy : Bool) :
    List.Forall₂ Tended.Mirrors (op.phasesOf s callDestroy) (op.phases s callDestroy) := by
  cases op with
  | tick r dt =>
    exact .cons (Tended.mirrors_ite (Tended.mirrors_start r s) fun _ => r.unit.isSome)
      (.cons (Tended.mirrors_receive s _) .nil)
  | input e => exact .cons (Tended.mirrors_receive s _) .nil
  | collision c => exact .cons (Tended.mirrors_ite (Tended.mirrors_receive s _) fun a => c.involves a.owner) .nil
  | reload r => exact .cons (Tended.mirrors_renew r s callDestroy) .nil

namespace Chronicle

variable {c : Chronicle} {s : Surroundings}

def create (settings : ReloadSettings) : Chronicle := ⟨[], [], .empty settings.maxErrors, settings.callDestroy⟩

/-- The lives of all instances there have been. -/
def lives (c : Chronicle) : List Life := c.ended ++ c.tended.flatMap Tended.lives

/-- The lifecycle that the chronicle is of. -/
def lifecycle (c : Chronicle) : Lifecycle := ⟨c.tended.map (·.attachment), c.errors, c.callDestroy⟩

/-- The chronicle with other attachments and with lives that have come to an end, after a trace. -/
def settle (c : Chronicle) (ts : List Tended) (more : List Life) (t : Trace) : Chronicle × Trace :=
  ({ c with tended := ts, ended := c.ended ++ more, errors := c.errors.recordAll t.errors }, t)

/-- What the phases make of the attachments, and leave behind. -/
def through (ts : List Tended) : List (Tended → Tended × Trace) → List Tended × Trace
  | [] => (ts, .empty)
  | f :: fs =>
    let later := through (Tended.each f ts).1 fs
    (later.1, (Tended.each f ts).2 ++ later.2)

def attach (c : Chronicle) (owner : Entity) (typeName : String) : Chronicle :=
  if (c.tended.find? (·.isFor owner typeName)).isSome then c
  else { c with tended := c.tended ++ [.create owner typeName] }

def detach (c : Chronicle) (s : Surroundings) (owner : Entity) (typeName : String) : Chronicle × Trace :=
  match c.tended.find? (·.isFor owner typeName) with
  | none => (c, .empty)
  | some t => c.settle (c.tended.eraseP (·.isFor owner typeName)) (t.destroy s).1 (t.destroy s).2

def detachEntity (c : Chronicle) (s : Surroundings) (owner : Entity) : Chronicle × Trace :=
  let (gone, left) := c.tended.partition (·.attachment.owner == owner)
  c.settle left (gone.flatMap fun t => (t.destroy s).1) (.concat (gone.map fun t => (t.destroy s).2))

def operate (c : Chronicle) (s : Surroundings) (op : Operation) : Chronicle × Trace :=
  let done := through c.tended (op.phasesOf s c.callDestroy)
  c.settle done.1 [] done.2

/-- What an event makes of a chronicle and leaves behind. -/
def undergo (c : Chronicle) : Event → Chronicle × Trace
  | .attach owner typeName => (c.attach owner typeName, .empty)
  | .detach s owner typeName => c.detach s owner typeName
  | .detachEntity s owner => c.detachEntity s owner
  | .operate s op => c.operate s op

/-- Events one after the other. -/
def history (c : Chronicle) : List Event → Chronicle × Trace
  | [] => (c, .empty)
  | e :: es =>
    let later := (c.undergo e).1.history es
    (later.1, (c.undergo e).2 ++ later.2)

/-! ### Without the lives -/

theorem find?_lifecycle (owner : Entity) (typeName : String) :
    c.lifecycle.find? owner typeName = (c.tended.find? (·.isFor owner typeName)).map (·.attachment) :=
  List.find?_map ..

theorem lifecycle_attach (owner : Entity) (typeName : String) :
    (c.attach owner typeName).lifecycle = (c.lifecycle.attach owner typeName).2 := by
  unfold attach Lifecycle.attach
  rw [find?_lifecycle, Option.isSome_map]
  split
  · rfl
  · exact congrArg (Lifecycle.mk · c.errors c.callDestroy) List.map_append

theorem lifecycle_detach (owner : Entity) (typeName : String) :
    (c.detach s owner typeName).1.lifecycle = (c.lifecycle.detach s owner typeName).2.1 ∧
      (c.detach s owner typeName).2 = (c.lifecycle.detach s owner typeName).2.2 := by
  unfold detach Lifecycle.detach
  rw [find?_lifecycle]
  cases c.tended.find? (·.isFor owner typeName) with
  | none => exact ⟨rfl, rfl⟩
  | some t =>
    have left : (c.tended.eraseP (·.isFor owner typeName)).map (·.attachment) =
        c.lifecycle.attachments.eraseP (·.isFor owner typeName) := by
      show _ = (c.tended.map (·.attachment)).eraseP (·.isFor owner typeName)
      rw [List.eraseP_map]
      rfl
    have trace : (t.destroy s).2 = t.attachment.destroy s := (Tended.mirrors_deliver s .destroy t).2
    exact ⟨congrArg₂ (Lifecycle.mk · · c.callDestroy) left
      (congrArg (fun t : Trace => c.errors.recordAll t.errors) trace), trace⟩

theorem lifecycle_detachEntity (owner : Entity) :
    (c.detachEntity s owner).1.lifecycle = (c.lifecycle.detachEntity s owner).2.1 ∧
      (c.detachEntity s owner).2 = (c.lifecycle.detachEntity s owner).2.2 := by
  have left : (c.tended.filter fun t => !(t.attachment.owner == owner)).map (·.attachment) =
      c.lifecycle.attachments.filter fun a => !(a.owner == owner) := by
    show _ = (c.tended.map (·.attachment)).filter _
    rw [List.filter_map]
    rfl
  have trace : (c.tended.filter fun t => t.attachment.owner == owner).map (fun t => (t.destroy s).2) =
      (c.lifecycle.attachments.filter fun a => a.owner == owner).map (·.destroy s) := by
    show _ = ((c.tended.map (·.attachment)).filter _).map _
    rw [List.filter_map, List.map_map]
    exact List.map_congr_left fun t _ => (Tended.mirrors_deliver s .destroy t).2
  simp only [detachEntity, Lifecycle.detachEntity, List.partition_eq_filter_filter, settle, Lifecycle.settle,
    lifecycle]
  exact ⟨congrArg₂ (Lifecycle.mk · · c.callDestroy) left
    (congrArg (fun ts => c.errors.recordAll (Trace.concat ts).errors) trace), congrArg Trace.concat trace⟩

theorem lifecycle_through {fs : List (Tended → Tended × Trace)} {gs : List (Attachment → Attachment × Trace)}
    (h : List.Forall₂ Tended.Mirrors fs gs) (ts : List Tended) :
    (through ts fs).1.map (·.attachment) = Lifecycle.through (ts.map (·.attachment)) gs ∧
      (through ts fs).2 = .concat (Lifecycle.tracesOf (ts.map (·.attachment)) gs) := by
  induction h generalizing ts with
  | nil => exact ⟨rfl, rfl⟩
  | cons one _ ih =>
    obtain ⟨same, trace⟩ := Tended.mirrors_each one ts
    obtain ⟨rest, traces⟩ := ih (Tended.each _ ts).1
    rw [same] at rest traces
    exact ⟨rest, congrArg₂ (· ++ ·) trace traces⟩

theorem lifecycle_operate (op : Operation) :
    (c.operate s op).1.lifecycle = (c.lifecycle.operate s op).1 ∧
      (c.operate s op).2 = (c.lifecycle.operate s op).2 := by
  obtain ⟨same, trace⟩ := lifecycle_through (op.phasesOf_mirrors s c.callDestroy) c.tended
  rw [Lifecycle.operate_eq]
  exact ⟨congrArg₂ (Lifecycle.mk · · c.callDestroy) same
    (congrArg (fun t : Trace => c.errors.recordAll t.errors) trace), trace⟩

theorem lifecycle_undergo (c : Chronicle) (e : Event) :
    (c.undergo e).1.lifecycle = (c.lifecycle.undergo e).1 ∧ (c.undergo e).2 = (c.lifecycle.undergo e).2 := by
  cases e with
  | attach owner typeName => exact ⟨lifecycle_attach owner typeName, rfl⟩
  | detach s owner typeName => exact lifecycle_detach owner typeName
  | detachEntity s owner => exact lifecycle_detachEntity owner
  | operate s op => exact lifecycle_operate op

/-- The lives are only looked at: without them the run is the one of the lifecycle. -/
theorem lifecycle_history (c : Chronicle) (es : List Event) :
    (c.history es).1.lifecycle = (c.lifecycle.history es).1 ∧ (c.history es).2 = (c.lifecycle.history es).2 := by
  induction es generalizing c with
  | nil => exact ⟨rfl, rfl⟩
  | cons e es ih =>
    obtain ⟨same, trace⟩ := lifecycle_undergo c e
    obtain ⟨rest, traces⟩ := ih (c.undergo e).1
    rw [same] at rest traces
    exact ⟨rest, congrArg₂ (· ++ ·) trace traces⟩

end Chronicle

end ScriptHost
