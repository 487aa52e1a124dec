import ScriptHost.Lifecycle.Attachment
import ScriptHost.Proofs.Registry

/-!
# Attachment — what holds of an attachment whatever its hooks do

A hook can change the fields of an instance and put the attachment at fault, and nothing else.  So an
attachment that agrees with the registry agrees with it after every call.
-/

namespace ScriptHost.Attachment

variable {r : Registry} {s : Surroundings} {c : HookCall} {a : Attachment} {i : Instance}
  {callDestroy : Bool}

/-! ## 1. Agreement with a registry -/

/-- The instance is one of the attachment, and runs what the registry has under its name. -/
structure Runs (r : Registry) (a : Attachment) (i : Instance) : Prop where
  owner : i.owner = a.owner
  typeName : i.program.typeName = a.typeName
  program : ∃ entry, r.get? a.typeName = some entry ∧ i.program = entry.program

/-- The attachment is in a state that the registry accounts for. -/
structure Sound (r : Registry) (a : Attachment) : Prop where
  holds_iff : a.running.isSome = true ↔ a.state = .live ∨ a.state = .faulted
  runs : ∀ i, a.running = some i → Runs r a i
  failed : a.state = .failed → r.get? a.typeName = none
  waits : r.unit = none → a.state = .pending

theorem sound_create (r : Registry) (owner : Entity) (typeName : String) :
    (create owner typeName).Sound r where
  holds_iff := by simp [create]
  runs := fun i h => absurd h.symm (Option.some_ne_none i)
  failed := fun h => absurd h (by simp [create])
  waits := fun _ => rfl

/-- An attachment at work agrees with a registry of a unit that has its program. -/
theorem Sound.of_running (unit : r.unit ≠ none) (running : a.running = some i)
    (state : a.state = .live ∨ a.state = .faulted) (runs : Runs r a i) : a.Sound r where
  holds_iff := by
    rw [running]
    exact ⟨fun _ => state, fun _ => rfl⟩
  runs := by
    intro j hj
    obtain rfl : i = j := Option.some.inj (running.symm.trans hj)
    exact runs
  failed := by
    intro h
    rw [h] at state
    exact absurd state (by decide)
  waits := fun h => absurd h unit

/-- There is a unit where an attachment is at work. -/
theorem Sound.unit_ne_none (h : a.Sound r) (running : a.running = some i) : r.unit ≠ none := by
  intro hu
  have state := h.holds_iff.mp (by rw [running]; rfl)
  rw [h.waits hu] at state
  exact absurd state (by decide)

/-- Nothing runs where an attachment waits. -/
theorem Sound.running_of_pending (h : a.Sound r) (pending : a.state = .pending) :
    a.running = none := by
  cases hr : a.running with
  | none => rfl
  | some i =>
    have state := h.holds_iff.mp (by rw [hr]; rfl)
    rw [pending] at state
    exact absurd state (by decide)

/-! ## 2. Calls -/

theorem deliver_of_none (h : a.running = none) : a.deliver s c = (a, .empty) := by
  rw [deliver, h]

/-- A call leaves everything but the fields, the seed, and perhaps the state. -/
theorem deliver_of_some (h : a.running = some i) :
    ∃ state, (state = a.state ∨ state = .faulted) ∧
      (a.deliver s c).1 = { a with running := some (i.call s c).after, state := state } := by
  rw [deliver, h]
  dsimp only
  split
  · exact ⟨.faulted, .inr rfl, rfl⟩
  · exact ⟨a.state, .inl rfl, rfl⟩

theorem Sound.deliver (h : a.Sound r) : (a.deliver s c).1.Sound r := by
  cases hr : a.running with
  | none =>
    rw [deliver_of_none hr]
    exact h
  | some i =>
    obtain ⟨state, hs, he⟩ := deliver_of_some hr
    -- An instance is at work or at fault before the call, and at work or at fault after it.
    have before := h.holds_iff.mp (by rw [hr]; rfl)
    have after : state = .live ∨ state = .faulted := by
      rcases hs with rfl | rfl
      · exact before
      · exact .inr rfl
    obtain ⟨owner, typeName, program⟩ := h.runs i hr
    rw [he]
    refine .of_running (h.unit_ne_none hr) rfl after ⟨?_, ?_, ?_⟩
    · exact (i.call_owner s c).trans owner
    · rw [i.call_program s c]
      exact typeName
    · rw [i.call_program s c]
      exact program

theorem Sound.receive (h : a.Sound r) : (a.receive s c).1.Sound r := by
  rw [Attachment.receive]
  split
  · exact h.deliver
  · exact h

/-! ## 3. Instances -/

theorem instantiate_of_none (h : r.get? a.typeName = none) :
    a.instantiate r s = ({ a with state := .failed }, .empty) := by
  rw [instantiate, Registry.instantiate?_of_get?_none h]

theorem instantiate_of_some {entry : RegistryEntry} (h : r.get? a.typeName = some entry) :
    a.instantiate r s =
      { a with running := some (.fresh entry.program a.owner), state := .live }.deliver s .create := by
  rw [instantiate, Registry.instantiate?_of_get?_some h]

/-- An attachment without an instance gets one of the registry, or has failed. -/
theorem sound_instantiate (named : r.Named) (unit : r.unit ≠ none) (idle : a.running = none) :
    (a.instantiate r s).1.Sound r := by
  cases hg : r.get? a.typeName with
  | none =>
    rw [instantiate_of_none hg]
    exact
      { holds_iff := by simp [idle]
        runs := fun i h => absurd (idle.symm.trans h).symm (Option.some_ne_none i)
        failed := fun _ => hg
        waits := fun h => absurd h unit }
  | some entry =>
    rw [instantiate_of_some hg]
    -- The instance agrees with the registry before its first hook, hence after it.
    refine Sound.deliver (.of_running unit rfl (.inl rfl) ⟨rfl, ?_, entry, hg, rfl⟩)
    exact named a.typeName entry hg

theorem Sound.start (h : a.Sound r) (named : r.Named) (unit : r.unit ≠ none) :
    (a.start r s).1.Sound r := by
  rw [Attachment.start]
  by_cases hp : a.state = .pending
  · rw [if_pos (beq_iff_eq.mpr hp)]
    exact sound_instantiate named unit (h.running_of_pending hp)
  · rw [if_neg (by simpa using hp)]
    exact h

/-- What an attachment was before does not matter to a reload. -/
theorem sound_renew (named : r.Named) (unit : r.unit ≠ none) :
    (a.renew r s callDestroy).1.Sound r := by
  show ((create a.owner a.typeName).instantiate r s).1.Sound r
  exact sound_instantiate named unit rfl

/-! ## 4. What stays -/

/-- The operation leaves the entity and the name of the type. -/
def Keeps (f : Attachment → Attachment × Trace) : Prop :=
  ∀ a, (f a).1.owner = a.owner ∧ (f a).1.typeName = a.typeName

theorem keeps_deliver (s : Surroundings) (c : HookCall) : Keeps (deliver s c) := by
  intro a
  cases hr : a.running with
  | none =>
    rw [deliver_of_none hr]
    exact ⟨rfl, rfl⟩
  | some i =>
    obtain ⟨state, -, he⟩ := deliver_of_some hr
    rw [he]
    exact ⟨rfl, rfl⟩

theorem keeps_receive (s : Surroundings) (c : HookCall) : Keeps (receive s c) := by
  intro a
  rw [receive]
  split
  · exact keeps_deliver s c a
  · exact ⟨rfl, rfl⟩

theorem keeps_instantiate (r : Registry) (s : Surroundings) : Keeps (instantiate r s) := by
  intro a
  cases hg : r.get? a.typeName with
  | none =>
    rw [instantiate_of_none hg]
    exact ⟨rfl, rfl⟩
  | some entry =>
    rw [instantiate_of_some hg]
    exact keeps_deliver s .create _

theorem keeps_start (r : Registry) (s : Surroundings) : Keeps (start r s) := by
  intro a
  rw [start]
  split
  · exact keeps_instantiate r s a
  · exact ⟨rfl, rfl⟩

theorem keeps_renew (r : Registry) (s : Surroundings) (callDestroy : Bool) :
    Keeps (renew r s callDestroy) :=
  fun a => keeps_instantiate r s (create a.owner a.typeName)

/-! ## 5. Waiting -/

/-- No call makes an attachment wait again. -/
theorem pending_of_deliver (h : (a.deliver s c).1.state = .pending) : a.state = .pending := by
  cases hr : a.running with
  | none =>
    rw [deliver_of_none hr] at h
    exact h
  | some i =>
    obtain ⟨state, hs, he⟩ := deliver_of_some hr
    rw [he] at h
    rcases hs with rfl | rfl
    · exact h
    · exact absurd h (by simp)

theorem pending_of_receive (h : (a.receive s c).1.state = .pending) : a.state = .pending := by
  rw [receive] at h
  split at h
  · exact pending_of_deliver h
  · exact h

theorem instantiate_state_ne_pending : (a.instantiate r s).1.state ≠ .pending := by
  intro h
  cases hg : r.get? a.typeName with
  | none =>
    rw [instantiate_of_none hg] at h
    exact absurd h (by simp)
  | some entry =>
    rw [instantiate_of_some hg] at h
    exact absurd (pending_of_deliver h) (by simp)

theorem start_state_ne_pending : (a.start r s).1.state ≠ .pending := by
  rw [start]
  by_cases hp : a.state = .pending
  · rw [if_pos (beq_iff_eq.mpr hp)]
    exact instantiate_state_ne_pending
  · rw [if_neg (by simpa using hp)]
    exact hp

theorem renew_state_ne_pending : (a.renew r s callDestroy).1.state ≠ .pending := by
  show ((create a.owner a.typeName).instantiate r s).1.state ≠ .pending
  exact instantiate_state_ne_pending

end ScriptHost.Attachment
