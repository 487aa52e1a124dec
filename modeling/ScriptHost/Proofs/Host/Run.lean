import ScriptHost.Host.Sync
import ScriptHost.Proofs.Host.Reload
import ScriptHost.Proofs.Step

/-!
# Run — what holds of a host after any calls

The attachments, the registry and the active unit of a host are changed by different calls.  They agree
with each other before the first call and after each one, so they agree after every run.
-/

namespace ScriptHost

/-! ## 1. Calls -/

namespace Host

/-- A call that may change a host. -/
inductive Call where
  | attach (entity : Entity) (typeName : String)
  | detach (entity : Entity) (typeName : String)
  | detachEntity (entity : Entity)
  | tick (dt : Float32)
  | frame (notices : List Notice) (fs : Files) (dt : Float32) (input : FrameInput)
  | dispatchInput (event : InputEvent)
  | dispatchCollision (event : Collision)
  | setField (entity : Entity) (typeName field : String) (value : Field.Value)
  | takeErrors
  | takeCommands
  | takeLogs
  | reload (batch : Batch)
  | forceReload (fs : Files)
  | reloadIfChanged (notices : List Notice) (fs : Files)

/-- Performs a call, and gives the report of the reload if there was one. -/
def perform (h : Host) : Call → Option ReloadReport × Host
  | .attach e typeName => (none, (h.attach e typeName).2)
  | .detach e typeName => (none, (h.detach e typeName).2)
  | .detachEntity e => (none, (h.detachEntity e).2)
  | .tick dt => (none, h.tick dt)
  | .frame notices fs dt input => h.frame notices fs dt input
  | .dispatchInput event => (none, h.dispatchInput event)
  | .dispatchCollision event => (none, h.dispatchCollision event)
  | .setField e typeName field value => (none, (h.setField e typeName field value).2)
  | .takeErrors => (none, h.takeErrors.2)
  | .takeCommands => (none, h.takeCommands.2)
  | .takeLogs => (none, h.takeLogs.2)
  | .reload batch => (some (h.reload batch).1, (h.reload batch).2)
  | .forceReload fs => (some (h.forceReload fs).1, (h.forceReload fs).2)
  | .reloadIfChanged notices fs => h.reloadIfChanged notices fs

/-- The host after calls, one after the other. -/
def run (h : Host) (calls : List Call) : Host := calls.foldl (fun h c => (h.perform c).2) h

end Host

/-! ## 2. Agreement -/

/-- A unit that a host may work with. -/
structure ScriptUnit.Sound (u : ScriptUnit) : Prop where
  passed : u.passed = true
  programs : ∀ t ∈ u.types, ∀ p, t.program = some p → p.typeName = t.name

theorem Compiler.sound_compile {c : Compiler} {batch : Batch}
    (passed : (c.compile batch).1.passed = true) : (c.compile batch).1.Sound :=
  ⟨passed, fun _ ht _ hp => Compiler.build_typeName ht hp⟩

namespace Host

variable {h h' : Host} {u : ScriptUnit}

/-- The registry that goes with an active unit. -/
def registryOf : Option ScriptUnit → Registry
  | none => .empty
  | some u => .ofUnit u

/-- The unit, the registry and the attachments of a host agree. -/
structure Sound (h : Host) : Prop where
  unit : ∀ u, h.active = some u → u.Sound
  registry : h.registry = registryOf h.active
  lifecycle : h.lifecycle.Sound h.registry

theorem sound_create (config : Config) (naming : Nat → String) : (create config naming).Sound where
  unit := fun u hu => absurd hu.symm (Option.some_ne_none u)
  registry := rfl
  lifecycle := Lifecycle.sound_create _ _

theorem Sound.named (sound : h.Sound) : h.registry.Named := by
  rw [sound.registry]
  cases hu : h.active with
  | none => exact Registry.named_empty
  | some u => exact Registry.named_ofUnit (sound.unit u hu).programs

theorem Sound.registry_unit (sound : h.Sound) : h.registry.unit = h.active.map (·.id) := by
  rw [sound.registry]
  cases hu : h.active with
  | none => rfl
  | some u => exact Registry.unit_ofUnit (sound.unit u hu).passed

/-- A call that keeps the unit is judged on the attachments. -/
theorem Sound.of_lifecycle (sound : h.Sound) (active : h'.active = h.active)
    (registry : h'.registry = h.registry) (lifecycle : h'.lifecycle.Sound h.registry) :
    h'.Sound where
  unit := by
    rw [active]
    exact sound.unit
  registry := by
    rw [registry, active]
    exact sound.registry
  lifecycle := by
    rw [registry]
    exact lifecycle

/-! ## 3. One call -/

theorem Sound.attach (sound : h.Sound) (e : Entity) (typeName : String) :
    (h.attach e typeName).2.Sound :=
  sound.of_lifecycle rfl rfl sound.lifecycle.attach

theorem Sound.detach (sound : h.Sound) (e : Entity) (typeName : String) :
    (h.detach e typeName).2.Sound :=
  sound.of_lifecycle rfl rfl sound.lifecycle.detach

theorem Sound.detachEntity (sound : h.Sound) (e : Entity) : (h.detachEntity e).2.Sound :=
  sound.of_lifecycle rfl rfl sound.lifecycle.detachEntity

theorem Sound.tick (sound : h.Sound) (dt : Float32) : (h.tick dt).Sound :=
  sound.of_lifecycle rfl rfl (sound.lifecycle.tick sound.named dt)

theorem Sound.dispatchInput (sound : h.Sound) (e : InputEvent) : (h.dispatchInput e).Sound :=
  sound.of_lifecycle rfl rfl (sound.lifecycle.dispatchInput e)

theorem Sound.dispatchCollision (sound : h.Sound) (c : Collision) : (h.dispatchCollision c).Sound :=
  sound.of_lifecycle rfl rfl (sound.lifecycle.dispatchCollision c)

/-- To set a field is to do nothing or to put fields in place of those of one instance. -/
theorem setField_cases (h : Host) (e : Entity) (typeName field : String) (v : Field.Value) :
    (h.setField e typeName field v).2 = h ∨ ∃ fields,
      (h.setField e typeName field v).2 = { h with lifecycle := h.lifecycle.putFields e typeName fields } := by
  rw [Host.setField]
  cases h.inspect e typeName with
  | error refusal => exact .inl rfl
  | ok found => exact .inr ⟨_, rfl⟩

theorem Sound.setField (sound : h.Sound) (e : Entity) (typeName field : String) (v : Field.Value) :
    (h.setField e typeName field v).2.Sound := by
  rcases setField_cases h e typeName field v with same | ⟨fields, put⟩
  · rw [same]
    exact sound
  · rw [put]
    exact sound.of_lifecycle rfl rfl (sound.lifecycle.putFields fields)

/-- A unit takes the place of the one before together with its registry and its instances. -/
theorem Sound.adopt (sound : h.Sound) (unit : u.Sound) : (h.adopt u).Sound where
  unit := by
    intro v hv
    obtain rfl : u = v := Option.some.inj hv
    exact unit
  registry := rfl
  lifecycle := by
    refine Lifecycle.sound_renew sound.lifecycle.distinct (Registry.named_ofUnit unit.programs) ?_
    show (Registry.ofUnit u).unit ≠ none
    rw [Registry.unit_ofUnit unit.passed]
    exact Option.some_ne_none u.id

theorem Sound.activate (sound : h.Sound) (unit : u.passed = true → u.Sound) :
    (h.activate u).2.Sound := by
  rcases activate_cases h u with ⟨passed, he⟩ | ⟨-, he⟩
  · rw [he]
    exact sound.adopt (unit passed)
  · rw [he]
    exact sound.of_lifecycle rfl rfl sound.lifecycle

theorem Sound.reload (sound : h.Sound) (batch : Batch) : (h.reload batch).2.Sound := by
  -- What the compiler has read is no part of the agreement.
  have read : ({ h with compiler := (h.compiler.compile batch).2 } : Host).Sound :=
    sound.of_lifecycle rfl rfl sound.lifecycle
  rw [reload_eq]
  exact read.activate Compiler.sound_compile

theorem Sound.withWatcher (sound : h.Sound) (w : Watcher) : ({ h with watcher := w } : Host).Sound :=
  sound.of_lifecycle rfl rfl sound.lifecycle

theorem Sound.forceReload (sound : h.Sound) (fs : Files) : (h.forceReload fs).2.Sound := by
  rw [forceReload_eq]
  exact (sound.withWatcher _).reload _

theorem Sound.reloadIfChanged (sound : h.Sound) (notices : List Notice) (fs : Files) :
    (h.reloadIfChanged notices fs).2.Sound := by
  rcases reloadIfChanged_eq h notices fs with he | he
  · rw [he]
    exact sound.withWatcher _
  · rw [he]
    exact (sound.withWatcher _).reload _

theorem Sound.dispatchInputs (sound : h.Sound) (es : List InputEvent) :
    (es.foldl Host.dispatchInput h).Sound := by
  induction es generalizing h with
  | nil => exact sound
  | cons e es ih => exact ih (sound.dispatchInput e)

theorem Sound.frame (sound : h.Sound) (notices : List Notice) (fs : Files) (dt : Float32)
    (input : FrameInput) : (h.frame notices fs dt input).2.Sound := by
  have given : ({ h with input := input } : Host).Sound :=
    sound.of_lifecycle rfl rfl sound.lifecycle
  -- A frame is a reload if there are changes, a tick, and one call for each event.
  exact ((given.reloadIfChanged notices fs).tick dt).dispatchInputs input.events

/-- Every call keeps the agreement. -/
theorem Sound.perform (sound : h.Sound) (c : Call) : (h.perform c).2.Sound := by
  cases c with
  | attach e typeName => exact sound.attach e typeName
  | detach e typeName => exact sound.detach e typeName
  | detachEntity e => exact sound.detachEntity e
  | tick dt => exact sound.tick dt
  | frame notices fs dt input => exact sound.frame notices fs dt input
  | dispatchInput event => exact sound.dispatchInput event
  | dispatchCollision event => exact sound.dispatchCollision event
  | setField e typeName field value => exact sound.setField e typeName field value
  -- What is taken from the host is no part of the agreement.
  | takeErrors => exact sound.of_lifecycle rfl rfl sound.lifecycle.takeErrors
  | takeCommands => exact sound.of_lifecycle rfl rfl sound.lifecycle
  | takeLogs => exact sound.of_lifecycle rfl rfl sound.lifecycle
  | reload batch => exact sound.reload batch
  | forceReload fs => exact sound.forceReload fs
  | reloadIfChanged notices fs => exact sound.reloadIfChanged notices fs

/-- Every run keeps the agreement. -/
theorem Sound.run (sound : h.Sound) (calls : List Call) : (h.run calls).Sound := by
  -- On the calls: the first one keeps it, and the others start from a host that has it.
  induction calls generalizing h with
  | nil => exact sound
  | cons c calls ih => exact ih (sound.perform c)

/-! ## 4. Waiting -/

/-- A tick, a frame, or a reload whose unit was accepted. -/
def Settles (h : Host) (c : Call) : Prop :=
  (∃ dt, c = .tick dt) ∨ (∃ notices fs dt input, c = .frame notices fs dt input) ∨
    (h.perform c).1.any (·.isActivated) = true

theorem settled_tick (sound : h.Sound) (active : h.active.isSome = true) (dt : Float32) :
    (h.tick dt).lifecycle.Settled := by
  refine Lifecycle.settled_tick ?_ h.lifecycle dt
  rw [sound.registry_unit, Option.isSome_map]
  exact active

theorem settled_dispatchInputs (settled : h.lifecycle.Settled) (es : List InputEvent) :
    (es.foldl dispatchInput h).lifecycle.Settled := by
  induction es generalizing h with
  | nil => exact settled
  | cons e es ih => exact ih (settled.dispatchInput e)

theorem active_dispatchInputs (h : Host) (es : List InputEvent) :
    (es.foldl dispatchInput h).active = h.active := by
  induction es generalizing h with
  | nil => rfl
  | cons e es ih => exact ih (h.dispatchInput e)

theorem settled_reload {batch : Batch} (accepted : (h.reload batch).1.isActivated = true) :
    (h.reload batch).2.lifecycle.Settled := by
  -- The report tells which way the activation went.
  rw [reload_eq] at accepted ⊢
  rcases activate_cases { h with compiler := (h.compiler.compile batch).2 }
    (h.compiler.compile batch).1 with ⟨-, he⟩ | ⟨-, he⟩
  · rw [he]
    exact Lifecycle.settled_renew _ _ _
  · rw [he] at accepted
    exact absurd accepted Bool.false_ne_true

theorem settled_reloadIfChanged {notices : List Notice} {fs : Files}
    (accepted : (h.reloadIfChanged notices fs).1.any (·.isActivated) = true) :
    (h.reloadIfChanged notices fs).2.lifecycle.Settled := by
  rcases reloadIfChanged_eq h notices fs with he | he
  · rw [he] at accepted
    exact absurd accepted Bool.false_ne_true
  · rw [he] at accepted ⊢
    exact settled_reload accepted

theorem settled_frame (sound : h.Sound) {notices : List Notice} {fs : Files} {dt : Float32}
    {input : FrameInput} (active : (h.frame notices fs dt input).2.active.isSome = true) :
    (h.frame notices fs dt input).2.lifecycle.Settled := by
  have given : ({ h with input := input } : Host).Sound :=
    sound.of_lifecycle rfl rfl sound.lifecycle
  -- The tick settles, and the events after it make nothing wait; none of them changes the unit.
  refine settled_dispatchInputs (settled_tick (given.reloadIfChanged notices fs) ?_ dt) input.events
  change (input.events.foldl dispatchInput _).active.isSome = true at active
  rw [active_dispatchInputs] at active
  exact active

/-- Where there is a unit, no attachment waits after a tick or an accepted reload. -/
theorem settled_perform (sound : h.Sound) {c : Call} (settles : h.Settles c)
    (active : (h.perform c).2.active.isSome = true) : (h.perform c).2.lifecycle.Settled := by
  rcases settles with ⟨dt, rfl⟩ | ⟨notices, fs, dt, input, rfl⟩ | accepted
  · exact settled_tick sound active dt
  · exact settled_frame sound active
  · cases c with
    | reload batch => exact settled_reload accepted
    | forceReload fs => exact settled_reload accepted
    | reloadIfChanged notices fs => exact settled_reloadIfChanged accepted
    | frame notices fs dt input => exact settled_frame sound active
    -- No other call reports a reload.
    | attach | detach | detachEntity | tick | dispatchInput | dispatchCollision | setField
    | takeErrors | takeCommands | takeLogs => exact absurd accepted Bool.false_ne_true

/-! ## 5. Every reachable host -/

/-- What a caller can rely on in a host. -/
structure Coherent (h : Host) : Prop where
  distinct : h.bindings.Nodup
  holds_iff : ∀ a ∈ h.lifecycle.attachments,
    a.running.isSome = true ↔ a.state = .live ∨ a.state = .faulted
  /-- An instance runs the program that the registry has under the name of its attachment now. -/
  runs : ∀ a ∈ h.lifecycle.attachments, ∀ i, a.running = some i →
    i.owner = a.owner ∧ i.program.typeName = a.typeName ∧
      ∃ entry, h.registry.get? a.typeName = some entry ∧ i.program = entry.program
  /-- The program is one of the active unit, not of one before or of one that was rejected. -/
  current : ∀ a ∈ h.lifecycle.attachments, ∀ i, a.running = some i →
    ∃ u, h.active = some u ∧ ∃ t ∈ u.types, t.name = a.typeName ∧ t.program = some i.program
  unit : h.registry.unit = h.active.map (·.id)
  noError : ∀ u, h.active = some u → ∀ d ∈ u.diagnostics, d.severity ≠ .error
  waits : h.active = none → ∀ a ∈ h.lifecycle.attachments, a.state = .pending
  failed : ∀ a ∈ h.lifecycle.attachments, a.state = .failed → h.registry.get? a.typeName = none

theorem bindings_nodup (distinct : h.lifecycle.keys.Nodup) : h.bindings.Nodup := by
  have pairs : h.bindings = h.lifecycle.keys.map fun k => ⟨k.1, k.2⟩ := by
    rw [Lifecycle.keys, List.map_map]
    rfl
  rw [pairs]
  refine distinct.map ?_
  intro k k' same
  obtain ⟨entity, typeName⟩ := Binding.mk.inj same
  exact Prod.ext entity typeName

/-- A registered program is that of a type of the active unit. -/
theorem Sound.exists_type (sound : h.Sound) {name : String} {entry : RegistryEntry}
    (found : h.registry.get? name = some entry) :
    ∃ u, h.active = some u ∧ ∃ t ∈ u.types, t.name = name ∧ t.program = some entry.program := by
  rw [sound.registry] at found
  cases hu : h.active with
  | none =>
    rw [hu] at found
    exact absurd found.symm (Option.some_ne_none entry)
  | some u =>
    rw [hu] at found
    obtain ⟨t, ht, hn, hr⟩ := Registry.exists_type_of_get?_ofUnit found
    exact ⟨u, rfl, t, ht, hn, Registry.program_of_register? hr⟩

theorem Sound.coherent (sound : h.Sound) : h.Coherent where
  distinct := bindings_nodup sound.lifecycle.distinct
  holds_iff := fun a ha => (sound.lifecycle.attachments a ha).holds_iff
  runs := by
    intro a ha i hi
    obtain ⟨owner, typeName, program⟩ := (sound.lifecycle.attachments a ha).runs i hi
    exact ⟨owner, typeName, program⟩
  current := by
    intro a ha i hi
    obtain ⟨entry, found, same⟩ := ((sound.lifecycle.attachments a ha).runs i hi).program
    rw [same]
    exact sound.exists_type found
  unit := sound.registry_unit
  noError := fun u hu => Diagnostic.passes_iff.mp (sound.unit u hu).passed
  waits := by
    intro idle a ha
    refine (sound.lifecycle.attachments a ha).waits ?_
    rw [sound.registry_unit, idle]
    rfl
  failed := fun a ha => (sound.lifecycle.attachments a ha).failed

/-- A host is coherent after every run, and after a tick or an accepted reload no attachment waits. -/
theorem run_coherent (config : Config) (naming : Nat → String) (calls : List Call) :
    ((create config naming).run calls).Coherent ∧
      ∀ c, ((create config naming).run calls).Settles c →
        (((create config naming).run calls).perform c).2.active.isSome = true →
          ∀ a ∈ (((create config naming).run calls).perform c).2.lifecycle.attachments,
            a.state ≠ .pending := by
  have sound := (sound_create config naming).run calls
  exact ⟨sound.coherent, fun c settles active => settled_perform sound settles active⟩

/-- A script with one type, and the reload that brings it. -/
def spinner : Call :=
  .reload ⟨[⟨"spin.ks", "type Spin : Behaviour { fn update(ctx, dt) { } }", default⟩], []⟩

/-- The call by which an entity waits for the type. -/
def awaiting : List Call := [.attach (.first 0) "Spin"]

/-- The entity waits until the type is there. -/
theorem spinner_served :
    ((create .standard toString).run awaiting).lifecycle.attachments.map (·.state) = [.pending] ∧
      ((create .standard toString).run awaiting).Settles spinner ∧
      (((create .standard toString).run awaiting).perform spinner).2.active.isSome = true ∧
      ∀ a ∈ (((create .standard toString).run awaiting).perform spinner).2.lifecycle.attachments,
        a.state ≠ .pending := by
  obtain ⟨waits, accepted, active⟩ :
      ((create .standard toString).run awaiting).lifecycle.attachments.map (·.state) = [.pending] ∧
      (((create .standard toString).run awaiting).perform spinner).1.any (·.isActivated) = true ∧
      (((create .standard toString).run awaiting).perform spinner).2.active.isSome = true := by
    decide +kernel
  have settles : ((create .standard toString).run awaiting).Settles spinner := .inr (.inr accepted)
  exact ⟨waits, settles, active, (run_coherent .standard toString awaiting).2 spinner settles active⟩

end Host

end ScriptHost
