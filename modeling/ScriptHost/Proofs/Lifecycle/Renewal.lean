import ScriptHost.Proofs.Lifecycle.Basic

/-!
# Renewal — what a reload makes of the attachments

A reload looks at nothing of an attachment but its entity and the name of its type.  What is made of it is a
fresh instance, on which `on_create` has run once, or no instance where the registry does not know the name.
-/

namespace ScriptHost

open Script (Entries)

variable {r : Registry} {s : Surroundings}

/-! ## 1. One attachment -/

namespace Attachment

variable {a : Attachment} {entry : RegistryEntry} {callDestroy : Bool}

/-- What the end of the instance there was leaves behind. -/
def farewell (s : Surroundings) (callDestroy : Bool) (a : Attachment) : Trace :=
  if callDestroy then a.destroy s else .empty

/-- The one run of `on_create`, on an instance of the program whose fields are the declared defaults. -/
def birth (s : Surroundings) (entry : RegistryEntry) (owner : Entity) : CallResult :=
  let p := entry.program
  let born : Instance :=
    { program := p, owner, seed := Instance.seedOf owner, heap := .empty
      fields := Entries.ofList (p.fields.map fun f => (f.name, f.default)) }
  born.call s .create

/-- What is made of an attachment and what that leaves behind, told from what it is known by. -/
def reborn (r : Registry) (s : Surroundings) (key : Entity × String) : Attachment × Trace :=
  (create key.1 key.2).instantiate r s

theorem reborn_of_none {owner : Entity} {typeName : String} (h : r.get? typeName = none) :
    reborn r s (owner, typeName) = (⟨owner, typeName, .failed, none⟩, .empty) := instantiate_of_none h

theorem reborn_of_some {owner : Entity} {typeName : String} (h : r.get? typeName = some entry) :
    reborn r s (owner, typeName) =
      (⟨owner, typeName, if (birth s entry owner).error.isSome then .faulted else .live,
          some (birth s entry owner).after⟩,
        ⟨(birth s entry owner).commands, (birth s entry owner).logs,
          ((birth s entry owner).error.map (RecordedError.mk owner)).toList⟩) := by
  have made : reborn r s (owner, typeName) =
      Attachment.deliver s .create ⟨owner, typeName, .live, some (.fresh entry.program owner)⟩ :=
    instantiate_of_some h
  rw [made]
  show (Attachment.mk owner typeName
    (if (birth s entry owner).error.isSome && true then .faulted else .live) _, _) = _
  rw [Bool.and_true]
  rfl

/-- Hooks run at most twice: `on_destroy` on the old instance, then `on_create` on the new one, and only the
    latter has a part in what the attachment is afterwards. -/
theorem renew_eq (a : Attachment) (r : Registry) (s : Surroundings) (callDestroy : Bool) :
    a.renew r s callDestroy =
      ((reborn r s (a.owner, a.typeName)).1,
        a.farewell s callDestroy ++ (reborn r s (a.owner, a.typeName)).2) := rfl

/-- What has become of an attachment. -/
structure Renewed (r : Registry) (s : Surroundings) (a b : Attachment) : Prop where
  owner : b.owner = a.owner
  typeName : b.typeName = a.typeName
  failed_iff : b.state = .failed ↔ r.get? a.typeName = none
  holds_iff : b.running = none ↔ b.state = .failed
  /-- A registered type has an instance on the same entity: the declared defaults, as one run of `on_create`
      has left them, which is at fault exactly where that run failed. -/
  born : ∀ entry, r.get? a.typeName = some entry →
    (birth s entry a.owner).after.owner = a.owner ∧
      (birth s entry a.owner).after.program = entry.program ∧
      b.running = some (birth s entry a.owner).after ∧
      b.state = if (birth s entry a.owner).error.isSome then .faulted else .live

theorem renewed_renew (r : Registry) (s : Surroundings) (callDestroy : Bool) (a : Attachment) :
    Renewed r s a (a.renew r s callDestroy).1 := by
  rw [renew_eq]
  cases h : r.get? a.typeName with
  | none =>
    rw [reborn_of_none h]
    exact ⟨rfl, rfl, ⟨fun _ => h, fun _ => rfl⟩, ⟨fun _ => rfl, fun _ => rfl⟩,
      fun _ found => nomatch h.symm.trans found⟩
  | some entry =>
    rw [reborn_of_some h]
    have state : (if (birth s entry a.owner).error.isSome then AttachmentState.faulted else .live) ≠
        .failed := by
      split
      · nofun
      · nofun
    refine ⟨rfl, rfl, ⟨fun failed => absurd failed state, fun none => nomatch h.symm.trans none⟩,
      ⟨nofun, fun failed => absurd failed state⟩, fun entry' found => ?_⟩
    obtain rfl := Option.some.inj (h.symm.trans found)
    exact ⟨Instance.call_owner s _ _, Instance.call_program s _ _, rfl, rfl⟩

end Attachment

/-! ## 2. All attachments -/

namespace Lifecycle

variable {l l' : Lifecycle}

theorem renew_attachments (l : Lifecycle) (r : Registry) (s : Surroundings) :
    (l.renew r s).1.attachments = l.attachments.map fun a => (a.renew r s l.callDestroy).1 := rfl

theorem renew_attachments_eq (l : Lifecycle) (r : Registry) (s : Surroundings) :
    (l.renew r s).1.attachments = l.keys.map fun key => (Attachment.reborn r s key).1 := by
  rw [renew_attachments, keys, List.map_map]
  rfl

theorem renewed_attachments (l : Lifecycle) (r : Registry) (s : Surroundings) :
    List.Forall₂ (Attachment.Renewed r s) l.attachments (l.renew r s).1.attachments := by
  rw [renew_attachments, List.forall₂_map_right_iff]
  exact List.forall₂_same.mpr fun a _ => Attachment.renewed_renew r s l.callDestroy a

/-- Every attachment is counted once, and the failed ones apart. -/
theorem rebound_renew (l : Lifecycle) (r : Registry) (s : Surroundings) :
    (l.renew r s).1.rebound.rebound + (l.renew r s).1.rebound.failed = l.attachments.length ∧
      (l.renew r s).1.rebound.failed =
        (l.renew r s).1.attachments.countP (·.state = .failed) := by
  have idle_iff : ∀ b ∈ (l.renew r s).1.attachments,
      (b.running.isNone = true ↔ decide (b.state = .failed) = true) := by
    intro b hb
    obtain ⟨a, -, rfl⟩ := mem_each hb
    rw [Option.isNone_iff_eq_none, decide_eq_true_iff]
    exact (Attachment.renewed_renew r s l.callDestroy a).holds_iff
  constructor
  · have split := List.length_eq_countP_add_countP (fun b : Attachment => b.running.isSome)
      (l := (l.renew r s).1.attachments)
    have idle : (l.renew r s).1.attachments.countP (fun b => ¬ b.running.isSome) =
        (l.renew r s).1.attachments.countP (·.running.isNone) :=
      List.countP_congr fun b _ => by simp
    rw [idle, renew_attachments, List.length_map] at split
    exact split.symm
  · exact List.countP_congr idle_iff

/-- A reload forgets the states and the fields that there were, and nothing else: what the attachments are
    known by stays, in order, the errors of the hooks it ran come behind those in the log, and two lifecycles
    with attachments known by the same have the same attachments afterwards, whatever either of them was and
    whether or not it calls `on_destroy`. -/
theorem renewal_forgets (l : Lifecycle) (r : Registry) (s : Surroundings) :
    (l.renew r s).1.keys = l.keys ∧
      List.Forall₂ (Attachment.Renewed r s) l.attachments (l.renew r s).1.attachments ∧
      (l.renew r s).1.rebound.rebound + (l.renew r s).1.rebound.failed = l.attachments.length ∧
      (l.renew r s).1.rebound.failed =
        (l.renew r s).1.attachments.countP (·.state = .failed) ∧
      (l.renew r s).2 = .concat (l.attachments.map fun a =>
        a.farewell s l.callDestroy ++ (Attachment.reborn r s (a.owner, a.typeName)).2) ∧
      (l.renew r s).1.errors = l.errors.recordAll (l.renew r s).2.errors ∧
      ∀ l' : Lifecycle, l'.keys = l.keys →
        (l'.renew r s).1.attachments = (l.renew r s).1.attachments := by
  obtain ⟨all, failed⟩ := rebound_renew l r s
  refine ⟨keys_each (Attachment.keeps_renew r s l.callDestroy) l, renewed_attachments l r s, all, failed,
    rfl, rfl, ?_⟩
  intro l' same
  rw [renew_attachments_eq, renew_attachments_eq, same]

/-- The registry of a corpus with one type, which counts its own creation. -/
def counting : Registry :=
  .ofUnit ((Compiler.create toString false).compile
    ⟨[⟨"a.ks", "type Spin : Behaviour \x7b pub n: int = 1; fn on_create(ctx) \x7b this.n += 1; \x7d \x7d", .time 0⟩],
      []⟩).1

/-- Two attachments that wait, one of them for a type that there is not. -/
def waiting : Lifecycle :=
  ⟨[.create (.first 0) "Spin", .create (.first 1) "Gone"], .empty 4, false⟩

/-- The same two after another life: one at fault, with fields of its own, and one at work. -/
def worn : Lifecycle :=
  let old (e : Entity) : Instance := .fresh ⟨"Old", [], .empty, [], []⟩ e
  ⟨[⟨.first 0, "Spin", .faulted, some { old (.first 0) with fields := [("n", .int 70)] }⟩,
      ⟨.first 1, "Gone", .live, some (old (.first 1))⟩], .empty 0, true⟩

/-- The new instance counts its creation from the declared default on. -/
theorem worn_is_waiting_renewed :
    let renewed := (worn.renew counting default).1.attachments
    worn.keys = waiting.keys ∧ renewed = (waiting.renew counting default).1.attachments ∧
      renewed.map (·.state) = [.live, .failed] ∧
      renewed.map (fun a => a.running.any fun i => Entries.get? "n" i.fields matches some (.int 2)) =
        [true, false] := by
  intro renewed
  have same : worn.keys = waiting.keys := by decide
  have states : renewed.map (·.state) = [.live, .failed] ∧
      renewed.map (fun a => a.running.any fun i => Entries.get? "n" i.fields matches some (.int 2)) =
        [true, false] := by
    decide +kernel
  exact ⟨same, (renewal_forgets waiting counting default).2.2.2.2.2.2 worn same, states⟩

end Lifecycle

end ScriptHost
