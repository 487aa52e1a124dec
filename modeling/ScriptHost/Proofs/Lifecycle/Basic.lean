import Mathlib.Data.List.Nodup
import ScriptHost.Lifecycle.Basic
import ScriptHost.Proofs.Lifecycle.Attachment

/-!
# Lifecycle — the attachments of a host from step to step

Every operation does the same to each attachment, adds one, or removes some.  So attachments that are
distinct and agree with the registry stay so.
-/

namespace ScriptHost.Lifecycle

open Attachment (Keeps)
open Script (Value Entries)

variable {r : Registry} {s : Surroundings} {l : Lifecycle} {f : Attachment → Attachment × Trace}
  {owner : Entity} {typeName : String}

/-! ## 1. Agreement with a registry -/

/-- What the attachments are known by, in order. -/
def keys (l : Lifecycle) : List (Entity × String) := l.attachments.map fun a => (a.owner, a.typeName)

/-- The attachments are distinct, and each of them agrees with the registry. -/
structure Sound (r : Registry) (l : Lifecycle) : Prop where
  distinct : l.keys.Nodup
  attachments : ∀ a ∈ l.attachments, a.Sound r

theorem sound_create (r : Registry) (settings : ReloadSettings) : (create settings).Sound r where
  distinct := List.nodup_nil
  attachments := fun _ h => absurd h List.not_mem_nil

theorem keys_each (keeps : Keeps f) (l : Lifecycle) : (l.each f).1.keys = l.keys := by
  show (l.attachments.map fun a => (f a).1).map (fun a => (a.owner, a.typeName)) = l.keys
  rw [List.map_map]
  refine List.map_congr_left fun a _ => ?_
  show ((f a).1.owner, (f a).1.typeName) = (a.owner, a.typeName)
  rw [(keeps a).1, (keeps a).2]

theorem mem_each {b : Attachment} (h : b ∈ (l.each f).1.attachments) :
    ∃ a ∈ l.attachments, (f a).1 = b := List.mem_map.mp h

/-- An operation on each attachment is judged on one; the registry may be another one afterwards. -/
theorem sound_each {r' : Registry} (distinct : l.keys.Nodup) (keeps : Keeps f)
    (sound : ∀ a ∈ l.attachments, (f a).1.Sound r') : (l.each f).1.Sound r' where
  distinct := by
    rw [keys_each keeps]
    exact distinct
  attachments := by
    intro b hb
    obtain ⟨a, ha, rfl⟩ := mem_each hb
    exact sound a ha

/-- What is left after a removal is as it was. -/
theorem Sound.of_sublist {l' : Lifecycle} (h : l.Sound r)
    (left : l'.attachments.Sublist l.attachments) : l'.Sound r where
  distinct := h.distinct.sublist (left.map _)
  attachments := fun a ha => h.attachments a (left.subset ha)

/-! ## 2. Attaching and detaching -/

theorem find?_isSome_iff : (l.find? owner typeName).isSome = true ↔ (owner, typeName) ∈ l.keys := by
  rw [find?, List.find?_isSome, keys, List.mem_map]
  constructor
  · rintro ⟨a, ha, hf⟩
    simp only [Attachment.isFor, Bool.and_eq_true, beq_iff_eq] at hf
    exact ⟨a, ha, Prod.ext hf.1 hf.2⟩
  · rintro ⟨a, ha, hk⟩
    obtain ⟨ho, ht⟩ := Prod.mk.inj hk
    exact ⟨a, ha, by simp [Attachment.isFor, ho, ht]⟩

/-- Where names are distinct, an attachment is found under its own. -/
theorem find?_of_mem (distinct : l.keys.Nodup) {a : Attachment} (mem : a ∈ l.attachments) :
    l.find? a.owner a.typeName = some a := by
  obtain ⟨b, found⟩ := Option.isSome_iff_exists.mp (find?_isSome_iff.mpr (List.mem_map_of_mem mem))
  have named := List.find?_some found
  simp only [Attachment.isFor, Bool.and_eq_true, beq_iff_eq] at named
  rw [found, List.inj_on_of_nodup_map distinct (List.mem_of_find?_eq_some found) mem (Prod.ext named.1 named.2)]

theorem nodup_attach (distinct : l.keys.Nodup) : (l.attach owner typeName).2.keys.Nodup := by
  rw [Lifecycle.attach]
  by_cases there : (l.find? owner typeName).isSome = true
  · rw [if_pos there]
    exact distinct
  · rw [if_neg there]
    rw [find?_isSome_iff] at there
    show ((l.attachments ++ [Attachment.create owner typeName]).map fun a => (a.owner, a.typeName)).Nodup
    rw [List.map_append]
    -- The new key is none of those there were, for nothing was found under it.
    refine distinct.append (List.nodup_singleton _) ?_
    intro k hk hn
    rw [List.mem_singleton.mp hn] at hk
    exact there hk

theorem mem_attach {a : Attachment} (h : a ∈ (l.attach owner typeName).2.attachments) :
    a ∈ l.attachments ∨ a = .create owner typeName := by
  rw [Lifecycle.attach] at h
  split at h
  · exact .inl h
  · exact (List.mem_append.mp h).imp_right List.mem_singleton.mp

theorem sublist_detach (l : Lifecycle) (s : Surroundings) (owner : Entity) (typeName : String) :
    (l.detach s owner typeName).2.1.attachments.Sublist l.attachments := by
  rw [Lifecycle.detach]
  split
  · exact .refl _
  · exact List.eraseP_sublist

theorem detachEntity_attachments (l : Lifecycle) (s : Surroundings) (owner : Entity) :
    (l.detachEntity s owner).2.1.attachments = l.attachments.filter (·.owner != owner) := by
  show (l.attachments.partition (·.owner == owner)).2 = _
  rw [List.partition_eq_filter_filter]
  rfl

theorem Sound.attach (h : l.Sound r) : (l.attach owner typeName).2.Sound r where
  distinct := nodup_attach h.distinct
  attachments := by
    intro a ha
    rcases mem_attach ha with ha | rfl
    · exact h.attachments a ha
    · exact Attachment.sound_create r owner typeName

theorem Sound.detach (h : l.Sound r) : (l.detach s owner typeName).2.1.Sound r :=
  h.of_sublist (sublist_detach l s owner typeName)

theorem Sound.detachEntity (h : l.Sound r) : (l.detachEntity s owner).2.1.Sound r := by
  refine h.of_sublist ?_
  rw [detachEntity_attachments]
  exact List.filter_sublist

/-! ## 3. Frames and reloads -/

theorem Sound.receive (h : l.Sound r) (c : HookCall) : (l.each (·.receive s c)).1.Sound r :=
  sound_each h.distinct (Attachment.keeps_receive s c) fun a ha => (h.attachments a ha).receive

theorem Sound.start (h : l.Sound r) (named : r.Named) (unit : r.unit ≠ none) :
    (l.each (·.start r s)).1.Sound r :=
  sound_each h.distinct (Attachment.keeps_start r s) fun a ha =>
    (h.attachments a ha).start named unit

/-- What a tick starts with: instances are made where there is a unit. -/
def started (l : Lifecycle) (r : Registry) (s : Surroundings) : Lifecycle × Trace :=
  if r.unit.isSome then l.each (·.start r s) else (l, .empty)

theorem tick_eq (l : Lifecycle) (r : Registry) (s : Surroundings) (dt : Float32) :
    (l.tick r s dt).1 = ((l.started r s).1.each (·.receive s (.update dt))).1 := rfl

theorem Sound.tick (h : l.Sound r) (named : r.Named) (dt : Float32) : (l.tick r s dt).1.Sound r := by
  rw [tick_eq]
  refine Sound.receive ?_ _
  rw [started]
  -- Without a unit nothing is started, and what waits goes on waiting.
  by_cases unit : r.unit.isSome = true
  · rw [if_pos unit]
    exact h.start named (Option.isSome_iff_ne_none.mp unit)
  · rw [if_neg unit]
    exact h

theorem Sound.dispatchInput (h : l.Sound r) (e : InputEvent) : (l.dispatchInput s e).1.Sound r :=
  h.receive (.input e)

theorem keeps_collision (s : Surroundings) (c : Collision) :
    Keeps fun a => if c.involves a.owner then a.receive s (.collision c) else (a, .empty) := by
  intro a
  dsimp only
  split
  · exact Attachment.keeps_receive s _ a
  · exact ⟨rfl, rfl⟩

theorem Sound.dispatchCollision (h : l.Sound r) (c : Collision) :
    (l.dispatchCollision s c).1.Sound r := by
  refine sound_each h.distinct (keeps_collision s c) fun a ha => ?_
  split
  · exact (h.attachments a ha).receive
  · exact h.attachments a ha

/-- After a reload the attachments agree with the new registry, whatever they were before. -/
theorem sound_renew {r' : Registry} (distinct : l.keys.Nodup) (named : r'.Named)
    (unit : r'.unit ≠ none) : (l.renew r' s).1.Sound r' :=
  sound_each distinct (Attachment.keeps_renew r' s l.callDestroy) fun _ _ =>
    Attachment.sound_renew named unit

/-! ## 4. Fields -/

/-- An attachment with other fields in its instance. -/
def withFields (fields : Entries Value) (a : Attachment) : Attachment :=
  { a with running := a.running.map fun i => { i with fields := fields } }

theorem sound_withFields {a : Attachment} (h : a.Sound r) (fields : Entries Value) :
    (withFields fields a).Sound r where
  holds_iff := by
    rw [withFields, Option.isSome_map]
    exact h.holds_iff
  runs := by
    intro i hi
    obtain ⟨j, hj, rfl⟩ := Option.map_eq_some_iff.mp hi
    obtain ⟨owner, typeName, program⟩ := h.runs j hj
    exact ⟨owner, typeName, program⟩
  failed := h.failed
  waits := h.waits

/-- Fields are put by an operation on each attachment that calls no hook. -/
theorem putFields_eq (l : Lifecycle) (owner : Entity) (typeName : String) (fields : Entries Value) :
    (l.putFields owner typeName fields).attachments =
      l.attachments.map fun a => if a.isFor owner typeName then withFields fields a else a := rfl

/-- To put the fields that are there changes nothing. -/
theorem putFields_self (distinct : l.keys.Nodup) {a : Attachment} {i : Instance}
    (found : l.find? owner typeName = some a) (running : a.running = some i) :
    l.putFields owner typeName i.fields = l := by
  have same : ∀ b ∈ l.attachments, (if b.isFor owner typeName then withFields i.fields b else b) = b := by
    intro b hb
    split
    · rename_i named
      have again := List.find?_some found
      simp only [Attachment.isFor, Bool.and_eq_true, beq_iff_eq] at named again
      have one : (b.owner, b.typeName) = (a.owner, a.typeName) :=
        Prod.ext (named.1.trans again.1.symm) (named.2.trans again.2.symm)
      obtain rfl := List.inj_on_of_nodup_map distinct hb (List.mem_of_find?_eq_some found) one
      rw [withFields, running]
      exact congrArg (fun running => { b with running }) running.symm
    · rfl
  have attachments := (List.map_congr_left same).trans (List.map_id' l.attachments)
  exact congrArg (Lifecycle.mk · l.errors l.callDestroy) attachments

theorem keys_putFields (l : Lifecycle) (owner : Entity) (typeName : String) (fields : Entries Value) :
    (l.putFields owner typeName fields).keys = l.keys := by
  rw [keys, putFields_eq, List.map_map]
  refine List.map_congr_left fun a _ => ?_
  show ((if a.isFor owner typeName then withFields fields a else a).owner,
    (if a.isFor owner typeName then withFields fields a else a).typeName) = _
  split
  · rfl
  · rfl

theorem Sound.putFields (h : l.Sound r) (fields : Entries Value) :
    (l.putFields owner typeName fields).Sound r where
  distinct := by
    rw [keys_putFields]
    exact h.distinct
  attachments := by
    intro b hb
    rw [putFields_eq] at hb
    obtain ⟨a, ha, rfl⟩ := List.mem_map.mp hb
    split
    · exact sound_withFields (h.attachments a ha) fields
    · exact h.attachments a ha

theorem Sound.takeErrors (h : l.Sound r) : l.takeErrors.2.Sound r := ⟨h.distinct, h.attachments⟩

/-! ## 5. Waiting -/

/-- No attachment waits for an instance. -/
def Settled (l : Lifecycle) : Prop := ∀ a ∈ l.attachments, a.state ≠ .pending

theorem Settled.receive (h : l.Settled) (c : HookCall) : (l.each (·.receive s c)).1.Settled := by
  intro b hb pending
  obtain ⟨a, ha, rfl⟩ := mem_each hb
  exact h a ha (Attachment.pending_of_receive pending)

theorem settled_tick (unit : r.unit.isSome = true) (l : Lifecycle) (dt : Float32) :
    (l.tick r s dt).1.Settled := by
  rw [tick_eq]
  refine Settled.receive ?_ _
  rw [started, if_pos unit]
  intro b hb
  obtain ⟨a, -, rfl⟩ := mem_each hb
  exact Attachment.start_state_ne_pending

theorem Settled.dispatchInput (h : l.Settled) (e : InputEvent) : (l.dispatchInput s e).1.Settled :=
  h.receive (.input e)

theorem settled_renew (l : Lifecycle) (r : Registry) (s : Surroundings) :
    (l.renew r s).1.Settled := by
  intro b hb
  obtain ⟨a, -, rfl⟩ := mem_each hb
  exact Attachment.renew_state_ne_pending

end ScriptHost.Lifecycle
