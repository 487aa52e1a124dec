import ScriptHost.Proofs.Lifecycle.Deliveries

/-!
# Deeds — all that is done to a lifecycle

Besides its events, the owner of a lifecycle writes fields and takes the errors.  A lifecycle comes about from an
empty one by such deeds, in any order and with any registries and inputs.  Whatever they were, its attachments are
distinct, and an attachment holds an instance of its own entity exactly while it is at work or at fault.
-/

namespace ScriptHost

open Script (Value Entries)

/-- Something done to a lifecycle. -/
inductive Deed where
  | event (e : Event)
  | putFields (owner : Entity) (typeName : String) (fields : Entries Value)
  | takeErrors

namespace Lifecycle

variable {l : Lifecycle} {owner : Entity}

def perform (l : Lifecycle) : Deed → Lifecycle
  | .event e => (l.undergo e).1
  | .putFields owner typeName fields => l.putFields owner typeName fields
  | .takeErrors => l.takeErrors.2

/-- Deeds one after the other. -/
def run (l : Lifecycle) (deeds : List Deed) : Lifecycle := deeds.foldl perform l

theorem run_concat (l : Lifecycle) (deeds : List Deed) (d : Deed) :
    l.run (deeds ++ [d]) = (l.run deeds).perform d := List.foldl_concat ..

/-- The calls that a deed takes. -/
def callsOf (l : Lifecycle) : Deed → List Delivery
  | .event e => l.calls e
  | .putFields .. | .takeErrors => []

/-- The calls that several deeds take, one after the other. -/
def runCalls (l : Lifecycle) : List Deed → List Delivery
  | [] => []
  | d :: deeds => l.callsOf d ++ (l.perform d).runCalls deeds

theorem runCalls_concat (l : Lifecycle) (deeds : List Deed) (d : Deed) :
    l.runCalls (deeds ++ [d]) = l.runCalls deeds ++ (l.run deeds).callsOf d := by
  induction deeds generalizing l with
  | nil => exact List.append_nil _
  | cons first deeds ih =>
    rw [List.cons_append, runCalls, ih, runCalls, List.append_assoc]
    rfl

/-! ## 1. What an event keeps -/

theorem undergo_callDestroy (l : Lifecycle) (e : Event) : (l.undergo e).1.callDestroy = l.callDestroy := by
  cases e with
  | attach owner typeName =>
    show (l.attach owner typeName).2.callDestroy = _
    rw [attach]
    split <;> rfl
  | detach s owner typeName =>
    show (l.detach s owner typeName).2.1.callDestroy = _
    rw [detach]
    split <;> rfl
  | detachEntity s owner => rfl
  | operate s op =>
    show (l.operate s op).1.callDestroy = _
    rw [operate_eq]
    rfl

/-- A round changes no name, so several rounds change none. -/
theorem keys_operate (l : Lifecycle) (s : Surroundings) (op : Operation) : (l.operate s op).1.keys = l.keys := by
  rw [keys, operate_attachments, keys]
  generalize op.rounds s l.callDestroy = rounds
  generalize l.attachments = as
  induction rounds generalizing as with
  | nil => rfl
  | cons round rounds ih =>
    refine (ih _).trans ?_
    rw [List.map_map]
    exact List.map_congr_left fun a _ => Prod.ext (round.keeps a).1 (round.keeps a).2

/-! ## 2. Entities without attachments -/

/-- Nothing is attached to the entity. -/
def Free (owner : Entity) (l : Lifecycle) : Prop := ∀ k ∈ l.keys, k.1 ≠ owner

theorem free_iff : l.Free owner ↔ ∀ a ∈ l.attachments, a.owner ≠ owner := List.forall_mem_map

theorem Free.of_sublist {l' : Lifecycle} (h : l.Free owner) (left : l'.attachments.Sublist l.attachments) :
    l'.Free owner := fun k hk => h k ((left.map _).subset hk)

/-- Nothing comes to be attached to it but by attaching. -/
theorem Free.perform {d : Deed} (h : l.Free owner) (other : ∀ typeName, d ≠ .event (.attach owner typeName)) :
    (l.perform d).Free owner := by
  cases d with
  | event e =>
    cases e with
    | attach someone typeName =>
      refine free_iff.mpr fun a ha => ?_
      -- The new attachment is on another entity.
      rcases mem_attach ha with ha | rfl
      · exact free_iff.mp h a ha
      · rintro rfl
        exact other typeName rfl
    | detach s someone typeName => exact h.of_sublist (sublist_detach l s someone typeName)
    | detachEntity s someone =>
      refine h.of_sublist ?_
      show (l.detachEntity s someone).2.1.attachments.Sublist _
      rw [detachEntity_attachments]
      exact List.filter_sublist
    | operate s op => exact fun k hk => h k ((congrArg (k ∈ ·) (keys_operate l s op)).mp hk)
  | putFields someone typeName fields =>
    exact fun k hk => h k ((congrArg (k ∈ ·) (keys_putFields l someone typeName fields)).mp hk)
  | takeErrors => exact h

theorem Free.run {deeds : List Deed} (h : l.Free owner)
    (others : ∀ d ∈ deeds, ∀ typeName, d ≠ .event (.attach owner typeName)) : (l.run deeds).Free owner := by
  induction deeds generalizing l with
  | nil => exact h
  | cons d deeds ih =>
    obtain ⟨first, others⟩ := List.forall_mem_cons.mp others
    exact ih (h.perform first) others

/-- There is nothing to detach, and so nothing happens. -/
theorem Free.detach (h : l.Free owner) (s : Surroundings) (typeName : String) :
    l.detach s owner typeName = (false, l, .empty) := by
  have missing : l.find? owner typeName = none := by
    rw [← Option.not_isSome_iff_eq_none, find?_isSome_iff]
    exact fun there => h _ there rfl
  rw [Lifecycle.detach, missing]

/-! ## 3. Attachments in order -/

/-- The attachments are distinct, and each of them is whole. -/
structure Whole (l : Lifecycle) : Prop where
  distinct : l.keys.Nodup
  attachments : ∀ a ∈ l.attachments, a.Whole

theorem whole_create (settings : ReloadSettings) : (create settings).Whole :=
  ⟨List.nodup_nil, List.forall_mem_nil _⟩

theorem Whole.of_sublist {l' : Lifecycle} (h : l.Whole) (left : l'.attachments.Sublist l.attachments) : l'.Whole :=
  ⟨h.distinct.sublist (left.map _), fun a ha => h.attachments a (left.subset ha)⟩

/-- A round spoils no attachment, so several rounds do not; and all their calls go to instances of the entities they
    are on. -/
theorem whole_through {as : List Attachment} (rounds : List Round) (whole : ∀ a ∈ as, a.Whole) :
    (∀ a ∈ (Round.through as rounds).1, a.Whole) ∧ ∀ d ∈ (Round.through as rounds).2, d.Owned := by
  induction rounds generalizing as with
  | nil => exact ⟨whole, List.forall_mem_nil _⟩
  | cons round rounds ih =>
    -- What the first round leaves is in order again, so the others start as it did.
    have once : ∀ b ∈ as.map fun a => (round.act a).1, b.Whole := by
      intro b hb
      obtain ⟨a, ha, rfl⟩ := List.mem_map.mp hb
      exact round.whole a (whole a ha)
    obtain ⟨later, owned⟩ := ih once
    refine ⟨later, List.forall_mem_append.mpr ⟨fun d hd => ?_, owned⟩⟩
    obtain ⟨a, ha, there⟩ := List.mem_flatMap.mp hd
    exact round.owned a (whole a ha) d there

theorem Whole.undergo (h : l.Whole) (e : Event) : (l.undergo e).1.Whole := by
  cases e with
  | attach owner typeName =>
    refine ⟨nodup_attach h.distinct, fun a ha => ?_⟩
    rcases mem_attach ha with ha | rfl
    · exact h.attachments a ha
    · exact Attachment.whole_create owner typeName
  | detach s owner typeName => exact h.of_sublist (sublist_detach l s owner typeName)
  | detachEntity s owner =>
    refine h.of_sublist ?_
    show (l.detachEntity s owner).2.1.attachments.Sublist _
    rw [detachEntity_attachments]
    exact List.filter_sublist
  | operate s op =>
    obtain ⟨whole, -⟩ := whole_through (op.rounds s l.callDestroy) h.attachments
    rw [← operate_attachments] at whole
    exact ⟨(congrArg List.Nodup (keys_operate l s op)).mpr h.distinct, whole⟩

theorem Whole.owned_calls (h : l.Whole) (e : Event) : ∀ d ∈ l.calls e, d.Owned := by
  cases e with
  | attach owner typeName => exact List.forall_mem_nil _
  | detach s owner typeName =>
    intro d hd
    obtain ⟨a, ha, there⟩ := List.mem_flatMap.mp hd
    exact (h.attachments a (List.mem_of_find?_eq_some (Option.mem_toList.mp ha))).owned_calls s .destroy d there
  | detachEntity s owner =>
    intro d hd
    obtain ⟨a, ha, there⟩ := List.mem_flatMap.mp hd
    exact (h.attachments a (List.mem_of_mem_filter ha)).owned_calls s .destroy d there
  | operate s op => exact (whole_through (op.rounds s l.callDestroy) h.attachments).2

theorem whole_withFields {a : Attachment} (h : a.Whole) (fields : Entries Value) : (withFields fields a).Whole where
  holds_iff := by
    rw [withFields, Option.isSome_map]
    exact h.holds_iff
  owned i hi := by
    obtain ⟨j, hj, rfl⟩ := Option.map_eq_some_iff.mp hi
    exact h.owned j hj

theorem Whole.perform (h : l.Whole) (d : Deed) : (l.perform d).Whole := by
  cases d with
  | event e => exact h.undergo e
  | putFields owner typeName fields =>
    refine ⟨(congrArg List.Nodup (keys_putFields l owner typeName fields)).mpr h.distinct, fun b hb => ?_⟩
    obtain ⟨a, ha, rfl⟩ := List.mem_map.mp hb
    dsimp only
    split
    · exact whole_withFields (h.attachments a ha) fields
    · exact h.attachments a ha
  | takeErrors => exact ⟨h.distinct, h.attachments⟩

theorem Whole.run (h : l.Whole) (deeds : List Deed) : (l.run deeds).Whole := by
  induction deeds generalizing l with
  | nil => exact h
  | cons d deeds ih => exact ih (h.perform d)

theorem whole_run (settings : ReloadSettings) (deeds : List Deed) : ((create settings).run deeds).Whole :=
  (whole_create settings).run deeds

theorem runCalls_owned (whole : l.Whole) (deeds : List Deed) : ∀ d ∈ l.runCalls deeds, d.Owned := by
  induction deeds generalizing l with
  | nil => exact List.forall_mem_nil _
  | cons d deeds ih =>
    refine List.forall_mem_append.mpr ⟨?_, ih (whole.perform d)⟩
    cases d with
    | event e => exact whole.owned_calls e
    | putFields owner typeName fields => exact List.forall_mem_nil _
    | takeErrors => exact List.forall_mem_nil _

end Lifecycle

end ScriptHost
