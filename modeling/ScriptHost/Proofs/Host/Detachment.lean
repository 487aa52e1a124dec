import ScriptHost.Proofs.Host.Sync
import ScriptHost.Proofs.Lifecycle.Detachment

/-!
# Detachment — an entity that goes, as its host sees it

A host queues the commands and logs of each detachment behind those it has.  So it does not see either whether the
attachments of an entity go at once or type by type.
-/

namespace ScriptHost.Host

/-- Detaching types one after the other is done by the lifecycle, and what is left behind is queued. -/
theorem countEach_detach (h : Host) (e : Entity) (types : List String) :
    countEach detach h (types.map (Binding.mk e)) =
      ((h.lifecycle.detachEach h.surroundings e types).1,
        h.after (h.lifecycle.detachEach h.surroundings e types).2) := by
  induction types generalizing h with
  | nil => exact Prod.ext rfl (after_empty h h.lifecycle).symm
  | cons typeName types ih =>
    obtain ⟨first, second⟩ := Prod.ext_iff.mp (ih (h.detach e typeName).2)
    refine Prod.ext (congrArg (_ + ·) first) (second.trans ?_)
    exact after_after ..

theorem bindings_filter (h : Host) (e : Entity) :
    h.bindings.filter (·.entity == e) = (h.lifecycle.typesOn e).map (Binding.mk e) := by
  rw [bindings, List.filter_map, Lifecycle.typesOn, List.map_map]
  refine List.map_congr_left fun a ha => ?_
  have mine : a.owner = e := beq_iff_eq.mp (List.mem_filter.mp ha).2
  rw [mine]
  rfl

/-- Detaching an entity is detaching its types one by one, for the lifecycle and for the host. -/
theorem detaching_is_one_by_one (l : Lifecycle) (s : Surroundings) (e : Entity) :
    l.Detaches s e ∧ ∀ h : Host, h.detachEntity e = countEach detach h (h.bindings.filter (·.entity == e)) := by
  refine ⟨l.detaches s e, fun h => ?_⟩
  rw [bindings_filter, countEach_detach, (h.lifecycle.detaches h.surroundings e).oneByOne]
  rfl

end ScriptHost.Host
