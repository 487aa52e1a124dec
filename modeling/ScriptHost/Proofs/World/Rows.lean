import Mathlib.Data.List.Nodup
import ScriptHost.World.Basic

/-!
# Rows — the things of a world and their entities

An index is in use, or free to be used again in its next generation, or has never been used.  So a world that comes
about from an empty one never has two rows of one entity, however things come and go.
-/

namespace ScriptHost.World

variable {w w' : World} {e : Entity} {t : Thing}

/-! ## 1. Distinct rows -/

/-- Different rows are of different entities. -/
def Distinct (w : World) : Prop := (w.rows.map Thing.entity).Nodup

theorem find?_eq_some_iff (distinct : w.Distinct) : w.find? e = some t ↔ t ∈ w.rows ∧ t.entity = e := by
  constructor
  · exact fun found => ⟨List.mem_of_find?_eq_some found, by simpa using List.find?_some found⟩
  · rintro ⟨mem, rfl⟩
    obtain ⟨u, found⟩ := Option.isSome_iff_exists.mp
      (List.find?_isSome (p := (·.entity == t.entity)) |>.mpr ⟨t, mem, beq_self_eq_true _⟩)
    have same : u.entity = t.entity := by simpa using List.find?_some found
    rw [List.inj_on_of_nodup_map distinct mem (List.mem_of_find?_eq_some found) same.symm]
    exact same ▸ found

theorem find?_eq_none_iff : w.find? e = none ↔ ∀ t ∈ w.rows, t.entity ≠ e := by
  simp [find?]

/-- Nothing happens to the things of other entities. -/
theorem map_of_others {ts : List Thing} (others : ∀ t ∈ ts, t.entity ≠ e) (f : Thing → Thing) :
    ts.map (fun t => if t.entity == e then f t else t) = ts :=
  (List.map_congr_left fun t ht => if_neg (by simpa using others t ht)).trans (List.map_id' ts)

/-! ## 2. A row that goes -/

/-- In front of a thing and behind it there are others. -/
theorem others_of_nodup {us vs : List Thing} (distinct : ((us ++ t :: vs).map Thing.entity).Nodup) :
    ∀ u ∈ us ++ vs, u.entity ≠ t.entity := by
  rw [List.map_append, List.map_cons] at distinct
  have fresh := (List.nodup_cons.mp (List.nodup_middle.mp distinct)).1
  rw [← List.map_append] at fresh
  exact fun u hu same => fresh (same ▸ List.mem_map_of_mem hu)

theorem filter_of_nodup {us vs : List Thing} (distinct : ((us ++ t :: vs).map Thing.entity).Nodup) :
    (us ++ t :: vs).filter (·.entity != t.entity) = us ++ vs := by
  rw [List.filter_append, List.filter_cons, bne_self_eq_false, if_neg Bool.false_ne_true, ← List.filter_append]
  exact List.filter_eq_self.mpr fun u hu => bne_iff_ne.mpr (others_of_nodup distinct u hu)

/-- The last row takes the place of the one that goes, and so no other is lost. -/
theorem withoutRow_perm {rows : List Thing} (distinct : (rows.map Thing.entity).Nodup) (mem : t ∈ rows) :
    (withoutRow rows t.entity).Perm (rows.filter (·.entity != t.entity)) := by
  obtain ⟨us, vs, rfl⟩ := List.append_of_mem mem
  have others := others_of_nodup distinct
  rw [filter_of_nodup distinct]
  rcases List.eq_nil_or_concat vs with rfl | ⟨vs, last, rfl⟩
  · -- The thing itself is in the last row.
    rw [withoutRow, List.getLast?_concat]
    simp
  · have other : last.entity ≠ t.entity := others last (by simp)
    have moved : withoutRow (us ++ t :: vs.concat last) t.entity = us ++ last :: vs := by
      rw [List.concat_eq_append, ← List.cons_append, ← List.append_assoc, withoutRow, List.getLast?_concat]
      dsimp only
      rw [List.dropLast_concat, if_neg (by simpa using other), List.map_append, List.map_cons,
        if_pos (beq_self_eq_true _), map_of_others (fun u hu => others u (by simp [hu])) fun _ => last,
        map_of_others (fun u hu => others u (by simp [hu])) fun _ => last]
    rw [moved, List.concat_eq_append]
    exact (List.perm_append_singleton last vs).symm.append_left us

/-! ## 3. Indices -/

/-- The indices that were ever used: those in use, and those that are free again. -/
def indices (w : World) : List Nat := w.rows.map (·.entity.index) ++ w.freed.map (·.index)

/-- No index is in use twice, or in use and free. -/
structure Sound (w : World) : Prop where
  once : w.indices.Nodup
  used : ∀ i ∈ w.indices, i < w.unused

theorem sound_empty : empty.Sound := ⟨List.nodup_nil, fun _ h => absurd h List.not_mem_nil⟩

theorem Sound.distinct (h : w.Sound) : w.Distinct := by
  have rows : (w.rows.map (·.entity.index)).Nodup := (List.nodup_append.mp h.once).1
  refine List.Nodup.of_map Entity.index ?_
  rw [List.map_map]
  exact rows

theorem Sound.of_perm (h : w.Sound) (indices : w'.indices.Perm w.indices) (unused : w'.unused = w.unused) :
    w'.Sound where
  once := indices.nodup_iff.mpr h.once
  used i hi := unused ▸ h.used i (indices.mem_iff.mp hi)

/-- A change that leaves the entities leaves the indices. -/
theorem Sound.map (h : w.Sound) {f : Thing → Thing} (keeps : ∀ t, (f t).entity = t.entity) :
    Sound { w with rows := w.rows.map f } := by
  refine h.of_perm (.of_eq ?_) rfl
  show (w.rows.map f).map (·.entity.index) ++ _ = _
  rw [List.map_map, indices]
  exact congrArg (· ++ _) (List.map_congr_left fun t _ => congrArg Entity.index (keeps t))

theorem Sound.change (h : w.Sound) (e : Entity) {f : Thing → Thing} (keeps : ∀ t, (f t).entity = t.entity) :
    (w.change e f).Sound := by
  refine h.map fun t => ?_
  split
  · exact keeps t
  · rfl

theorem Sound.spawn (h : w.Sound) (name : String) (translation : Vector) (behaviours : List String) :
    (w.spawn name translation behaviours).2.Sound := by
  unfold World.spawn allocate
  cases freed : w.freed with
  | nil =>
    -- The index that comes into use is greater than all before.
    have before : w.indices = w.rows.map (·.entity.index) := by rw [indices, freed, List.map_nil, List.append_nil]
    refine ⟨?_, fun i hi => ?_⟩
    · show ((w.rows ++ [_]).map (fun t : Thing => t.entity.index) ++ []).Nodup
      rw [List.append_nil, List.map_append, ← before]
      refine h.once.append (List.nodup_singleton _) fun i hi new => ?_
      exact Nat.lt_irrefl _ (List.mem_singleton.mp new ▸ h.used i hi)
    · have there : i ∈ w.indices ++ [w.unused] := by
        rw [before]
        simpa [indices, freed, Entity.first] using hi
      show i < w.unused + 1
      rcases List.mem_append.mp there with old | new
      · exact Nat.lt_succ_of_lt (h.used i old)
      · exact List.mem_singleton.mp new ▸ Nat.lt_succ_self _
  | cons e es =>
    -- An index that was free comes into use, and that is all.
    refine h.of_perm ?_ rfl
    show ((w.rows ++ [_]).map (fun t : Thing => t.entity.index) ++ es.map (·.index)).Perm w.indices
    rw [indices, freed, List.map_append, List.append_assoc]
    exact .refl _

theorem Sound.despawn (h : w.Sound) (done : w.despawn e = some w') : w'.Sound := by
  obtain ⟨t, found, rfl⟩ := Option.map_eq_some_iff.mp done
  obtain ⟨mem, rfl⟩ := (find?_eq_some_iff h.distinct).mp found
  refine h.of_perm ?_ rfl
  show ((withoutRow w.rows t.entity).map (·.entity.index) ++ t.entity.index :: w.freed.map (·.index)).Perm w.indices
  refine List.perm_middle.trans ?_
  rw [indices, ← List.cons_append]
  refine List.Perm.append_right _ ?_
  -- The row that goes and the rows that are left are all there were.
  have rows : (t :: withoutRow w.rows t.entity).Perm w.rows := by
    obtain ⟨us, vs, split⟩ := List.append_of_mem mem
    refine ((withoutRow_perm h.distinct mem).cons t).trans ?_
    have distinct := h.distinct
    rw [Distinct, split] at distinct
    rw [split, filter_of_nodup distinct]
    exact List.perm_middle.symm
  exact rows.map (·.entity.index)

theorem Sound.apply {c : Command} (h : w.Sound) (done : w.apply c = some w') : w'.Sound := by
  unfold World.apply at done
  cases effect : c.effect with
  | setTranslation v =>
    rw [effect] at done
    obtain rfl := Option.some.inj done
    exact h.change c.entity fun _ => rfl
  | setRotation degrees =>
    rw [effect] at done
    obtain rfl := Option.some.inj done
    exact h.change c.entity fun _ => rfl
  | setVelocity v =>
    rw [effect] at done
    obtain rfl := Option.some.inj done
    exact h.change c.entity fun _ => rfl
  | despawn =>
    rw [effect] at done
    obtain rfl := Option.some.inj done
    cases gone : w.despawn c.entity with
    | none => exact h
    | some left => exact h.despawn gone
  | applyImpulse v =>
    rw [effect] at done
    cases done
  | playSound clip =>
    rw [effect] at done
    cases done

theorem Sound.applyAll (h : w.Sound) (cs : List Command) : (w.applyAll cs).2.Sound := by
  induction cs generalizing w with
  | nil => exact h
  | cons c cs ih =>
    rw [World.applyAll]
    cases done : w.apply c with
    | some left => exact ih (h.apply done)
    | none => exact ih h

/-! ## 4. Worlds that come about -/

/-- What happens to a world. -/
inductive Incident where
  | spawn (name : String) (translation : Vector) (behaviours : List String)
  | spawnAs (settings : EntitySettings)
  | despawn (e : Entity)
  | setBehaviours (e : Entity) (behaviours : List String)
  | advance (dt : Float32)
  | applyAll (cs : List Command)

/-- The world after an incident; a thing that is not there cannot be despawned. -/
def undergo (w : World) : Incident → World
  | .spawn name translation behaviours => (w.spawn name translation behaviours).2
  | .spawnAs settings => (w.spawnAs settings).2
  | .despawn e => (w.despawn e).getD w
  | .setBehaviours e behaviours => w.setBehaviours e behaviours
  | .advance dt => w.advance dt
  | .applyAll cs => (w.applyAll cs).2

theorem Sound.undergo (h : w.Sound) (incident : Incident) : (w.undergo incident).Sound := by
  cases incident with
  | spawn name translation behaviours => exact h.spawn name translation behaviours
  | spawnAs settings => exact h.spawn ..
  | despawn e =>
    show ((w.despawn e).getD w).Sound
    cases gone : w.despawn e with
    | none => exact h
    | some left => exact h.despawn gone
  | setBehaviours e behaviours => exact h.change e fun _ => rfl
  | advance dt =>
    refine h.map fun t => ?_
    split
    · rfl
    · rfl
  | applyAll cs => exact h.applyAll cs

/-- In a world that comes about different rows are of different entities. -/
theorem distinct_of_incidents (incidents : List Incident) : (incidents.foldl undergo empty).Distinct := by
  suffices sound : ∀ w : World, w.Sound → (incidents.foldl undergo w).Sound from (sound empty sound_empty).distinct
  induction incidents with
  | nil => exact fun w h => h
  | cons incident incidents ih => exact fun w h => ih _ (h.undergo incident)

end ScriptHost.World
