import ScriptHost.Proofs.World.Rows

/-!
# Commands — what a list of commands makes of a world

Commands for many things come in one queue, and one that removes a thing changes what those behind it find.  All of
them together come to this: the things that a command despawns are gone, and of each sort of command the last one
for a thing counts.  The invariant is that different rows are of different entities.
-/

namespace ScriptHost

/-! ## 1. What commands ask for -/

namespace Effect

def translation? : Effect → Option Vector
  | setTranslation v => some v
  | _ => none

/-- The rotation in radians. -/
def rotation? : Effect → Option Float32
  | setRotation degrees => some (degrees * World.radiansPerDegree)
  | _ => none

def velocity? : Effect → Option Vector
  | setVelocity v => some v
  | _ => none

/-- What the effect does to the thing that it is for, as long as that stays. -/
def act : Effect → Thing → Thing
  | setTranslation v, t => t.place fun p => { p with translation := v }
  | setRotation degrees, t => t.place fun p => { p with rotation := degrees * World.radiansPerDegree }
  | setVelocity v, t => t.drive v
  | _, t => t

/-- Impulses and sounds are for others than the world. -/
def isForOthers : Effect → Bool
  | applyImpulse _ | playSound _ => true
  | _ => false

def isDespawn : Effect → Bool
  | despawn => true
  | _ => false

theorem eq_despawn {f : Effect} (h : f.isDespawn = true) : f = .despawn := by
  cases f with
  | despawn => rfl
  | _ => exact absurd h Bool.false_ne_true

end Effect

namespace Command

variable {α : Type} {ask : Effect → Option α} {e : Entity}

/-- The last of the things of one sort that commands ask for an entity. -/
def last? (ask : Effect → Option α) (e : Entity) (cs : List Command) : Option α :=
  ((cs.filter (·.entity == e)).filterMap fun c => ask c.effect).getLast?

/-- Whether a command removes the entity. -/
def despawns (e : Entity) (c : Command) : Bool := c.entity == e && c.effect.isDespawn

theorem last?_append (cs ds : List Command) :
    last? ask e (cs ++ ds) = (last? ask e ds).or (last? ask e cs) := by
  simp only [last?, List.filter_append, List.filterMap_append, List.getLast?_append]

theorem last?_cons (c : Command) (cs : List Command) :
    last? ask e (c :: cs) = (last? ask e cs).or (last? ask e [c]) := last?_append [c] cs

theorem last?_single (c : Command) : last? ask e [c] = if c.entity == e then ask c.effect else none := by
  rw [last?, List.filter_cons]
  cases c.entity == e with
  | false => rfl
  | true =>
    cases asked : ask c.effect with
    | none => simp [asked]
    | some x => simp [asked]

theorem last?_of_others {cs : List Command} (others : ∀ c ∈ cs, c.entity ≠ e) : last? ask e cs = none := by
  have none : cs.filter (·.entity == e) = [] :=
    List.filter_eq_nil_iff.mpr fun c hc => by simpa using others c hc
  rw [last?, none]
  rfl

theorem despawns_iff {c : Command} : c.despawns e = true ↔ c = ⟨e, .despawn⟩ := by
  obtain ⟨entity, effect⟩ := c
  cases effect <;> simp [despawns, Effect.isDespawn]

theorem any_despawns_iff {cs : List Command} : cs.any (despawns e) = true ↔ ⟨e, .despawn⟩ ∈ cs := by
  simp only [List.any_eq_true, despawns_iff]
  exact ⟨fun ⟨c, mem, same⟩ => same ▸ mem, fun mem => ⟨_, mem, rfl⟩⟩

end Command

/-! ## 2. What becomes of a thing -/

namespace Thing

open Command (last?)

/-- A thing after commands: of each sort the last one that is for it counts, if it has what that is about. -/
def after (cs : List Command) (t : Thing) : Thing :=
  { t with
    placement? := t.placement?.map fun p =>
      { p with
        translation := (last? Effect.translation? t.entity cs).getD p.translation
        rotation := (last? Effect.rotation? t.entity cs).getD p.rotation }
    velocity? := t.velocity?.map fun v => (last? Effect.velocity? t.entity cs).getD v }

theorem after_entity (cs : List Command) (t : Thing) : (t.after cs).entity = t.entity := rfl

theorem after_of_asks {cs : List Command} {t : Thing} (translation : last? Effect.translation? t.entity cs = none)
    (rotation : last? Effect.rotation? t.entity cs = none) (velocity : last? Effect.velocity? t.entity cs = none) :
    t.after cs = t := by
  simp [after, translation, rotation, velocity]

theorem after_nil (t : Thing) : t.after [] = t := after_of_asks rfl rfl rfl

/-- One command alone does what its effect does, to the thing that it is for. -/
theorem after_single (c : Command) (t : Thing) : t.after [c] = if t.entity == c.entity then c.effect.act t else t := by
  by_cases same : c.entity = t.entity
  · rw [if_pos (beq_iff_eq.mpr same.symm)]
    cases effect : c.effect <;>
      simp [after, Command.last?_single, same, effect, Effect.act, Effect.translation?, Effect.rotation?,
        Effect.velocity?, place, drive]
  · rw [if_neg (by simpa using Ne.symm same)]
    exact after_of_asks (Command.last?_of_others (by simpa using same)) (Command.last?_of_others (by simpa using same))
      (Command.last?_of_others (by simpa using same))

/-- One command and then the others. -/
theorem after_cons (c : Command) (cs : List Command) (t : Thing) : t.after (c :: cs) = (t.after [c]).after cs := by
  simp only [after, Option.map_map, Function.comp_def, Command.last?_cons c cs, Option.getD_or]

theorem after_of_others {cs : List Command} {t : Thing} (others : ∀ c ∈ cs, c.entity ≠ t.entity) : t.after cs = t :=
  after_of_asks (Command.last?_of_others others) (Command.last?_of_others others) (Command.last?_of_others others)

end Thing

/-! ## 3. What becomes of a world -/

namespace World

variable {w : World} {e : Entity} {c : Command} {cs : List Command} {t u : Thing}

/-- The world after one command. -/
def obey (w : World) (c : Command) : World := (w.apply c).getD w

/-! ### One command -/

theorem change_of_absent (absent : w.find? e = none) (f : Thing → Thing) : w.change e f = w :=
  congrArg (World.mk · w.freed w.unused) (map_of_others (find?_eq_none_iff.mp absent) f)

/-- A command for an entity that is not there does nothing. -/
theorem obey_of_absent (absent : w.find? c.entity = none) : w.obey c = w := by
  unfold obey apply
  cases c.effect with
  | setTranslation v => exact change_of_absent absent _
  | setRotation degrees => exact change_of_absent absent _
  | setVelocity v => exact change_of_absent absent _
  | applyImpulse v => rfl
  | playSound clip => rfl
  | despawn =>
    show (w.despawn c.entity).getD w = w
    rw [despawn, absent]
    rfl

/-- A command that despawns nothing changes each thing apart. -/
theorem obey_of_lasting (lasting : c.effect.isDespawn = false) :
    w.obey c = { w with rows := w.rows.map (Thing.after [c]) } := by
  have one : w.obey c = w.change c.entity c.effect.act := by
    have idle : w.change c.entity id = w := congrArg (World.mk · w.freed w.unused) (by simp)
    unfold obey apply
    cases effect : c.effect with
    | setTranslation v => rfl
    | setRotation degrees => rfl
    | setVelocity v => rfl
    | applyImpulse v => exact idle.symm
    | playSound clip => exact idle.symm
    | despawn =>
      rw [effect] at lasting
      exact absurd lasting (by decide)
  rw [one]
  exact congrArg (World.mk · w.freed w.unused) (List.map_congr_left fun t _ => (Thing.after_single c t).symm)

/-- A thing is despawned where it is. -/
theorem obey_despawn (distinct : w.Distinct) (e : Entity) :
    (w.obey ⟨e, .despawn⟩).rows.Perm (w.rows.filter (·.entity != e)) := by
  show ((w.despawn e).getD w).rows.Perm _
  cases found : w.find? e with
  | none =>
    rw [despawn, found]
    have all : w.rows.filter (·.entity != e) = w.rows :=
      List.filter_eq_self.mpr fun t ht => bne_iff_ne.mpr (find?_eq_none_iff.mp found t ht)
    exact .of_eq all.symm
  | some t =>
    obtain ⟨mem, rfl⟩ := (find?_eq_some_iff distinct).mp found
    rw [despawn, found]
    exact withoutRow_perm distinct mem

/-- One command, whatever it is: what it despawns goes, and what stays is changed apart. -/
theorem rows_obey (distinct : w.Distinct) (c : Command) :
    (w.obey c).rows.Perm ((w.rows.filter fun t => !c.despawns t.entity).map (Thing.after [c])) := by
  cases lasting : c.effect.isDespawn with
  | false =>
    have all : (w.rows.filter fun t => !c.despawns t.entity) = w.rows :=
      List.filter_eq_self.mpr fun t _ => by rw [Command.despawns, lasting, Bool.and_false]; rfl
    rw [obey_of_lasting lasting, all]
  | true =>
    obtain ⟨e, effect⟩ := c
    obtain rfl : effect = .despawn := Effect.eq_despawn lasting
    have same : (w.rows.filter fun t => !Command.despawns t.entity ⟨e, .despawn⟩) =
        w.rows.filter (·.entity != e) :=
      List.filter_congr fun t _ => by simp [Command.despawns, Effect.isDespawn, bne, eq_comm]
    have idle (t : Thing) : t.after [⟨e, .despawn⟩] = t := by
      rw [Thing.after_single]
      exact ite_self t
    rw [same, show Thing.after [⟨e, .despawn⟩] = id from funext idle, List.map_id]
    exact obey_despawn distinct e

theorem Distinct.obey (distinct : w.Distinct) (c : Command) : (w.obey c).Distinct := by
  have entities := (rows_obey distinct c).map Thing.entity
  rw [List.map_map, show Thing.entity ∘ Thing.after [c] = Thing.entity from rfl] at entities
  exact entities.nodup_iff.mpr (distinct.sublist (List.filter_sublist.map _))

theorem unused_obey (w : World) (c : Command) : (w.obey c).unused = w.unused := by
  cases lasting : c.effect.isDespawn with
  | false => rw [obey_of_lasting lasting]
  | true =>
    obtain ⟨e, effect⟩ := c
    obtain rfl : effect = .despawn := Effect.eq_despawn lasting
    show ((w.despawn e).getD w).unused = w.unused
    unfold despawn
    cases w.find? e <;> rfl

/-! ### Many commands -/

/-- The commands in order on the world, and apart from it those that are for others. -/
theorem applyAll_eq (w : World) (cs : List Command) :
    w.applyAll cs = (cs.filter (·.effect.isForOthers), cs.foldl obey w) := by
  induction cs generalizing w with
  | nil => rfl
  | cons c cs ih =>
    have cases : (c.effect.isForOthers = true ∧ w.apply c = none) ∨
        (c.effect.isForOthers = false ∧ ∃ v, w.apply c = some v) := by
      unfold apply
      cases c.effect <;> simp [Effect.isForOthers]
    rw [applyAll, List.filter_cons, List.foldl_cons, obey]
    rcases cases with ⟨others, kept⟩ | ⟨own, v, done⟩
    · rw [others, kept, ih]
      rfl
    · rw [own, done]
      exact ih v

theorem rows_foldl (distinct : w.Distinct) (cs : List Command) :
    (cs.foldl obey w).rows.Perm
      ((w.rows.filter fun t => !cs.any (Command.despawns t.entity)).map (Thing.after cs)) := by
  induction cs generalizing w with
  | nil =>
    rw [show Thing.after [] = id from funext Thing.after_nil, List.map_id]
    exact .of_eq (List.filter_eq_self.mpr fun _ _ => rfl).symm
  | cons c cs ih =>
    refine (ih (distinct.obey c)).trans (((rows_obey distinct c).filter _).map _ |>.trans (.of_eq ?_))
    -- What the first command leaves keeps its entity, so the others despawn the same.
    rw [List.filter_map, List.filter_filter, List.map_map]
    refine congrArg₂ List.map (funext fun t => (Thing.after_cons c cs t).symm) (List.filter_congr fun t _ => ?_)
    rw [List.any_cons, Bool.not_or, Bool.and_comm]
    rfl

theorem Distinct.foldl (distinct : w.Distinct) (cs : List Command) : (cs.foldl World.obey w).Distinct := by
  induction cs generalizing w with
  | nil => exact distinct
  | cons c cs ih => exact ih (distinct.obey c)

theorem unused_foldl (w : World) (cs : List Command) : (cs.foldl obey w).unused = w.unused := by
  induction cs generalizing w with
  | nil => rfl
  | cons c cs ih => exact (ih _).trans (unused_obey w c)

/-- What is found afterwards. -/
theorem find?_foldl (distinct : w.Distinct) (cs : List Command) (e : Entity) :
    (cs.foldl obey w).find? e =
      if cs.any (Command.despawns e) then none else (w.find? e).map (Thing.after cs) := by
  refine Option.ext fun u => ?_
  rw [find?_eq_some_iff (distinct.foldl cs), (rows_foldl distinct cs).mem_iff, List.mem_map]
  constructor
  · rintro ⟨⟨t, mem, rfl⟩, rfl⟩
    obtain ⟨mem, stays⟩ := List.mem_filter.mp mem
    rw [Thing.after_entity, if_neg (by simpa using stays), (find?_eq_some_iff distinct).mpr ⟨mem, rfl⟩]
    rfl
  · intro found
    split at found
    · exact absurd found nofun
    · next stays =>
      obtain ⟨t, there, rfl⟩ := Option.map_eq_some_iff.mp found
      obtain ⟨mem, rfl⟩ := (find?_eq_some_iff distinct).mp there
      exact ⟨⟨t, List.mem_filter.mpr ⟨mem, by simpa using stays⟩, rfl⟩, rfl⟩

/-- What is not there stays away, and no command for it does anything. -/
theorem foldl_of_absent (distinct : w.Distinct) (absent : w.find? e = none) (cs : List Command) :
    cs.foldl obey w = (cs.filter (·.entity != e)).foldl obey w := by
  induction cs generalizing w with
  | nil => rfl
  | cons c cs ih =>
    by_cases same : c.entity = e
    · rw [List.foldl_cons, obey_of_absent (same ▸ absent), List.filter_cons, if_neg (by simpa using same)]
      exact ih distinct absent
    · have away : (w.obey c).find? e = none := by
        show ([c].foldl obey w).find? e = none
        rw [find?_foldl distinct, absent]
        exact ite_self _
      rw [List.filter_cons, if_pos (by simpa using same)]
      exact ih (distinct.obey c) away

/-- What commands make of a world. -/
structure Applied (w : World) (cs : List Command) (r : List Command × World) : Prop where
  /-- Impulses and sounds come back in their order, whatever has become of the things they are for. -/
  left : r.1 = cs.filter (·.effect.isForOthers)
  /-- Things go that are despawned, and none comes. -/
  isSome_iff : ∀ e, (r.2.find? e).isSome ↔ (w.find? e).isSome ∧ ⟨e, .despawn⟩ ∉ cs
  /-- What stays has what the last command of each sort gives it, and all else that it had. -/
  stays : ∀ e t, w.find? e = some t → ⟨e, .despawn⟩ ∉ cs → r.2.find? e = some (t.after cs)
  /-- What no command is for is as it was. -/
  others : ∀ e, (∀ c ∈ cs, c.entity ≠ e) → r.2.find? e = w.find? e
  /-- There is nothing else in the world. -/
  rows : r.2.rows.Perm ((w.rows.filter fun t => !cs.any (Command.despawns t.entity)).map (Thing.after cs))
  unused : r.2.unused = w.unused
  /-- What is for an entity behind its end could as well not be there. -/
  silent : ∀ before e later, cs = before ++ ⟨e, .despawn⟩ :: later →
    r.2 = (w.applyAll (before ++ ⟨e, .despawn⟩ :: later.filter (·.entity != e))).2
  /-- The commands can come in two parts. -/
  cut : ∀ before later, cs = before ++ later →
    r = ((w.applyAll before).1 ++ ((w.applyAll before).2.applyAll later).1,
      ((w.applyAll before).2.applyAll later).2)

/-- Commands act in their order, the last one of each sort counts for each thing, what is despawned goes, and
    nothing is lost of what is for others. -/
theorem commands_applied (cs : List Command) (distinct : w.Distinct) : Applied w cs (w.applyAll cs) := by
  have find (e : Entity) : (w.applyAll cs).2.find? e =
      if cs.any (Command.despawns e) then none else (w.find? e).map (Thing.after cs) := by
    rw [applyAll_eq]
    exact find?_foldl distinct cs e
  refine
    { left := congrArg Prod.fst (applyAll_eq w cs)
      isSome_iff := fun e => ?_
      stays := fun e t there stays => ?_
      others := fun e others => ?_
      rows := ?_
      unused := ?_
      silent := fun before e later split => ?_
      cut := fun before later split => split ▸ applyAll_append w before later }
  · rw [find e, ← Command.any_despawns_iff]
    cases cs.any (Command.despawns e) <;> simp
  · rw [← Command.any_despawns_iff] at stays
    rw [find e, if_neg stays, there]
    rfl
  · have stays : ¬ cs.any (Command.despawns e) = true :=
      fun ends => others _ (Command.any_despawns_iff.mp ends) rfl
    rw [find e, if_neg stays]
    cases there : w.find? e with
    | none => rfl
    | some t =>
      obtain ⟨-, rfl⟩ := (find?_eq_some_iff distinct).mp there
      exact congrArg some (Thing.after_of_others others)
  · rw [applyAll_eq]
    exact rows_foldl distinct cs
  · rw [applyAll_eq]
    exact unused_foldl w cs
  · subst split
    simp only [applyAll_eq, List.foldl_append, List.foldl_cons]
    -- Behind its end the entity is not there.
    refine foldl_of_absent ((distinct.foldl before).obey _) ?_ later
    show ([⟨e, .despawn⟩].foldl obey (before.foldl obey w)).find? e = none
    rw [find?_foldl (distinct.foldl before)]
    exact if_pos (Command.any_despawns_iff.mpr List.mem_cons_self)

/-- A lamp of the second generation, and a wall that never moves. -/
def furnished : World :=
  ⟨[⟨⟨0, 2⟩, "lamp", some (.start [0, 0]), some [0, 0], []⟩, ⟨⟨1, 1⟩, "wall", some (.start [1, 0]), none, []⟩], [], 2⟩

/-- The wall goes while there is more to come for it, and the lamp of the first generation has long been gone. -/
def orders : List Command :=
  [⟨⟨0, 2⟩, .setVelocity [1, 0]⟩, ⟨⟨0, 1⟩, .despawn⟩, ⟨⟨1, 1⟩, .setVelocity [3, 0]⟩, ⟨⟨1, 1⟩, .despawn⟩,
    ⟨⟨1, 1⟩, .playSound "thud"⟩, ⟨⟨1, 1⟩, .setTranslation [9, 9]⟩, ⟨⟨0, 2⟩, .setVelocity [2, 0]⟩]

theorem orders_applied :
    furnished.Distinct ∧ Applied furnished orders (furnished.applyAll orders) ∧
      (furnished.applyAll orders).2.rows.map (·.name) = ["lamp"] := by
  have distinct : furnished.Distinct := by unfold Distinct; decide
  exact ⟨distinct, commands_applied orders distinct, by decide +kernel⟩

end World

end ScriptHost
