import Mathlib.Data.Finset.Card
import ScriptHost.Proofs.Host.Run
import ScriptHost.Proofs.Lifecycle.Detachment

/-!
# Sync — one step brings the attachments in line with the world

A sync detaches what nothing asks for and attaches what is missing, one after the other, while the table changes
under its hands.  Since attachments are distinct, each detachment takes away its own attachment and no other, and a
name that is repeated is attached the first time only.  So what comes of it can be told at once from the table before
and from the world, and a second sync finds nothing to do.
-/

namespace ScriptHost

/-! ## 1. Bindings -/

theorem World.mem_bindings {w : World} {b : Binding} :
    b ∈ w.bindings ↔ ∃ t ∈ w.rows, t.entity = b.entity ∧ b.typeName ∈ t.behaviours := by
  simp only [bindings, List.mem_flatMap, List.mem_map]
  constructor
  · rintro ⟨t, ht, name, hname, rfl⟩
    exact ⟨t, ht, rfl, hname⟩
  · rintro ⟨t, ht, same, hname⟩
    exact ⟨t, ht, b.typeName, hname, by rw [same]⟩

/-- What an attachment is known by. -/
def Attachment.binding (a : Attachment) : Binding := ⟨a.owner, a.typeName⟩

theorem Attachment.isFor_iff {a : Attachment} {b : Binding} :
    a.isFor b.entity b.typeName = true ↔ a.binding = b := by
  obtain ⟨entity, typeName⟩ := b
  simp [isFor, binding]

/-- Each is kept once. -/
theorem nodup_eraseDups (bs : List Binding) : bs.eraseDups.Nodup := by
  match bs with
  | [] => exact List.nodup_nil
  | b :: bs =>
    rw [List.eraseDups_cons]
    refine List.nodup_cons.mpr ⟨fun again => ?_, nodup_eraseDups _⟩
    have other := (List.mem_filter.mp (List.mem_eraseDups.mp again)).2
    simp at other
termination_by bs.length
decreasing_by exact Nat.lt_succ_of_le (List.length_filter_le _ _)

/-! ## 2. One after the other -/

namespace Lifecycle

variable {l : Lifecycle} {s : Surroundings}

def bindings (l : Lifecycle) : List Binding := l.attachments.map Attachment.binding

theorem keys_of_bindings (distinct : l.bindings.Nodup) : l.keys.Nodup := by
  have same : l.bindings = l.keys.map fun k => ⟨k.1, k.2⟩ := by
    rw [keys, List.map_map]
    rfl
  exact List.Nodup.of_map _ (same ▸ distinct)

/-! ### Detaching -/

/-- Among distinct attachments one that is there is found, and no other goes with it. -/
theorem undergo_detach (distinct : l.bindings.Nodup) {a : Attachment} (mem : a ∈ l.attachments) :
    l.undergo (.detach s a.owner a.typeName) =
        l.settle (l.attachments.filter (·.binding != a.binding)) (Delivery.traces (a.calls s .destroy)) ∧
      l.calls (.detach s a.owner a.typeName) = a.calls s .destroy := by
  have found := find?_of_mem (keys_of_bindings distinct) mem
  have isFor : (fun b : Attachment => b.isFor a.owner a.typeName) = (·.binding == a.binding) :=
    funext fun b => Bool.eq_iff_iff.mpr ((Attachment.isFor_iff (b := a.binding)).trans beq_iff_eq.symm)
  have left : l.attachments.eraseP (·.isFor a.owner a.typeName) = l.attachments.filter (·.binding != a.binding) := by
    rw [isFor]
    exact eraseP_eq_filter_of_nodup Attachment.binding distinct a.binding
  rw [undergo, detach, calls, found, left, ← Attachment.deliver_told, Option.toList_some, List.flatMap_singleton]
  exact ⟨rfl, rfl⟩

/-- Detaching one after the other takes away those and no others, and calls the instances of those. -/
theorem history_detach (gone : List Attachment) (distinct : l.bindings.Nodup) (there : ∀ a ∈ gone, a ∈ l.attachments)
    (once : (gone.map Attachment.binding).Nodup) :
    let events : List Event := gone.map fun a => .detach s a.owner a.typeName
    l.history events =
        l.settle (l.attachments.filter fun a => !(gone.map Attachment.binding).contains a.binding)
          (Delivery.traces (gone.flatMap (·.calls s .destroy))) ∧
      l.historyCalls events = gone.flatMap (·.calls s .destroy) := by
  -- On what is to go, for every lifecycle: each detachment leaves fewer attachments behind.
  induction gone generalizing l with
  | nil => exact ⟨(settle_self (List.filter_eq_self.mpr fun _ _ => rfl).symm).symm, rfl⟩
  | cons a gone ih =>
    obtain ⟨fresh, once⟩ := List.nodup_cons.mp once
    obtain ⟨mem, there⟩ := List.forall_mem_cons.mp there
    obtain ⟨first, calls⟩ := undergo_detach (s := s) distinct mem
    have left : ∀ b ∈ gone, b ∈ l.attachments.filter (·.binding != a.binding) := fun b hb =>
      List.mem_filter.mpr ⟨there b hb, bne_iff_ne.mpr fun same => fresh (List.mem_map.mpr ⟨b, hb, same⟩)⟩
    obtain ⟨rest, others⟩ :=
      ih (l := (l.settle (l.attachments.filter (·.binding != a.binding)) (Delivery.traces (a.calls s .destroy))).1)
        (distinct.sublist (List.filter_sublist.map _)) left once
    have both (b : Attachment) :
        (!(gone.map Attachment.binding).contains b.binding && b.binding != a.binding) =
          !((a :: gone).map Attachment.binding).contains b.binding := by
      rw [List.map_cons, List.contains_cons, Bool.not_or, Bool.and_comm]
      rfl
    have kept : (l.attachments.filter (·.binding != a.binding)).filter
        (fun b => !(gone.map Attachment.binding).contains b.binding) =
          l.attachments.filter fun b => !((a :: gone).map Attachment.binding).contains b.binding := by
      simp only [List.filter_filter, both]
    dsimp only at rest others ⊢
    rw [List.map_cons, history, historyCalls, first, calls, rest, others, List.flatMap_cons, Delivery.traces_append]
    refine ⟨Prod.ext ?_ rfl, rfl⟩
    exact (settle_settle ..).trans (congrArg (fun as => (l.settle as _).1) kept)

/-! ### Attaching -/

/-- The lifecycle with attachments that wait, behind those there are. -/
def withMade (l : Lifecycle) (bs : List Binding) : Lifecycle :=
  { l with attachments := l.attachments ++ bs.map fun b => .create b.entity b.typeName }

theorem withMade_withMade (bs ds : List Binding) : (l.withMade bs).withMade ds = l.withMade (bs ++ ds) := by
  simp only [withMade, List.map_append, List.append_assoc]

theorem bindings_withMade (bs : List Binding) : (l.withMade bs).bindings = l.bindings ++ bs := by
  have made : (bs.map fun b => Attachment.create b.entity b.typeName).map Attachment.binding = bs := by
    rw [List.map_map]
    exact List.map_id _
  simp only [bindings, withMade, List.map_append, made]

theorem attach_eq (b : Binding) :
    (l.attach b.entity b.typeName).2 = if l.bindings.contains b then l else l.withMade [b] := by
  have found : (l.find? b.entity b.typeName).isSome = l.bindings.contains b := by
    refine Bool.eq_iff_iff.mpr (List.find?_isSome.trans (Iff.trans ?_ List.contains_iff_mem.symm))
    simp only [Attachment.isFor_iff, bindings, List.mem_map]
  rw [attach, found]
  split <;> rfl

/-- Attaching one after the other makes each that is missing, the first time that it is named, and calls nothing. -/
theorem history_attach (bs : List Binding) :
    let events : List Event := bs.map fun b => .attach b.entity b.typeName
    l.history events = (l.withMade (bs.filter (!l.bindings.contains ·)).eraseDups, .empty) ∧
      l.historyCalls events = [] := by
  -- On the bindings: one that was attached just now is there when its name comes again.
  induction bs generalizing l with
  | nil => exact ⟨congrArg (·, Trace.empty) (congrArg (Lifecycle.mk · _ _) (List.append_nil _).symm), rfl⟩
  | cons b bs ih =>
    have first : l.undergo (.attach b.entity b.typeName) =
        (if l.bindings.contains b then l else l.withMade [b], .empty) := congrArg (·, Trace.empty) (attach_eq b)
    dsimp only
    rw [List.map_cons, history, historyCalls, first]
    cases there : l.bindings.contains b with
    | true =>
      rw [if_pos rfl, (ih (l := l)).1, (ih (l := l)).2, List.filter_cons_of_neg (by rw [there]; decide)]
      exact ⟨rfl, rfl⟩
    | false =>
      have later (d : Binding) : (!(l.bindings ++ [b]).contains d) = (!d == b && !l.bindings.contains d) := by
        rw [List.contains_append, Bool.not_or, Bool.and_comm, List.contains_cons, List.contains_nil, Bool.or_false]
      rw [if_neg Bool.false_ne_true, (ih (l := l.withMade [b])).1, (ih (l := l.withMade [b])).2,
        List.filter_cons_of_pos (by rw [there]; decide), List.eraseDups_cons, List.filter_filter, bindings_withMade,
        withMade_withMade]
      simp only [later]
      exact ⟨rfl, rfl⟩

end Lifecycle

/-! ## 3. A sync as events -/

namespace Host

variable {h : Host} {w : World}

theorem after_after (h : Host) (l l' : Lifecycle) (t t' : Trace) :
    (h.after (l, t)).after (l', t') = h.after (l', t ++ t') := by
  simp only [after, absorb, Trace.append_def, List.append_assoc]

theorem after_empty (h : Host) (l : Lifecycle) : h.after (l, .empty) = { h with lifecycle := l } := by
  simp only [after, absorb, Trace.empty, List.append_nil]

/-- Steps that are events of the lifecycle come to what the lifecycle undergoes. -/
theorem countEach_eq {step : Host → Entity → String → Bool × Host} (event : Surroundings → Entity → String → Event)
    (one : ∀ h e typeName, (step h e typeName).2 = h.after (h.lifecycle.undergo (event h.surroundings e typeName)))
    (h : Host) (bs : List Binding) :
    (countEach step h bs).2 =
      h.after (h.lifecycle.history (bs.map fun b => event h.surroundings b.entity b.typeName)) := by
  induction bs generalizing h with
  | nil => exact (after_empty h h.lifecycle).symm
  | cons b bs ih =>
    show (countEach step (step h b.entity b.typeName).2 bs).2 = _
    rw [ih, one]
    exact after_after ..

theorem attach_undergoes (h : Host) (e : Entity) (typeName : String) :
    (h.attach e typeName).2 = h.after (h.lifecycle.undergo (.attach e typeName)) := (after_empty ..).symm

theorem detach_undergoes (h : Host) (e : Entity) (typeName : String) :
    (h.detach e typeName).2 = h.after (h.lifecycle.undergo (.detach h.surroundings e typeName)) := rfl

/-- Whether the world asks for the attachment. -/
def asked (w : World) (a : Attachment) : Bool := w.bindings.contains a.binding

/-- The attachments that a sync removes, in the order in which they go. -/
def removed (h : Host) (w : World) : List Attachment :=
  (h.lifecycle.attachments.filter (!asked w ·)).mergeSort fun a b => Binding.le a.binding b.binding

/-- What the world asks for that is not there, in the order in which it is named first. -/
def missing (h : Host) (w : World) : List Binding := (w.bindings.filter (!h.bindings.contains ·)).eraseDups

/-- What happens to the lifecycle in a sync. -/
def syncEvents (h : Host) (w : World) : List Event :=
  ((h.removed w).map fun a => .detach h.surroundings a.owner a.typeName) ++
    (w.bindings.filter (!h.bindings.contains ·)).map fun b => .attach b.entity b.typeName

theorem gone_eq (h : Host) (w : World) :
    (h.bindings.filter (!w.bindings.contains ·)).mergeSort Binding.le = (h.removed w).map Attachment.binding := by
  have gone : h.bindings.filter (!w.bindings.contains ·) =
      (h.lifecycle.attachments.filter (!asked w ·)).map Attachment.binding := List.filter_map ..
  rw [gone, removed]
  exact (List.map_mergeSort (f := Attachment.binding) fun _ _ _ _ => rfl).symm

/-- A sync is the history of its events. -/
theorem sync_eq (h : Host) (w : World) : (h.sync w).2 = h.after (h.lifecycle.history (h.syncEvents w)) := by
  have steps : (h.sync w).2 = (countEach attach (countEach detach h ((h.removed w).map Attachment.binding)).2
      (w.bindings.filter (!h.bindings.contains ·))).2 := by
    rw [← gone_eq]
    rfl
  rw [steps, countEach_eq (fun _ => .attach) attach_undergoes, countEach_eq .detach detach_undergoes, syncEvents,
    Lifecycle.history_append, List.map_map]
  exact after_after ..

/-! ## 4. What comes of a sync -/

theorem mem_removed {a : Attachment} :
    a ∈ h.removed w ↔ a ∈ h.lifecycle.attachments ∧ asked w a = false := by
  rw [removed, List.mem_mergeSort, List.mem_filter, Bool.not_eq_true']

theorem mem_missing {b : Binding} : b ∈ h.missing w ↔ b ∈ w.bindings ∧ b ∉ h.bindings := by
  rw [missing, List.mem_eraseDups, List.mem_filter, Bool.not_eq_true', List.contains_eq_mem, decide_eq_false_iff_not]

/-- The calls of a sync: one of `on_destroy` to the instance of each attachment that is removed, as it was. -/
def farewells (h : Host) (w : World) : List Delivery :=
  (h.removed w).filterMap fun a => a.running.map fun i => ⟨a.owner, a.typeName, ⟨h.surroundings, .destroy, i, a.state⟩⟩

theorem farewells_eq (h : Host) (w : World) :
    h.farewells w = (h.removed w).flatMap (·.calls h.surroundings .destroy) := by
  rw [farewells, List.filterMap_eq_flatMap_toList]
  simp only [Option.toList_map]
  rfl

theorem nodup_removed (distinct : h.bindings.Nodup) : ((h.removed w).map Attachment.binding).Nodup := by
  refine (((List.mergeSort_perm ..).map Attachment.binding).nodup_iff).mpr ?_
  exact distinct.sublist (List.filter_sublist.map _)

/-- What is not removed is what is asked for. -/
theorem filter_not_removed (h : Host) (w : World) :
    h.lifecycle.attachments.filter (fun a => !((h.removed w).map Attachment.binding).contains a.binding) =
      h.lifecycle.attachments.filter (asked w) := by
  refine List.filter_congr fun a ha => ?_
  have mem : a.binding ∈ (h.removed w).map Attachment.binding ↔ asked w a = false := by
    constructor
    · intro there
      obtain ⟨b, hb, same⟩ := List.mem_map.mp there
      have unasked := (mem_removed.mp hb).2
      rw [asked, same] at unasked
      exact unasked
    · exact fun unasked => List.mem_map.mpr ⟨a, mem_removed.mpr ⟨ha, unasked⟩, rfl⟩
  have goes : ((h.removed w).map Attachment.binding).contains a.binding = !asked w a := by
    rw [Bool.eq_iff_iff, List.contains_iff_mem, mem, Bool.not_eq_true']
  exact (congrArg Bool.not goes).trans (Bool.not_not _)

theorem history_removed (distinct : h.bindings.Nodup) :
    let events : List Event := (h.removed w).map fun a => .detach h.surroundings a.owner a.typeName
    h.lifecycle.history events =
        h.lifecycle.settle (h.lifecycle.attachments.filter (asked w)) (Delivery.traces (h.farewells w)) ∧
      h.lifecycle.historyCalls events = h.farewells w := by
  have history := Lifecycle.history_detach (s := h.surroundings) (h.removed w) (l := h.lifecycle) distinct
    (fun a ha => (mem_removed.mp ha).1) (nodup_removed distinct)
  rw [filter_not_removed, ← farewells_eq] at history
  exact history

/-- The attachments after a sync: those that stay, and then those that are made. -/
def synced (h : Host) (w : World) : List Attachment :=
  h.lifecycle.attachments.filter (asked w) ++ (h.missing w).map fun b => ⟨b.entity, b.typeName, .pending, none⟩

/-- What is left, and behind it what is missing. -/
theorem history_sync (distinct : h.bindings.Nodup) :
    h.lifecycle.history (h.syncEvents w) =
        h.lifecycle.settle (h.synced w) (Delivery.traces (h.farewells w)) ∧
      h.lifecycle.historyCalls (h.syncEvents w) = h.farewells w := by
  obtain ⟨removed, farewells⟩ := history_removed (w := w) distinct
  let cleared := (h.lifecycle.settle (h.lifecycle.attachments.filter (asked w)) (Delivery.traces (h.farewells w))).1
  have bindings : cleared.bindings = h.bindings.filter (w.bindings.contains ·) := by
    rw [Host.bindings, List.filter_map]
    rfl
  have missing : ((w.bindings.filter (!h.bindings.contains ·)).filter (!cleared.bindings.contains ·)) =
      w.bindings.filter (!h.bindings.contains ·) := by
    refine List.filter_eq_self.mpr fun b hb => ?_
    have absent := (List.mem_filter.mp hb).2
    rw [Bool.not_eq_true', List.contains_eq_mem, decide_eq_false_iff_not] at absent ⊢
    rw [bindings]
    exact fun there => absent (List.mem_filter.mp there).1
  obtain ⟨made, silent⟩ := Lifecycle.history_attach (l := cleared) (w.bindings.filter (!h.bindings.contains ·))
  rw [missing] at made
  rw [syncEvents, Lifecycle.history_append, Lifecycle.historyCalls_append, removed, farewells]
  show (_, _ ++ (cleared.history _).2) = _ ∧ _ ++ cleared.historyCalls _ = _
  rw [made, silent, Trace.append_empty, List.append_nil]
  exact ⟨rfl, rfl⟩

theorem sync_eq_settle (distinct : h.bindings.Nodup) :
    (h.sync w).2 = h.after (h.lifecycle.settle (h.synced w) (Delivery.traces (h.farewells w))) := by
  rw [sync_eq, (history_sync distinct).1]

/-- A binding is there after a sync exactly when the world asks for it. -/
theorem mem_bindings_sync (distinct : h.bindings.Nodup) {b : Binding} :
    b ∈ (h.sync w).2.bindings ↔ b ∈ w.bindings := by
  have bindings : (h.sync w).2.bindings = h.bindings.filter (w.bindings.contains ·) ++ h.missing w := by
    rw [sync_eq_settle distinct]
    show (h.synced w).map Attachment.binding = _
    rw [synced, List.map_append, List.map_map, Host.bindings, List.filter_map]
    exact congrArg (_ ++ ·) (List.map_id _)
  rw [bindings, List.mem_append, List.mem_filter, List.contains_iff_mem, mem_missing]
  by_cases there : b ∈ h.bindings
  · simp [there]
  · simp [there]

/-- Where the bindings are those that the world asks for, there is nothing to do. -/
theorem sync_of_same (same : ∀ b, b ∈ h.bindings ↔ b ∈ w.bindings) : h.sync w = (⟨0, 0⟩, h) := by
  have none {bs ds : List Binding} (sub : ∀ b ∈ bs, b ∈ ds) : bs.filter (!ds.contains ·) = [] := by
    refine List.filter_eq_nil_iff.mpr fun b hb => ?_
    rw [Bool.not_eq_true', Bool.not_eq_false, List.contains_iff_mem]
    exact sub b hb
  rw [sync, none fun b hb => (same b).mp hb, none fun b hb => (same b).mpr hb, List.mergeSort_nil]
  rfl

/-! ## 5. Counts -/

/-- Where each step that is counted makes the host larger by one, the count is what it grows by. -/
theorem countEach_count {step : Host → Entity → String → Bool × Host} (size : Host → Int)
    (one : ∀ h e typeName, size (step h e typeName).2 = size h + if (step h e typeName).1 then 1 else 0)
    (h : Host) (bs : List Binding) : size (countEach step h bs).2 = size h + (countEach step h bs).1 := by
  induction bs generalizing h with
  | nil => exact (Int.add_zero _).symm
  | cons b bs ih =>
    have first := one h b.entity b.typeName
    have rest := ih (step h b.entity b.typeName).2
    show size (countEach step (step h b.entity b.typeName).2 bs).2 =
      size h + ((if (step h b.entity b.typeName).1 then 1 else 0) + (countEach step _ bs).1 : Nat)
    rw [rest, first]
    split <;> omega

theorem length_attach (h : Host) (e : Entity) (typeName : String) :
    ((h.attach e typeName).2.lifecycle.attachments.length : Int) =
      h.lifecycle.attachments.length + if (h.attach e typeName).1 then 1 else 0 := by
  show ((h.lifecycle.attach e typeName).2.attachments.length : Int) =
    _ + if (h.lifecycle.attach e typeName).1 then 1 else 0
  unfold Lifecycle.attach
  split
  · exact (Int.add_zero _).symm
  · simp

theorem length_detach (h : Host) (e : Entity) (typeName : String) :
    -((h.detach e typeName).2.lifecycle.attachments.length : Int) =
      -h.lifecycle.attachments.length + if (h.detach e typeName).1 then 1 else 0 := by
  show -((h.lifecycle.detach h.surroundings e typeName).2.1.attachments.length : Int) =
    _ + if (h.lifecycle.detach h.surroundings e typeName).1 then 1 else 0
  unfold Lifecycle.detach
  split
  · exact (Int.add_zero _).symm
  · next a found =>
    have mem := List.mem_of_find?_eq_some found
    have isFor := List.find?_some found
    have length := List.length_eraseP_of_mem (p := (·.isFor e typeName)) mem isFor
    have pos := List.length_pos_of_mem mem
    show -((h.lifecycle.attachments.eraseP (·.isFor e typeName)).length : Int) = _ + (1 : Int)
    omega

/-- Steps that are calls make a run. -/
theorem countEach_run {step : Host → Entity → String → Bool × Host} (call : Entity → String → Call)
    (one : ∀ h e typeName, (step h e typeName).2 = (h.perform (call e typeName)).2) (h : Host) (bs : List Binding) :
    (countEach step h bs).2 = h.run (bs.map fun b => call b.entity b.typeName) := by
  induction bs generalizing h with
  | nil => rfl
  | cons b bs ih =>
    show (countEach step (step h b.entity b.typeName).2 bs).2 = _
    rw [ih, one]
    rfl

/-- The steps of a sync: what nothing asks for, and then what is missing. -/
theorem sync_steps (h : Host) (w : World) :
    let cleared := countEach detach h ((h.removed w).map Attachment.binding)
    let filled := countEach attach cleared.2 (w.bindings.filter (!h.bindings.contains ·))
    h.sync w = (⟨filled.1, cleared.1⟩, filled.2) := by
  rw [← gone_eq]
  rfl

/-- A sync is a run of calls. -/
theorem exists_run_of_sync (h : Host) (w : World) : ∃ more, (h.sync w).2 = h.run more := by
  refine ⟨((h.removed w).map Attachment.binding).map (fun b => .detach b.entity b.typeName) ++
    (w.bindings.filter (!h.bindings.contains ·)).map fun b => .attach b.entity b.typeName, ?_⟩
  rw [sync_steps, Host.run, List.foldl_append]
  dsimp only
  rw [countEach_run .attach fun _ _ _ => rfl, countEach_run .detach fun _ _ _ => rfl]
  rfl

theorem length_cleared (distinct : h.bindings.Nodup) :
    (countEach detach h ((h.removed w).map Attachment.binding)).2.lifecycle.attachments.length =
      (h.lifecycle.attachments.filter (asked w)).length := by
  rw [countEach_eq .detach detach_undergoes, List.map_map]
  show (h.lifecycle.history ((h.removed w).map fun a => .detach h.surroundings a.owner a.typeName)).1.attachments.length = _
  rw [(history_removed distinct).1]
  rfl

theorem detached_eq (distinct : h.bindings.Nodup) : (h.sync w).1.detached = (h.removed w).length := by
  have count := countEach_count (fun h => -(h.lifecycle.attachments.length : Int)) length_detach h
    ((h.removed w).map Attachment.binding)
  have split : h.lifecycle.attachments.length =
      (h.lifecycle.attachments.filter (asked w)).length + (h.removed w).length := by
    rw [removed, List.length_mergeSort]
    exact List.length_eq_length_filter_add _
  rw [length_cleared distinct] at count
  rw [sync_steps]
  dsimp only
  omega

theorem attached_eq (distinct : h.bindings.Nodup) : (h.sync w).1.attached = (h.missing w).length := by
  have count := countEach_count (fun h => (h.lifecycle.attachments.length : Int)) length_attach
    (countEach detach h ((h.removed w).map Attachment.binding)).2 (w.bindings.filter (!h.bindings.contains ·))
  have filled : (h.sync w).2.lifecycle.attachments.length =
      (h.lifecycle.attachments.filter (asked w)).length + (h.missing w).length := by
    rw [sync_eq_settle distinct]
    show (h.synced w).length = _
    rw [synced, List.length_append, List.length_map]
  rw [length_cleared distinct] at count
  rw [sync_steps] at filled ⊢
  dsimp only at filled ⊢
  omega

theorem card_missing (h : Host) (w : World) :
    (h.missing w).length = (w.bindings.toFinset \ h.bindings.toFinset).card := by
  have same : (h.missing w).toFinset = w.bindings.toFinset \ h.bindings.toFinset := by
    ext b
    rw [List.mem_toFinset, mem_missing, Finset.mem_sdiff, List.mem_toFinset, List.mem_toFinset]
  rw [← same]
  exact (List.toFinset_card_of_nodup (nodup_eraseDups _)).symm

theorem card_removed (distinct : h.bindings.Nodup) :
    (h.removed w).length = (h.bindings.toFinset \ w.bindings.toFinset).card := by
  have same : ((h.removed w).map Attachment.binding).toFinset = h.bindings.toFinset \ w.bindings.toFinset := by
    ext b
    rw [List.mem_toFinset, ← gone_eq, List.mem_mergeSort, List.mem_filter, Finset.mem_sdiff, List.mem_toFinset,
      List.mem_toFinset, Bool.not_eq_true', List.contains_eq_mem, decide_eq_false_iff_not]
  rw [← same, List.toFinset_card_of_nodup (nodup_removed distinct), List.length_map]

/-! ## 6. Every reachable host -/

/-- What a sync with the world makes of a host. -/
structure Synced (h : Host) (w : World) (r : SyncSummary × Host) : Prop where
  /-- The bindings are those that the things of the world ask for, each once. -/
  bindings : ∀ b, b ∈ r.2.bindings ↔ ∃ t ∈ w.rows, t.entity = b.entity ∧ b.typeName ∈ t.behaviours
  distinct : r.2.bindings.Nodup
  /-- What stays is as it was and in its order, and what is missing waits behind it. -/
  attachments : r.2.lifecycle.attachments = h.lifecycle.attachments.filter (asked w) ++
    (h.missing w).map fun b => ⟨b.entity, b.typeName, .pending, none⟩
  missing : ∀ b, b ∈ h.missing w ↔ b ∈ w.bindings ∧ b ∉ h.bindings
  removed : (h.removed w).Perm (h.lifecycle.attachments.filter (!asked w ·))
  /-- What happens are detachments and attachments. -/
  history : r.2 = h.after (h.lifecycle.history (h.syncEvents w))
  /-- Each instance that goes receives one call of `on_destroy`, as it was, and there is no other call. -/
  calls : h.lifecycle.historyCalls (h.syncEvents w) = (h.removed w).filterMap fun a =>
    a.running.map fun i => ⟨a.owner, a.typeName, ⟨h.surroundings, .destroy, i, a.state⟩⟩
  /-- The calls are made: nothing else about the host changes but what comes of them. -/
  settled : r.2 = h.after (h.lifecycle.settle r.2.lifecycle.attachments
    (Delivery.traces (h.lifecycle.historyCalls (h.syncEvents w))))
  attached : r.1.attached = (w.bindings.toFinset \ h.bindings.toFinset).card
  detached : r.1.detached = (h.bindings.toFinset \ w.bindings.toFinset).card
  /-- A second sync finds nothing to do. -/
  again : r.2.sync w = (⟨0, 0⟩, r.2)

/-- One sync brings a host in line with the world, whatever calls it has had and whatever the world is; and what comes
    of it is a host that calls lead to. -/
theorem sync_converges (config : Config) (naming : Nat → String) (calls : List Call) (w : World) :
    let h := (create config naming).run calls
    Synced h w (h.sync w) ∧ ∃ more, (h.sync w).2 = (create config naming).run (calls ++ more) := by
  intro h
  have sound : h.Sound := (sound_create config naming).run calls
  have distinct : h.bindings.Nodup := sound.coherent.distinct
  obtain ⟨more, run⟩ := exists_run_of_sync h w
  have next : (h.sync w).2.Sound := run ▸ sound.run more
  have settled := sync_eq_settle (w := w) distinct
  refine ⟨⟨fun b => (mem_bindings_sync distinct).trans World.mem_bindings, next.coherent.distinct, ?_,
    fun _ => mem_missing, List.mergeSort_perm .., sync_eq h w, (history_sync distinct).2, ?_,
    (attached_eq distinct).trans (card_missing h w), (detached_eq distinct).trans (card_removed distinct),
    sync_of_same fun b => mem_bindings_sync distinct⟩, more, ?_⟩
  · rw [settled]
    rfl
  · rw [(history_sync distinct).2, settled]
    rfl
  · rw [run, Host.run, Host.run, List.foldl_append]
    rfl

/-- A name that is given twice is attached once, and an entity of a generation before loses what it had. -/
example :
    let w : World := ⟨[⟨⟨0, 2⟩, "lamp", none, none, ["Glow", "Spin", "Glow"]⟩], [], 1⟩
    let h := (create .standard toString).run [.attach ⟨0, 1⟩ "Glow", .attach ⟨0, 2⟩ "Spin"]
    (h.sync w).1 = ⟨1, 1⟩ ∧ (h.sync w).2.bindings = [⟨⟨0, 2⟩, "Spin"⟩, ⟨⟨0, 2⟩, "Glow"⟩] := by
  decide +kernel

end Host

end ScriptHost
