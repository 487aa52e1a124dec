import ScriptHost.Proofs.Lifecycle.Deeds
import ScriptHost.Proofs.Lifecycle.Renewal

/-!
# Protocol — the calls of an instance come in one order

An instance is created once, then it serves until a hook of it fails, and it is destroyed at most once, as its
last call.  The invariant looks at one attachment: while it holds an instance, its state tells whether a call
of the current life has failed, and the lives before that are over.
-/

namespace ScriptHost

/-! ## 1. Proper lives -/

/-- The calls have made the second instance of the first: each of them came to what the one before had left. -/
inductive Received.Path : Instance → List Received → Instance → Prop
  | nil (i : Instance) : Path i [] i
  | cons {c : Received} {cs : List Received} {i : Instance} (rest : Path c.result.after cs i) :
      Path c.receiver (c :: cs) i

/-- The calls of an instance up to its end: its creation and what it serves.  Once a call has failed there is no
    other, and each came while the attachment was live. -/
structure Served (calls : List Received) : Prop where
  order : ∃ creation serving, calls = creation :: serving ∧ creation.hook = .create ∧
    ∀ c ∈ serving, c.hook = .update ∨ c.hook = .input ∨ c.hook = .collision
  untilFailure : ∀ c ∈ calls.dropLast, c.hasFailed = false
  live : ∀ c ∈ calls, c.state = .live

/-- All the calls of a life: of a fresh instance, each on what the ones before have made of it; and after those it
    served, one of `on_destroy` if it has come to an end that asks for it, and none otherwise. -/
structure Life.Proper (callDestroy : Bool) (l : Life) : Prop where
  fresh : ∃ program owner, l.born = .fresh program owner
  path : ∃ i, Received.Path l.born l.calls i
  calls : ∃ served farewell, l.calls = served ++ farewell ∧ Served served ∧
    farewell.map (·.hook) = (if l.ending.destroys callDestroy then [.destroy] else []) ∧
    ∀ c ∈ farewell, c.state = .live ∨ c.state = .faulted

/-- The life of the instance that an attachment holds: it is what the calls have made of it, and it is at fault
    exactly when one of them has failed. -/
structure Life.Current (a : Attachment) (i : Instance) (l : Life) : Prop where
  held : l.ending = .held
  fresh : ∃ program, l.born = .fresh program a.owner
  path : Received.Path l.born l.calls i
  served : Served l.calls
  state : a.state = if l.calls.any (·.hasFailed) then .faulted else .live

/-- The life has gone on, with some more calls, and has come to the end. -/
def Life.Ends (l : Life) (e : Ending) (lives : List Life) : Prop :=
  ∃ calls, { l with calls := l.calls ++ calls, ending := e } ∈ lives

theorem Life.Ends.mono {l : Life} {e : Ending} {lives more : List Life} (h : l.Ends e lives)
    (sub : ∀ m ∈ lives, m ∈ more) : l.Ends e more := h.imp fun _ hm => sub _ hm

variable {i : Instance} {a : Attachment} {life : Life} {callDestroy : Bool} {s : Surroundings} {c : HookCall}

theorem Received.Path.one (c : Received) : Path c.receiver [c] c.result.after := .cons (.nil _)

theorem Received.Path.concat {cs : List Received} {c : Received} {i : Instance} (h : Path i cs c.receiver) :
    Path i (cs ++ [c]) c.result.after := by
  generalize e : c.receiver = j at h
  induction h with
  | nil j =>
    subst e
    exact .cons (.nil _)
  | cons rest ih => exact .cons (ih e)

/-- A call goes on with a life in which none has failed. -/
theorem Served.concat {calls : List Received} {c : Received} (h : Served calls)
    (hook : c.hook = .update ∨ c.hook = .input ∨ c.hook = .collision) (live : c.state = .live)
    (clean : calls.any (·.hasFailed) = false) : Served (calls ++ [c]) where
  order := by
    obtain ⟨creation, serving, rfl, created, served⟩ := h.order
    refine ⟨creation, serving ++ [c], rfl, created, fun d hd => ?_⟩
    rcases List.mem_append.mp hd with hd | hd
    · exact served d hd
    · rw [List.mem_singleton.mp hd]
      exact hook
  untilFailure := by
    rw [List.dropLast_concat]
    exact fun d hd => Bool.eq_false_iff.mpr (List.any_eq_false.mp clean d hd)
  live := by
    intro d hd
    rcases List.mem_append.mp hd with hd | hd
    · exact h.live d hd
    · rw [List.mem_singleton.mp hd]
      exact live

namespace Life

theorem Current.state_cases (h : life.Current a i) : a.state = .live ∨ a.state = .faulted := by
  rw [h.state]
  split
  · exact .inr rfl
  · exact .inl rfl

/-- As long as it goes on, a life is proper. -/
theorem Current.proper (h : life.Current a i) : life.Proper callDestroy where
  fresh := h.fresh.imp fun _ born => ⟨a.owner, born⟩
  path := ⟨i, h.path⟩
  calls := by
    refine ⟨life.calls, [], (List.append_nil _).symm, h.served, ?_, fun c hc => absurd hc List.not_mem_nil⟩
    rw [h.held]
    rfl

/-- An end that asks for no call of `on_destroy` leaves a proper life. -/
theorem Current.proper_finish {e : Ending} (h : life.Current a i) (silent : e.destroys callDestroy = false) :
    (life.finish e).Proper callDestroy where
  fresh := h.fresh.imp fun _ born => ⟨a.owner, born⟩
  path := ⟨i, h.path⟩
  calls := by
    refine ⟨life.calls, [], (List.append_nil _).symm, h.served, ?_, fun c hc => absurd hc List.not_mem_nil⟩
    show [] = if e.destroys callDestroy then [Hook.destroy] else []
    rw [silent]
    rfl

/-- So does one that asks for it, after the call. -/
theorem Current.proper_destroyed {e : Ending} (h : life.Current a i) (called : e.destroys callDestroy = true) :
    ((life.receive ⟨s, .destroy, i, a.state⟩).finish e).Proper callDestroy where
  fresh := h.fresh.imp fun _ born => ⟨a.owner, born⟩
  path := ⟨_, h.path.concat⟩
  calls := by
    refine ⟨life.calls, [⟨s, .destroy, i, a.state⟩], rfl, h.served, ?_, fun c hc => ?_⟩
    · show [Hook.destroy] = if e.destroys callDestroy then [Hook.destroy] else []
      rw [called]
      rfl
    · rw [List.mem_singleton.mp hc]
      exact h.state_cases

end Life

/-! ## 2. One attachment -/

namespace Tended

variable {t : Tended} {r : Registry}

/-- An attachment without an instance waits or has failed; one with an instance has the life of it; and the lives
    before are over. -/
structure Sound (callDestroy : Bool) (t : Tended) : Prop where
  past : ∀ l ∈ t.past, l.Proper callDestroy ∧ l.ending = .replaced
  idle : t.attachment.running = none →
    t.current = none ∧ (t.attachment.state = .pending ∨ t.attachment.state = .failed)
  busy : ∀ i, t.attachment.running = some i → ∃ l, t.current = some l ∧ l.Current t.attachment i

theorem deliver_of_none (h : t.attachment.running = none) : t.deliver s c = (t, .empty) := by
  rw [deliver, h]

theorem deliver_of_some (h : t.attachment.running = some i) :
    (t.deliver s c).1 =
      { t with
        attachment := { t.attachment with
          running := some (i.call s c).after
          state := if (i.call s c).error.isSome && c.hook != .destroy then .faulted else t.attachment.state }
        current := t.current.map (·.receive ⟨s, c, i, t.attachment.state⟩) } := by
  simp only [deliver, Attachment.deliver, h]

/-- A call that is no creation and no end keeps the order. -/
theorem Sound.serve (h : t.Sound callDestroy) (live : t.attachment.state = .live)
    (hook : c.hook = .update ∨ c.hook = .input ∨ c.hook = .collision) :
    (t.deliver s c).1.Sound callDestroy := by
  cases running : t.attachment.running with
  | none =>
    rw [deliver_of_none running]
    exact h
  | some i =>
    obtain ⟨l, current, life⟩ := h.busy i running
    -- No call has failed so far, for the attachment is live.
    have clean : l.calls.any (·.hasFailed) = false := by
      have state := life.state
      rw [live] at state
      by_contra failed
      rw [if_pos (Bool.not_eq_false _ ▸ failed)] at state
      exact absurd state (by decide)
    have serving : (c.hook != .destroy) = true := by
      rcases hook with e | e | e <;> rw [e] <;> rfl
    rw [deliver_of_some running, live, serving, Bool.and_true]
    refine ⟨h.past, nofun, fun j hj => ⟨l.receive ⟨s, c, i, .live⟩, by rw [current]; rfl, ?_⟩⟩
    obtain rfl : (i.call s c).after = j := Option.some.inj hj
    refine ⟨life.held, life.fresh, life.path.concat, life.served.concat hook rfl clean, ?_⟩
    show _ = if (l.calls ++ [_]).any (·.hasFailed) then _ else _
    rw [List.any_append, clean, List.any_cons, List.any_nil, Bool.false_or, Bool.or_false]
    rfl

theorem Sound.receive (h : t.Sound callDestroy)
    (hook : c.hook = .update ∨ c.hook = .input ∨ c.hook = .collision) :
    (t.receive s c).1.Sound callDestroy := by
  rw [Tended.receive]
  split
  · rename_i receiving
    exact h.serve (eq_of_beq (Bool.and_eq_true _ _ ▸ receiving).1) hook
  · exact h

/-- An instance begins with its creation. -/
theorem sound_instantiate (past : ∀ l ∈ t.past, l.Proper callDestroy ∧ l.ending = .replaced)
    (idle : t.attachment.running = none) (none : t.current = none) :
    (t.instantiate r s).1.Sound callDestroy := by
  unfold instantiate
  cases made : r.instantiate? t.attachment.typeName t.attachment.owner with
  | none => exact ⟨past, fun _ => ⟨none, .inr rfl⟩, fun i hi => absurd (idle.symm.trans hi) nofun⟩
  | some i =>
    dsimp only
    rw [deliver_of_some (i := i) rfl]
    refine ⟨past, nofun, fun j hj => ⟨(Life.start t.attachment i).receive ⟨s, .create, i, .live⟩, rfl, ?_⟩⟩
    obtain rfl : (i.call s .create).after = j := Option.some.inj hj
    obtain ⟨entry, -, born⟩ := Option.map_eq_some_iff.mp made
    refine ⟨rfl, ⟨entry.program, born.symm⟩, .one ⟨s, .create, i, .live⟩, ?_, ?_⟩
    · exact ⟨⟨_, [], rfl, rfl, fun d hd => absurd hd List.not_mem_nil⟩, fun d hd => absurd hd List.not_mem_nil,
        fun d hd => by rw [List.mem_singleton.mp hd]⟩
    · show (if _ && true then _ else _) = if [Received.mk s .create i .live].any (·.hasFailed) then _ else _
      rw [Bool.and_true, List.any_cons, List.any_nil, Bool.or_false]
      rfl

/-- What waits holds nothing: one at work is live or at fault. -/
theorem Sound.idle_of_pending (h : t.Sound callDestroy) (pending : t.attachment.state = .pending) :
    t.attachment.running = none := by
  cases running : t.attachment.running with
  | none => rfl
  | some i =>
    obtain ⟨l, -, life⟩ := h.busy i running
    rcases life.state_cases with state | state
    · exact absurd (pending.symm.trans state) (by decide)
    · exact absurd (pending.symm.trans state) (by decide)

theorem Sound.start (h : t.Sound callDestroy) : (t.start r s).1.Sound callDestroy := by
  rw [Tended.start]
  by_cases pending : t.attachment.state = .pending
  · rw [if_pos (beq_iff_eq.mpr pending)]
    have idle := h.idle_of_pending pending
    exact sound_instantiate h.past idle (h.idle idle).1
  · rw [if_neg (by simpa using pending)]
    exact h

/-- At an end that asks for no call all lives are proper. -/
theorem Sound.ended {e : Ending} (h : t.Sound callDestroy) (silent : e.destroys callDestroy = false) :
    ∀ l ∈ t.ended e, l.Proper callDestroy ∧ (l.ending = .replaced ∨ l.ending = e) := by
  intro l hl
  rcases List.mem_append.mp hl with hl | hl
  · exact ⟨(h.past l hl).1, .inl (h.past l hl).2⟩
  · obtain ⟨m, current, rfl⟩ := Option.map_eq_some_iff.mp (Option.mem_toList.mp hl)
    cases running : t.attachment.running with
    | none => exact absurd ((h.idle running).1.symm.trans current) nofun
    | some i =>
      obtain ⟨m', current', life⟩ := h.busy i running
      obtain rfl := Option.some.inj (current'.symm.trans current)
      exact ⟨life.proper_finish silent, .inr rfl⟩

/-- At an end that asks for it all are proper after the call. -/
theorem Sound.ended_deliver {e : Ending} (h : t.Sound callDestroy) (called : e.destroys callDestroy = true) :
    ∀ l ∈ (t.deliver s .destroy).1.ended e, l.Proper callDestroy ∧ (l.ending = .replaced ∨ l.ending = e) := by
  intro l hl
  cases running : t.attachment.running with
  | none =>
    rw [deliver_of_none running, Tended.ended, (h.idle running).1] at hl
    have hl : l ∈ t.past := by simpa using hl
    exact ⟨(h.past l hl).1, .inl (h.past l hl).2⟩
  | some i =>
    obtain ⟨m, current, life⟩ := h.busy i running
    rw [deliver_of_some running, Tended.ended, current] at hl
    rcases List.mem_append.mp hl with hl | hl
    · exact ⟨(h.past l hl).1, .inl (h.past l hl).2⟩
    · rw [List.mem_singleton.mp hl]
      exact ⟨life.proper_destroyed called, .inr rfl⟩

theorem Sound.renew (h : t.Sound callDestroy) : (t.renew r s callDestroy).1.Sound callDestroy := by
  have past : ∀ l ∈ ((if callDestroy then t.deliver s .destroy else (t, .empty)).1.ended .replaced),
      l.Proper callDestroy ∧ (l.ending = .replaced ∨ l.ending = .replaced) := by
    cases callDestroy with
    | true => exact h.ended_deliver rfl
    | false => exact h.ended rfl
  exact sound_instantiate (fun l hl => ⟨(past l hl).1, or_self_iff.mp (past l hl).2⟩) rfl rfl

theorem Sound.destroy (h : t.Sound callDestroy) :
    ∀ l ∈ (t.destroy s).1, l.Proper callDestroy ∧ l.ending ≠ .held := by
  intro l hl
  obtain ⟨proper, ending⟩ := h.ended_deliver rfl l hl
  refine ⟨proper, ?_⟩
  rcases ending with e | e
  · rw [e]; nofun
  · rw [e]; nofun

theorem Sound.lives (h : t.Sound callDestroy) : ∀ l ∈ t.lives, l.Proper callDestroy := by
  intro l hl
  rcases List.mem_append.mp hl with hl | hl
  · exact (h.past l hl).1
  · have current : t.current = some l := Option.mem_toList.mp hl
    cases running : t.attachment.running with
    | none => exact absurd ((h.idle running).1.symm.trans current) nofun
    | some i =>
      obtain ⟨m, current', life⟩ := h.busy i running
      obtain rfl := Option.some.inj (current'.symm.trans current)
      exact life.proper

end Tended

/-! ## 3. Runs -/

namespace Chronicle

variable {ch : Chronicle}

/-- Every attachment is sound, and the lives of those there are no more are over. -/
structure Sound (ch : Chronicle) : Prop where
  ended : ∀ l ∈ ch.ended, l.Proper ch.callDestroy ∧ l.ending ≠ .held
  tended : ∀ t ∈ ch.tended, t.Sound ch.callDestroy

theorem sound_create (settings : ReloadSettings) : (create settings).Sound :=
  ⟨fun _ h => absurd h List.not_mem_nil, fun _ h => absurd h List.not_mem_nil⟩

theorem Sound.settle {ts : List Tended} {more : List Life} {tr : Trace} (h : ch.Sound)
    (tended : ∀ t ∈ ts, t.Sound ch.callDestroy)
    (past : ∀ l ∈ more, l.Proper ch.callDestroy ∧ l.ending ≠ .held) : (ch.settle ts more tr).1.Sound where
  ended := by
    intro l hl
    rcases List.mem_append.mp hl with hl | hl
    · exact h.ended l hl
    · exact past l hl
  tended := tended

theorem Sound.attach (h : ch.Sound) (owner : Entity) (typeName : String) : (ch.attach owner typeName).Sound := by
  unfold Chronicle.attach
  split
  · exact h
  · refine ⟨h.ended, fun t ht => ?_⟩
    rcases List.mem_append.mp ht with ht | ht
    · exact h.tended t ht
    · rw [List.mem_singleton.mp ht]
      exact ⟨fun _ hl => absurd hl List.not_mem_nil, fun _ => ⟨rfl, .inl rfl⟩, nofun⟩

theorem Sound.detach (h : ch.Sound) (s : Surroundings) (owner : Entity) (typeName : String) :
    (ch.detach s owner typeName).1.Sound := by
  unfold Chronicle.detach
  split
  · exact h
  · rename_i t found
    exact h.settle (fun u hu => h.tended u (List.eraseP_sublist.subset hu))
      (h.tended t (List.mem_of_find?_eq_some found)).destroy

theorem Sound.detachEntity (h : ch.Sound) (s : Surroundings) (owner : Entity) :
    (ch.detachEntity s owner).1.Sound := by
  simp only [Chronicle.detachEntity, List.partition_eq_filter_filter]
  refine h.settle (fun t ht => h.tended t (List.mem_filter.mp ht).1) fun l hl => ?_
  obtain ⟨t, ht, hl⟩ := List.mem_flatMap.mp hl
  exact (h.tended t (List.mem_filter.mp ht).1).destroy l hl

/-- Every phase of an operation keeps an attachment sound. -/
theorem sound_phase {op : Operation} {f : Tended → Tended × Trace} (mem : f ∈ op.phasesOf s callDestroy)
    {t : Tended} (h : t.Sound callDestroy) : (f t).1.Sound callDestroy := by
  have sometimes {p : Bool} {x : Tended × Trace} (hx : x.1.Sound callDestroy) :
      (if p then x else (t, .empty)).1.Sound callDestroy := by
    split
    · exact hx
    · exact h
  cases op with
  | tick r dt =>
    rcases List.mem_pair.mp mem with rfl | rfl
    · exact sometimes h.start
    · exact h.receive (.inl rfl)
  | input e =>
    rw [List.mem_singleton.mp mem]
    exact h.receive (.inr (.inl rfl))
  | collision c =>
    rw [List.mem_singleton.mp mem]
    exact sometimes (h.receive (.inr (.inr rfl)))
  | reload r =>
    rw [List.mem_singleton.mp mem]
    exact h.renew

theorem sound_through {fs : List (Tended → Tended × Trace)} {ts : List Tended}
    (keeps : ∀ f ∈ fs, ∀ t : Tended, t.Sound callDestroy → (f t).1.Sound callDestroy)
    (h : ∀ t ∈ ts, t.Sound callDestroy) : ∀ t ∈ (through ts fs).1, t.Sound callDestroy := by
  induction fs generalizing ts with
  | nil => exact h
  | cons f fs ih =>
    refine ih (fun g hg => keeps g (List.mem_cons_of_mem f hg)) fun u hu => ?_
    obtain ⟨t, ht, rfl⟩ := List.mem_map.mp hu
    exact keeps f List.mem_cons_self t (h t ht)

theorem Sound.undergo (h : ch.Sound) (e : Event) : (ch.undergo e).1.Sound := by
  cases e with
  | attach owner typeName => exact h.attach owner typeName
  | detach s owner typeName => exact h.detach s owner typeName
  | detachEntity s owner => exact h.detachEntity s owner
  | operate s op =>
    exact h.settle (sound_through (fun f hf t => sound_phase hf) h.tended) fun l hl => absurd hl List.not_mem_nil

theorem undergo_callDestroy (ch : Chronicle) (e : Event) : (ch.undergo e).1.callDestroy = ch.callDestroy := by
  cases e with
  | attach owner typeName =>
    show (ch.attach owner typeName).callDestroy = ch.callDestroy
    unfold Chronicle.attach
    split <;> rfl
  | detach s owner typeName =>
    show (ch.detach s owner typeName).1.callDestroy = ch.callDestroy
    unfold Chronicle.detach
    split <;> rfl
  | detachEntity s owner => rfl
  | operate s op => rfl

theorem Sound.history (h : ch.Sound) (es : List Event) :
    (ch.history es).1.Sound ∧ (ch.history es).1.callDestroy = ch.callDestroy := by
  induction es generalizing ch with
  | nil => exact ⟨h, rfl⟩
  | cons e es ih =>
    obtain ⟨sound, same⟩ := ih (h.undergo e)
    exact ⟨sound, same.trans (ch.undergo_callDestroy e)⟩

/-! ## 4. Ends -/

section Ends

variable {t : Tended} {l : Life}

theorem ends_ended (current : t.current = some l) (e : Ending) : l.Ends e (t.ended e) := by
  refine ⟨[], ?_⟩
  rw [Tended.ended, current, List.append_nil]
  exact List.mem_append_right _ List.mem_cons_self

theorem ends_deliver (h : t.Sound callDestroy) (current : t.current = some l) (s : Surroundings) (e : Ending) :
    l.Ends e ((t.deliver s .destroy).1.ended e) := by
  cases running : t.attachment.running with
  | none => exact absurd ((h.idle running).1.symm.trans current) nofun
  | some i =>
    refine ⟨[⟨s, .destroy, i, t.attachment.state⟩], ?_⟩
    rw [Tended.deliver_of_some running, Tended.ended, current]
    exact List.mem_append_right _ List.mem_cons_self

theorem instantiate_past (t : Tended) (r : Registry) (s : Surroundings) : (t.instantiate r s).1.past = t.past := by
  unfold Tended.instantiate
  cases r.instantiate? t.attachment.typeName t.attachment.owner with
  | none => rfl
  | some i =>
    dsimp only
    rw [Tended.deliver_of_some (i := i) rfl]

/-- The instance that a type on an entity has is destroyed with the attachment. -/
theorem Sound.ends_detach (h : ch.Sound) {owner : Entity} {typeName : String}
    (found : ch.tended.find? (·.isFor owner typeName) = some t) (current : t.current = some l) :
    l.Ends .detached (ch.detach s owner typeName).1.ended := by
  unfold Chronicle.detach
  rw [found]
  exact (ends_deliver (h.tended t (List.mem_of_find?_eq_some found)) current s .detached).mono fun m hm =>
    List.mem_append_right _ hm

/-- So is every instance on an entity that goes. -/
theorem Sound.ends_detachEntity (h : ch.Sound) (mem : t ∈ ch.tended) (current : t.current = some l) :
    l.Ends .detached (ch.detachEntity s t.attachment.owner).1.ended := by
  simp only [Chronicle.detachEntity, List.partition_eq_filter_filter]
  refine (ends_deliver (h.tended t mem) current s .detached).mono fun m hm => List.mem_append_right _ ?_
  exact List.mem_flatMap.mpr ⟨t, List.mem_filter.mpr ⟨mem, beq_self_eq_true _⟩, hm⟩

/-- A reload puts another instance in the place of every one. -/
theorem Sound.ends_reload (h : ch.Sound) (mem : t ∈ ch.tended) (current : t.current = some l) (r : Registry) :
    l.Ends .replaced (ch.operate s (.reload r)).1.lives := by
  have ended : l.Ends .replaced
      ((if ch.callDestroy then t.deliver s .destroy else (t, .empty)).1.ended .replaced) := by
    split
    · exact ends_deliver (h.tended t mem) current s .replaced
    · exact ends_ended current .replaced
  refine ended.mono fun m hm => List.mem_append_right _ (List.mem_flatMap.mpr ⟨_, List.mem_map_of_mem mem, ?_⟩)
  refine List.mem_append_left _ ?_
  show m ∈ (Tended.instantiate r s _).1.past
  rw [instantiate_past]
  exact hm

end Ends

end Chronicle

/-! ## 5. The calls in order -/

namespace Life

def key (l : Life) : Entity × String := (l.owner, l.typeName)

/-- The calls of a life, as they are delivered. -/
def deliveries (l : Life) : List Delivery := l.calls.map (Delivery.mk l.owner l.typeName)

/-- The calls of the lives of one name, life after life. -/
def told (k : Entity × String) (ls : List Life) : List Delivery := (ls.filter (·.key == k)).flatMap deliveries

theorem told_append (k : Entity × String) (ls ms : List Life) : told k (ls ++ ms) = told k ls ++ told k ms := by
  rw [told, List.filter_append, List.flatMap_append]
  rfl

end Life

namespace Tended

variable {t : Tended} {r : Registry}

def key (t : Tended) : Entity × String := t.attachment.key

/-- The lives of an attachment go by its name. -/
def Named (t : Tended) : Prop := ∀ l ∈ t.lives, l.key = t.key

def told (t : Tended) : List Delivery := t.lives.flatMap Life.deliveries

theorem told_flatMap {ts : List Tended} {f : Tended → List Life} (named : ∀ t ∈ ts, ∀ l ∈ f t, l.key = t.key)
    (k : Entity × String) :
    Life.told k (ts.flatMap f) = (ts.filter (·.key == k)).flatMap fun t => (f t).flatMap Life.deliveries := by
  rw [Life.told, filter_flatMap_of_named key Life.key named, List.flatMap_assoc]

theorem Named.of_concat {l : Life} (h : t.Named) (lives : t.lives = t.past ++ [l]) :
    (∀ m ∈ t.past, m.key = t.key) ∧ l.key = t.key := by
  rw [Named, lives] at h
  exact (List.forall_mem_append.mp h).imp_right fun last => last l List.mem_cons_self

/-- The step adds these calls to what is told of an attachment, under its name. -/
def Tells (callDestroy : Bool) (f : Tended → Tended × Trace) (calls : Attachment → List Delivery) : Prop :=
  ∀ t, t.Sound callDestroy → t.Named → (f t).1.Named ∧ (f t).1.told = t.told ++ calls t.attachment

theorem key_deliver (s : Surroundings) (c : HookCall) (t : Tended) : (t.deliver s c).1.key = t.key := by
  have keeps := Attachment.keeps_deliver s c t.attachment
  rw [key, (mirrors_deliver s c t).1]
  exact Prod.ext keeps.1 keeps.2

theorem tells_deliver (s : Surroundings) (c : HookCall) : Tells callDestroy (deliver s c) (Attachment.calls s c) := by
  intro t sound named
  cases running : t.attachment.running with
  | none =>
    rw [deliver_of_none running, Attachment.calls, running]
    exact ⟨named, (List.append_nil _).symm⟩
  | some i =>
    obtain ⟨l, current, -⟩ := sound.busy i running
    have lives : t.lives = t.past ++ [l] := by
      rw [Tended.lives, current]
      rfl
    obtain ⟨past, mine⟩ := named.of_concat lives
    obtain ⟨owner, typeName⟩ := Prod.mk.inj mine
    let received : Received := ⟨s, c, i, t.attachment.state⟩
    have told : (l.receive received).deliveries = l.deliveries ++ t.attachment.calls s c := by
      rw [Attachment.calls, running, ← owner, ← typeName]
      exact List.map_append
    rw [deliver_of_some running, current]
    refine ⟨List.forall_mem_append.mpr ⟨past, List.forall_mem_singleton.mpr mine⟩, ?_⟩
    show (t.past ++ [l.receive received]).flatMap Life.deliveries = t.lives.flatMap Life.deliveries ++ _
    rw [lives, List.flatMap_append, List.flatMap_append, List.flatMap_singleton, List.flatMap_singleton, told,
      List.append_assoc]

/-- A step that is taken by some attachments only. -/
theorem Tells.ite {f : Tended → Tended × Trace} {calls : Attachment → List Delivery}
    (h : Tells callDestroy f calls) (p : Attachment → Bool) :
    Tells callDestroy (fun t => if p t.attachment then f t else (t, .empty)) (fun a => if p a then calls a else []) := by
  intro t sound named
  dsimp only
  split
  · exact h t sound named
  · exact ⟨named, (List.append_nil _).symm⟩

theorem tells_receive (s : Surroundings) (c : HookCall) :
    Tells callDestroy (receive s c) (Attachment.receiveCalls s c) :=
  (tells_deliver s c).ite Attachment.isReceiving

/-- What is told of a new instance begins with its creation. -/
theorem tells_instantiate (r : Registry) (s : Surroundings) (t : Tended) (none : t.current = none)
    (named : t.Named) : (t.instantiate r s).1.Named ∧
      (t.instantiate r s).1.told = t.told ++ t.attachment.instantiateCalls r s := by
  have lives : t.lives = t.past := by
    rw [Tended.lives, none]
    exact List.append_nil _
  unfold instantiate Attachment.instantiateCalls
  cases r.instantiate? t.attachment.typeName t.attachment.owner with
  | none => exact ⟨named, (List.append_nil _).symm⟩
  | some i =>
    dsimp only
    rw [deliver_of_some (i := i) rfl]
    refine ⟨List.forall_mem_append.mpr ⟨lives ▸ named, List.forall_mem_singleton.mpr rfl⟩, ?_⟩
    show (t.past ++ [_]).flatMap Life.deliveries = t.lives.flatMap Life.deliveries ++ _
    rw [lives, List.flatMap_append, List.flatMap_singleton]
    rfl

theorem tells_start (r : Registry) (s : Surroundings) :
    Tells callDestroy (start r s) (Attachment.startCalls r s) := by
  intro t sound named
  unfold start Attachment.startCalls
  by_cases pending : t.attachment.state = .pending
  · rw [if_pos (beq_iff_eq.mpr pending), if_pos (beq_iff_eq.mpr pending)]
    exact tells_instantiate r s t (sound.idle (sound.idle_of_pending pending)).1 named
  · rw [if_neg (by simpa using pending), if_neg (by simpa using pending)]
    exact ⟨named, (List.append_nil _).symm⟩

/-- An end changes neither the names nor what is told. -/
theorem Named.ended (named : t.Named) (e : Ending) :
    (∀ l ∈ t.ended e, l.key = t.key) ∧ (t.ended e).flatMap Life.deliveries = t.told := by
  cases current : t.current with
  | none =>
    have same : t.ended e = t.lives := by
      rw [Tended.ended, lives, current]
      rfl
    exact ⟨same ▸ named, congrArg _ same⟩
  | some l =>
    have lives : t.lives = t.past ++ [l] := by
      rw [Tended.lives, current]
      rfl
    obtain ⟨past, mine⟩ := named.of_concat lives
    rw [Tended.ended, told, current, lives, List.flatMap_append, List.flatMap_append]
    exact ⟨List.forall_mem_append.mpr ⟨past, List.forall_mem_singleton.mpr mine⟩, rfl⟩

theorem destroy_told (s : Surroundings) (sound : t.Sound callDestroy) (named : t.Named) :
    (∀ l ∈ (t.destroy s).1, l.key = t.key) ∧
      (t.destroy s).1.flatMap Life.deliveries = t.told ++ t.attachment.calls s .destroy := by
  obtain ⟨named', told⟩ := tells_deliver s .destroy t sound named
  obtain ⟨keys, same⟩ := named'.ended .detached
  have key : (t.deliver s .destroy).1.key = t.key := key_deliver s .destroy t
  exact ⟨fun l hl => (keys l hl).trans key, same.trans told⟩

theorem tells_renew (r : Registry) (s : Surroundings) (callDestroy : Bool) :
    Tells callDestroy (renew r s callDestroy) (Attachment.renewCalls r s callDestroy) := by
  intro t sound named
  let left := (if callDestroy then t.deliver s .destroy else (t, .empty)).1
  obtain ⟨leftNamed, leftTold, leftKey⟩ : left.Named ∧
      left.told = t.told ++ (if callDestroy then t.attachment.calls s .destroy else []) ∧ left.key = t.key := by
    cases callDestroy with
    | false => exact ⟨named, (List.append_nil _).symm, rfl⟩
    | true =>
      obtain ⟨named', told⟩ := tells_deliver s .destroy t sound named
      exact ⟨named', told, key_deliver s .destroy t⟩
  -- What is left goes by the same name, and so does the attachment that is made of it.
  obtain ⟨keys, same⟩ := leftNamed.ended .replaced
  have lives : left.cleared.lives = left.ended .replaced := List.append_nil _
  have clearedNamed : left.cleared.Named := by
    rw [Named, lives]
    exact keys
  obtain ⟨made, told⟩ := tells_instantiate r s left.cleared rfl clearedNamed
  refine ⟨made, told.trans ?_⟩
  obtain ⟨owner, typeName⟩ := Prod.mk.inj leftKey
  have again : left.cleared.attachment = .create t.attachment.owner t.attachment.typeName :=
    congrArg₂ Attachment.create owner typeName
  rw [Tended.told, lives, same, leftTold, again, List.append_assoc]
  rfl

end Tended

namespace Chronicle

variable {ch : Chronicle} {calls : List Delivery}

theorem told_through {fs : List (Tended → Tended × Trace)} {rounds : List Round} {ts : List Tended}
    (h : List.Forall₂ (fun f round => Tended.Mirrors f round.act ∧ Tended.Tells callDestroy f round.calls) fs rounds)
    (keeps : ∀ f ∈ fs, ∀ t : Tended, t.Sound callDestroy → (f t).1.Sound callDestroy)
    (sound : ∀ t ∈ ts, t.Sound callDestroy) (named : ∀ t ∈ ts, t.Named) (distinct : (ts.map Tended.key).Nodup) :
    (∀ t ∈ (through ts fs).1, t.Named) ∧ ∀ k,
      ((through ts fs).1.filter (·.key == k)).flatMap Tended.told =
        (ts.filter (·.key == k)).flatMap Tended.told ++
          (Round.through (ts.map (·.attachment)) rounds).2.filter (·.key == k) := by
  induction h generalizing ts with
  | nil => exact ⟨named, fun k => (List.append_nil _).symm⟩
  | @cons f round fs rounds one _ ih =>
    obtain ⟨mirrors, tells⟩ := one
    obtain ⟨keep, keeps⟩ := List.forall_mem_cons.mp keeps
    have key (t : Tended) : (f t).1.key = t.key := by
      rw [Tended.key, (mirrors t).1]
      exact Prod.ext (round.keeps t.attachment).1 (round.keeps t.attachment).2
    have attachments : (Tended.each f ts).1.map (·.attachment) =
        (ts.map (·.attachment)).map fun a => (round.act a).1 := (Tended.mirrors_each mirrors ts).1
    have keys : (Tended.each f ts).1.map Tended.key = ts.map Tended.key := by
      rw [Tended.each, List.map_map]
      exact List.map_congr_left fun t _ => key t
    have soundHere : ∀ t ∈ (Tended.each f ts).1, t.Sound callDestroy :=
      List.forall_mem_map.mpr fun t ht => keep t (sound t ht)
    have namedHere : ∀ t ∈ (Tended.each f ts).1, t.Named :=
      List.forall_mem_map.mpr fun t ht => (tells t (sound t ht) (named t ht)).1
    obtain ⟨rest, told⟩ := ih keeps soundHere namedHere (keys ▸ distinct)
    refine ⟨rest, fun k => (told k).trans ?_⟩
    have here : (Tended.each f ts).1.filter (·.key == k) = (ts.filter (·.key == k)).map fun t => (f t).1 := by
      rw [Tended.each, List.filter_map]
      exact congrArg _ (List.filter_congr fun t _ => congrArg (· == k) (key t))
    have taken : ((ts.map (·.attachment)).flatMap round.calls).filter (·.key == k) =
        ((ts.filter (·.key == k)).map (·.attachment)).flatMap round.calls := by
      rw [filter_flatMap_of_named Attachment.key Delivery.key fun a _ => round.key a, List.filter_map]
      rfl
    -- There is at most one attachment of the name, so its calls come right behind what is told of it.
    rw [attachments, Round.through, List.filter_append, ← List.append_assoc, here, taken]
    refine congrArg (· ++ _) ?_
    rcases filter_cases_of_nodup Tended.key distinct k with none | ⟨t, ht, -, one⟩
    · rw [none]
      rfl
    · rw [one, List.map_singleton, List.map_singleton, List.flatMap_singleton, List.flatMap_singleton,
        List.flatMap_singleton]
      exact (tells t (sound t ht) (named t ht)).2

theorem phasesOf_tells (op : Operation) (s : Surroundings) (callDestroy : Bool) :
    List.Forall₂ (fun f round => Tended.Mirrors f round.act ∧ Tended.Tells callDestroy f round.calls)
      (op.phasesOf s callDestroy) (op.rounds s callDestroy) := by
  cases op with
  | tick r dt =>
    exact .cons ⟨Tended.mirrors_ite (Tended.mirrors_start r s) fun _ => r.unit.isSome,
        (Tended.tells_start r s).ite fun _ => r.unit.isSome⟩
      (.cons ⟨Tended.mirrors_receive s _, Tended.tells_receive s _⟩ .nil)
  | input e => exact .cons ⟨Tended.mirrors_receive s _, Tended.tells_receive s _⟩ .nil
  | collision c =>
    exact .cons ⟨Tended.mirrors_ite (Tended.mirrors_receive s _) fun a => c.involves a.owner,
      (Tended.tells_receive s _).ite fun a => c.involves a.owner⟩ .nil
  | reload r => exact .cons ⟨Tended.mirrors_renew r s callDestroy, Tended.tells_renew r s callDestroy⟩ .nil

/-- The lives of a chronicle tell these calls: for each name they are, in their order, the calls of the lives of that
    name, life after life. -/
structure Tells (ch : Chronicle) (calls : List Delivery) : Prop where
  sound : ch.Sound
  whole : ch.lifecycle.Whole
  named : ∀ t ∈ ch.tended, t.Named
  told : ∀ k, calls.filter (·.key == k) = Life.told k ch.lives

theorem tells_create (settings : ReloadSettings) : (create settings).Tells [] where
  sound := sound_create settings
  whole := Lifecycle.whole_create settings
  named := List.forall_mem_nil _
  told _ := rfl

theorem Tells.distinct (h : ch.Tells calls) : (ch.tended.map Tended.key).Nodup := by
  have distinct := h.whole.distinct
  rw [Lifecycle.keys, lifecycle, List.map_map] at distinct
  exact distinct

/-- What is told of the lives there have been and of those there are. -/
theorem told_lives {ls : List Life} {ts : List Tended} (named : ∀ t ∈ ts, t.Named) (k : Entity × String) :
    Life.told k (ls ++ ts.flatMap Tended.lives) = Life.told k ls ++ (ts.filter (·.key == k)).flatMap Tended.told := by
  rw [Life.told_append, Tended.told_flatMap named]
  rfl

/-- Attachments whose names are told by `q` go, each with a last call. -/
theorem Tells.told_remove (h : ch.Tells calls) (s : Surroundings) (q : Entity × String → Bool) (k : Entity × String) :
    (calls ++ (ch.lifecycle.attachments.filter fun a => q a.key).flatMap (·.calls s .destroy)).filter (·.key == k) =
      Life.told k (ch.ended ++ (ch.tended.filter fun t => q t.key).flatMap (fun t => (t.destroy s).1) ++
        (ch.tended.filter fun t => !q t.key).flatMap Tended.lives) := by
  have destroyed (t : Tended) (ht : t ∈ ch.tended) := Tended.destroy_told s (h.sound.tended t ht) (h.named t ht)
  have ended : Life.told k ((ch.tended.filter fun t => q t.key).flatMap fun t => (t.destroy s).1) =
      ((ch.tended.filter fun t => q t.key).filter (·.key == k)).flatMap
        fun t => (t.destroy s).1.flatMap Life.deliveries :=
    Tended.told_flatMap (fun t ht => (destroyed t (List.mem_filter.mp ht).1).1) k
  have called : ((ch.lifecycle.attachments.filter fun a => q a.key).flatMap (·.calls s .destroy)).filter (·.key == k) =
      (((ch.tended.filter fun t => q t.key).filter (·.key == k)).map (·.attachment)).flatMap (·.calls s .destroy) := by
    rw [filter_flatMap_of_named Attachment.key Delivery.key fun a _ => a.key_calls s .destroy, lifecycle,
      List.filter_map, List.filter_map]
    rfl
  have left : ∀ t ∈ ch.tended.filter (fun t => !q t.key), t.Named := fun t ht => h.named t (List.mem_filter.mp ht).1
  rw [List.filter_append, h.told, lives, told_lives h.named, told_lives left, Life.told_append, ended, called,
    filter_filter_named Tended.key q, filter_filter_named Tended.key (!q ·), List.append_assoc, List.append_assoc]
  refine congrArg (_ ++ ·) ?_
  -- Those of one name stay together or go together, and there is one of a name at most.
  cases q k with
  | false => exact List.append_nil _
  | true =>
    rcases filter_cases_of_nodup Tended.key h.distinct k with none | ⟨t, ht, -, one⟩
    · rw [none]
      rfl
    · rw [one]
      simpa using (destroyed t ht).2.symm

/-- What a chronicle has to tell behind an event: the lives go by their names, and the calls are those of the lives. -/
abbrev Tells.Next (calls : List Delivery) (next : Chronicle) (more : List Delivery) : Prop :=
  (∀ t ∈ next.tended, t.Named) ∧ ∀ k, (calls ++ more).filter (·.key == k) = Life.told k next.lives

theorem Tells.same (h : ch.Tells calls) : Next calls ch [] :=
  ⟨h.named, fun k => by rw [List.append_nil]; exact h.told k⟩

theorem Tells.attach (h : ch.Tells calls) (owner : Entity) (typeName : String) :
    Next calls (ch.attach owner typeName) [] := by
  unfold Chronicle.attach
  split
  · exact h.same
  · refine ⟨List.forall_mem_append.mpr ⟨h.named, List.forall_mem_singleton.mpr (List.forall_mem_nil _)⟩, fun k => ?_⟩
    have lives : (ch.tended ++ [Tended.create owner typeName]).flatMap Tended.lives = ch.tended.flatMap Tended.lives := by
      rw [List.flatMap_append]
      exact List.append_nil _
    rw [Chronicle.lives, lives]
    exact h.same.2 k

theorem Tells.detach (h : ch.Tells calls) (s : Surroundings) (owner : Entity) (typeName : String) :
    Next calls (ch.detach s owner typeName).1 (ch.lifecycle.calls (.detach s owner typeName)) := by
  have isFor : (fun t : Tended => t.isFor owner typeName) = (·.key == (owner, typeName)) := rfl
  rw [Chronicle.detach, Lifecycle.calls, find?_lifecycle, isFor]
  cases found : ch.tended.find? (·.key == (owner, typeName)) with
  | none => exact h.same
  | some t =>
    have alone : ch.tended.filter (·.key == (owner, typeName)) = [t] := by
      rw [← List.head?_filter] at found
      rcases filter_cases_of_nodup Tended.key h.distinct (owner, typeName) with none | ⟨u, -, -, one⟩
      · rw [none] at found
        exact absurd found nofun
      · rw [one] at found ⊢
        exact congrArg ([·]) (Option.some.inj found)
    have called : (ch.lifecycle.attachments.filter fun a => a.key == (owner, typeName)) = [t.attachment] := by
      rw [lifecycle, List.filter_map]
      exact congrArg (List.map _) alone
    have told := h.told_remove s (· == (owner, typeName))
    rw [alone, called, List.flatMap_singleton, List.flatMap_singleton] at told
    dsimp only
    rw [eraseP_eq_filter_of_nodup Tended.key h.distinct, Option.map_some, Option.toList_some, List.flatMap_singleton]
    exact ⟨fun u hu => h.named u (List.mem_filter.mp hu).1, told⟩

theorem Tells.undergo (h : ch.Tells calls) (e : Event) : (ch.undergo e).1.Tells (calls ++ ch.lifecycle.calls e) := by
  have next : Next calls (ch.undergo e).1 (ch.lifecycle.calls e) := by
    cases e with
    | attach owner typeName => exact h.attach owner typeName
    | detach s owner typeName => exact h.detach s owner typeName
    | detachEntity s owner =>
      simp only [Chronicle.undergo, Chronicle.detachEntity, List.partition_eq_filter_filter]
      exact ⟨fun t ht => h.named t (List.mem_filter.mp ht).1, h.told_remove s (·.1 == owner)⟩
    | operate s op =>
      obtain ⟨named, told⟩ := told_through (phasesOf_tells op s ch.callDestroy) (fun f hf t => sound_phase hf)
        h.sound.tended h.named h.distinct
      refine ⟨named, fun k => ?_⟩
      have lives : (ch.undergo (.operate s op)).1.lives =
          ch.ended ++ (through ch.tended (op.phasesOf s ch.callDestroy)).1.flatMap Tended.lives :=
        congrArg (· ++ _) (List.append_nil _)
      rw [lives, told_lives named, told, ← List.append_assoc, ← told_lives h.named, List.filter_append, h.told]
      rfl
  refine ⟨h.sound.undergo e, ?_, next.1, next.2⟩
  rw [(lifecycle_undergo ch e).1]
  exact h.whole.undergo e

theorem Tells.history (h : ch.Tells calls) (es : List Event) :
    (ch.history es).1.Tells (calls ++ ch.lifecycle.historyCalls es) := by
  induction es generalizing ch calls with
  | nil => exact (List.append_nil calls).symm ▸ h
  | cons e es ih =>
    have later := ih (h.undergo e)
    rw [(lifecycle_undergo ch e).1, List.append_assoc] at later
    exact later

end Chronicle

/-! ## 6. The protocol -/

/-- Whether the attachment goes with the event. -/
def Event.detaches (a : Attachment) : Event → Prop
  | .detach _ owner typeName => a.isFor owner typeName = true
  | .detachEntity _ owner => a.owner = owner
  | .attach _ _ | .operate _ _ => False

namespace Lifecycle

variable {l : Lifecycle}

theorem deliver_destroy_state (s : Surroundings) (a : Attachment) : (a.deliver s .destroy).1.state = a.state := by
  cases running : a.running with
  | none => rw [Attachment.deliver_of_none running]
  | some i =>
    simp only [Attachment.deliver, running]
    exact if_neg (by rw [show (HookCall.destroy.hook != .destroy) = false from rfl, Bool.and_false]; simp)

/-- No phase but that of a reload does anything to a failed attachment. -/
theorem phase_of_failed {op : Operation} {f : Attachment → Attachment × Trace} (lasting : ∀ r, op ≠ .reload r)
    (mem : f ∈ op.phases s callDestroy) (failed : a.state = .failed) : (f a).1 = a := by
  have receive (c : HookCall) : a.receive s c = (a, .empty) := by
    rw [Attachment.receive, Attachment.isReceiving, failed]
    rfl
  have start (r : Registry) : a.start r s = (a, .empty) := by
    rw [Attachment.start, failed]
    rfl
  cases op with
  | tick r dt =>
    rcases List.mem_pair.mp mem with rfl | rfl
    · dsimp only
      rw [start, ite_self]
    · dsimp only
      rw [receive]
  | input e =>
    rw [List.mem_singleton.mp mem]
    dsimp only
    rw [receive]
  | collision c =>
    rw [List.mem_singleton.mp mem]
    dsimp only
    rw [receive, ite_self]
  | reload r => exact absurd rfl (lasting r)

theorem mem_through {fs : List (Attachment → Attachment × Trace)} {as : List Attachment}
    (same : ∀ f ∈ fs, (f a).1 = a) (mem : a ∈ as) : a ∈ through as fs := by
  induction fs generalizing as with
  | nil => exact mem
  | cons f fs ih =>
    refine ih (fun g hg => same g (List.mem_cons_of_mem f hg)) ?_
    exact List.mem_map.mpr ⟨a, mem, same f List.mem_cons_self⟩

/-- A failed attachment stays as it is until a reload, or until it goes. -/
theorem failed_stays {e : Event} (lasting : ∀ s r, e ≠ .operate s (.reload r)) (mem : a ∈ l.attachments)
    (failed : a.state = .failed) : a ∈ (l.undergo e).1.attachments ∨ e.detaches a := by
  cases e with
  | attach owner typeName =>
    refine .inl ?_
    show a ∈ (l.attach owner typeName).2.attachments
    unfold Lifecycle.attach
    split
    · exact mem
    · exact List.mem_append_left _ mem
  | detach s owner typeName =>
    by_cases goes : a.isFor owner typeName = true
    · exact .inr goes
    · refine .inl ?_
      show a ∈ (l.detach s owner typeName).2.1.attachments
      unfold Lifecycle.detach
      split
      · exact mem
      · exact (List.mem_eraseP_of_neg (p := (·.isFor owner typeName)) goes).mpr mem
  | detachEntity s owner =>
    by_cases goes : a.owner = owner
    · exact .inr goes
    · refine .inl ?_
      show a ∈ (l.attachments.partition (·.owner == owner)).2
      rw [List.partition_eq_filter_filter]
      exact List.mem_filter.mpr ⟨mem, by simpa using goes⟩
  | operate s op =>
    refine .inl ?_
    show a ∈ (l.operate s op).1.attachments
    rw [operate_eq]
    refine mem_through (fun f hf => phase_of_failed (fun r same => ?_) hf failed) mem
    exact lasting s r (congrArg (Event.operate s) same)

end Lifecycle

/-- The protocol of hook calls, over every run.  Every instance that there has been was created first, served
    until a call failed, and was destroyed as its last call, once if its attachment was detached, and once if a
    reload replaced it and the settings ask for it.  These calls are made: what the run asks of the host and the
    errors that it records are what comes of them, in one order, in which those of one name stand as in its lives.
    The end of an attachment is the end of the life of its instance, and so is a reload.  An attachment that waits
    or has failed has no instance to receive calls, what `on_destroy` does has no part in any state, and a failed
    attachment stays so until a reload. -/
theorem Lifecycle.hook_protocol (settings : ReloadSettings) (es : List Event) :
    let ch := ((Chronicle.create settings).history es).1
    let l := ((Lifecycle.create settings).history es).1
    let left := ((Lifecycle.create settings).history es).2
    let calls := (Lifecycle.create settings).historyCalls es
    ch.lifecycle = l ∧
      (left = Delivery.traces calls ∧
        l.errors = (ErrorLog.empty settings.maxErrors).recordAll (calls.filterMap Delivery.failure?) ∧
        ∀ name, calls.filter (·.key == name) = (ch.lives.filter (·.key == name)).flatMap Life.deliveries) ∧
      (∀ life ∈ ch.lives, life.Proper settings.callDestroy) ∧
      (∀ t ∈ ch.tended, t.Sound settings.callDestroy) ∧
      (∀ s owner typeName t life, ch.tended.find? (·.isFor owner typeName) = some t → t.current = some life →
        life.Ends .detached (ch.undergo (.detach s owner typeName)).1.lives) ∧
      (∀ t ∈ ch.tended, ∀ life, t.current = some life → ∀ s r,
        life.Ends .detached (ch.undergo (.detachEntity s t.attachment.owner)).1.lives ∧
          life.Ends .replaced (ch.undergo (.operate s (.reload r))).1.lives) ∧
      ∀ a ∈ l.attachments,
        (a.running = none ↔ a.state = .pending ∨ a.state = .failed) ∧
          (∀ s, (a.deliver s .destroy).1.state = a.state) ∧
          (a.state = .failed → ∀ e, (∀ s r, e ≠ .operate s (.reload r)) →
            a ∈ (l.undergo e).1.attachments ∨ e.detaches a) := by
  intro ch l left calls
  have erased : ch.lifecycle = l := (Chronicle.lifecycle_history (.create settings) es).1
  obtain ⟨sound, same⟩ := (Chronicle.sound_create settings).history es
  have same : ch.callDestroy = settings.callDestroy := same
  have tended : ∀ t ∈ ch.tended, t.Sound settings.callDestroy := same ▸ sound.tended
  have told := (Chronicle.tells_create settings).history es
  obtain ⟨traced, recorded⟩ := (Lifecycle.create settings).history_told es
  refine ⟨erased, ⟨traced, recorded, told.told⟩, ?_, tended, ?_, ?_, ?_⟩
  · intro life mem
    rcases List.mem_append.mp mem with mem | mem
    · exact same ▸ (sound.ended life mem).1
    · obtain ⟨t, ht, mem⟩ := List.mem_flatMap.mp mem
      exact (tended t ht).lives life mem
  · intro s owner typeName t life found current
    exact (sound.ends_detach found current).mono fun m hm => List.mem_append_left _ hm
  · intro t mem life current s r
    exact ⟨(sound.ends_detachEntity mem current).mono fun m hm => List.mem_append_left _ hm,
      sound.ends_reload mem current r⟩
  · intro a mem
    rw [← erased] at mem
    obtain ⟨t, ht, rfl⟩ := List.mem_map.mp mem
    refine ⟨⟨fun idle => ((tended t ht).idle idle).2, fun state => ?_⟩,
      fun s => deliver_destroy_state s t.attachment, fun failed e lasting => ?_⟩
    · cases running : t.attachment.running with
      | none => rfl
      | some i =>
        obtain ⟨life, -, current⟩ := (tended t ht).busy i running
        rcases current.state_cases with e | e
        · rw [e] at state; exact absurd state (by decide)
        · rw [e] at state; exact absurd state (by decide)
    · exact failed_stays lasting (erased ▸ mem) failed

/-- One instance serves a frame until a reload replaces it, and the other is destroyed with its attachment. -/
example : ((Chronicle.create ⟨true, 4⟩).history
    [.attach (.first 0) "Spin", .operate default (.tick Lifecycle.counting 0),
      .operate default (.reload Lifecycle.counting), .detach default (.first 0) "Spin"]).1.lives.map
        (fun life => (life.calls.map (·.hook), life.ending)) =
    [([.create, .update, .destroy], .replaced), ([.create, .destroy], .detached)] := by
  decide +kernel

end ScriptHost
