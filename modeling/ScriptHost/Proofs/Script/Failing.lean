import ScriptHost.Proofs.Script.Marks
import ScriptHost.Proofs.Step
import ScriptHost.Script.Eval

/-!
# Failing — a failure tells the site at which it arose

A script runs at one site after the other: in the bodies of its functions, in closures, and in texts and calls
that library functions run for it.  What fails at a site fails at one of its places, or at a site that was
entered from there; a failure that has left a site is wrapped with the name of it.
-/

namespace ScriptHost.Script

open Text (Position)

/-! ## 1. Sites -/

/-- Where a script runs. -/
inductive Site where
  | function (f : Function)
  | closure (position : Position)
  | library (name : String)

/-- The name that a failure is wrapped with when it leaves the site. -/
def Site.name : Site → String
  | function f => f.name
  | closure p => closureName p
  | library name => name

/-- A failure wrapped with the callee has left the site. -/
inductive Callee.Leaves (functions : String → Nat → Option Function) : Callee → Site → Prop
  | function {f : Function} {name : String} {n : Nat} (called : functions name n = some f) :
      Leaves functions (.function f.name) (.function f)
  | closure {p : Position} : Leaves functions (.closure p) (.closure p)
  | library {name : String} : Leaves functions (.library name) (.library name)

variable {env : Env} {M : Site → Marks} {g : Site} {t : Trouble} {α β : Type}

theorem Callee.Leaves.name {functions : String → Nat → Option Function} {callee : Callee}
    (h : callee.Leaves functions g) : callee.name = g.name := by
  cases h <;> rfl

/-- What runs at a site obeys the marks of the site; of a site that is no function, nothing is asked. -/
structure Env.Obeys (env : Env) (M : Site → Marks) : Prop where
  functions : ∀ ⦃name n f⦄, env.functions name n = some f → BodyObeys (M (.function f)) f.body
  closures : ∀ p, M (.closure p) = .free
  library : ∀ name, M (.library name) = .free

/-- A place of a site, if there is one. -/
def At (M : Site → Marks) (g : Site) (p : Option Position) : Prop := ∀ q ∈ p, (M g).place q

theorem at_none : At M g none := nofun

theorem at_some {p : Position} (hp : (M g).place p) : At M g (some p) :=
  fun _ same => Option.some.inj same ▸ hp

theorem Env.Obeys.at_library {name : String} {p : Option Position} (h : env.Obeys M) :
    At M (.library name) p := by
  intro q _
  rw [h.library]
  trivial

/-! ## 2. Where a failure comes from -/

/-- The failure of what runs at the first site arose at the second: at the first one itself, or at a site that
    it has left.  An exhausted limit is wrapped by library functions only, and counts for the site that was
    entered last from outside or from one of these. -/
inductive Failure.ArisesIn (functions : String → Nat → Option Function) : Site → Failure → Site → Prop
  | here {g : Site} {t : Trouble} {p : Option Position} : ArisesIn functions g (.raised t p) g
  | inside {g h k : Site} {callee : Callee} {inner : Failure} {p : Option Position}
      (leaves : callee.Leaves functions h) (arises : ArisesIn functions h inner k) :
      ArisesIn functions g (.inFunction callee inner p) k

/-- The innermost name that a failure was wrapped with is that of the site at which it arose. -/
theorem Failure.ArisesIn.name {functions : String → Nat → Option Function} {failure : Failure} {k : Site}
    (h : failure.ArisesIn functions g k) : failure.function?.getD g.name = k.name := by
  induction h with
  | here => rfl
  | inside leaves _ ih =>
    rw [← ih, ← leaves.name]
    rfl

/-- A function in which a failure arose is the one that was called from outside, or one which the script may
    call. -/
theorem Failure.ArisesIn.callable {functions : String → Nat → Option Function} {failure : Failure}
    {f : Function} (h : failure.ArisesIn functions g (.function f)) :
    g = .function f ∨ ∃ name n, functions name n = some f := by
  generalize hk : Site.function f = k at h
  induction h with
  | here => exact .inl rfl
  | inside leaves _ ih =>
    rcases ih hk with rfl | callable
    · cases leaves with
      | function called =>
        cases hk
        exact .inr ⟨_, _, called⟩
      | closure => cases hk
      | library => cases hk
    · exact .inr callable

/-- The failure arose at some site that was entered from `g`, and its place is one of that site. -/
def Failure.From (env : Env) (M : Site → Marks) (g : Site) (failure : Failure) : Prop :=
  ∃ k, failure.ArisesIn env.functions g k ∧ At M k failure.innermost

theorem Failure.From.here {p : Option Position} (place : At M g p) : Failure.From env M g (.raised t p) :=
  ⟨g, .here, place⟩

theorem Failure.From.inside {h : Site} {callee : Callee} {inner : Failure} {p : Option Position}
    (leaves : callee.Leaves env.functions h) (failed : inner.From env M h) :
    Failure.From env M g (.inFunction callee inner p) := by
  obtain ⟨k, arises, place⟩ := failed
  exact ⟨k, .inside leaves arises, place⟩

/-- A failure at another place of the site comes from where it did. -/
theorem Failure.From.moveTo {f : Failure} {p : Option Position} (h : f.From env M g) (hp : At M g p) :
    (f.moveTo p).From env M g := by
  obtain ⟨k, arises, place⟩ := h
  cases arises with
  | here => exact .here hp
  | inside leaves arises => exact ⟨k, .inside leaves arises, place⟩

/-- What fails at a site without a function in between fails at a place of the site. -/
theorem Failure.From.at {p : Option Position} (h : Failure.From env M g (.raised t p)) : At M g p := by
  obtain ⟨k, arises, place⟩ := h
  cases arises
  exact place

/-- Of all interruptions only a failure comes from somewhere. -/
def Signal.From (env : Env) (M : Site → Marks) (g : Site) : Signal → Prop
  | .failed f => f.From env M g
  | _ => True

/-- If the result is an interruption, it comes from `g`. -/
def Settled (env : Env) (M : Site → Marks) (g : Site) (r : Except Signal α) : Prop :=
  ∀ s, r = .error s → s.From env M g

theorem settled_ok {a : α} : Settled env M g (.ok a) := nofun

theorem settled_error {s : Signal} (h : s.From env M g) : Settled (α := α) env M g (.error s) :=
  fun _ same => Except.error.inj same ▸ h

theorem Settled.from {s : Signal} (h : Settled (α := α) env M g (.error s)) : s.From env M g := h s rfl

theorem settled_troubleAt {p : Position} (hp : (M g).place p) : Settled env M g (troubleAt t p) :=
  settled_error (Failure.From.here (at_some hp))

namespace Run

/-- From every state: what the step gives is as `Q` says, and what interrupts it comes from `g`. -/
def Stays (env : Env) (M : Site → Marks) (g : Site) (x : Run α) (Q : α → Prop) : Prop :=
  ∀ m, Ensures x m (fun a _ => Q a) fun s _ => s.From env M g

/-- The step is interrupted by nothing but what comes from `g`. -/
abbrev Safe (env : Env) (M : Site → Marks) (g : Site) (x : Run α) : Prop :=
  Stays env M g x fun _ => True

section Rules

variable {x : Run α} {f : α → Run β} {Q R : α → Prop} {S : β → Prop} {p : Option Position}

theorem stays_pure {a : α} (h : Q a) : Stays env M g (pure a) Q := fun _ => h

theorem Stays.bind (hx : Stays env M g x Q) (hf : ∀ a, Q a → Stays env M g (f a) S) :
    Stays env M g (x >>= f) S := fun m =>
  Ensures.bind_iff.mpr ((hx m).imp fun a m h => hf a h m)

theorem Stays.imp (h : Stays env M g x Q) (weaker : ∀ a, Q a → R a) : Stays env M g x R := fun m =>
  (h m).imp fun a _ => weaker a

/-- A step that is interrupted by nothing but what comes from `g` gives what it gives, whatever else is known
    of its interruptions. -/
theorem Stays.results {f : Site} (hx : Stays env M g x Q) (hx' : Stays env M f x R) :
    Stays env M g x R := by
  intro m
  have here := hx m
  have there := hx' m
  unfold Ensures at here there ⊢
  split
  · next run => rwa [run] at there
  · next run => rwa [run] at here

theorem Safe.bind (hx : Safe env M g x) (hf : ∀ a, Stays env M g (f a) S) : Stays env M g (x >>= f) S :=
  Stays.bind hx fun a _ => hf a

theorem Safe.discard (h : Safe env M g x) : Safe env M g (discard x) := fun m =>
  Ensures.discard_iff.mpr (h m)

theorem stays_throw {s : Signal} (h : s.From env M g) : Stays env M g (throw s) Q := fun _ => h

theorem safe_get : Safe env M g get := fun _ => trivial

theorem safe_modify {change : Machine → Machine} : Safe env M g (modify change) := fun _ => trivial

theorem safe_set {m : Machine} : Safe env M g (set m) := fun _ => trivial

theorem safe_modifyGet {change : Machine → α × Machine} : Safe env M g (modifyGet change) :=
  fun _ => trivial

theorem Stays.ite {c : Prop} [Decidable c] {y : Run α} (hx : Stays env M g x Q) (hy : Stays env M g y Q) :
    Stays env M g (if c then x else y) Q := by
  split
  · exact hx
  · exact hy

theorem stays_failAt {q : Position} (hq : (M g).place q) : Stays env M g (failAt t q) Q :=
  stays_throw (Failure.From.here (at_some hq))

/-- A step that is settled gives its interruption, even one that comes from another site. -/
theorem Safe.settle {f : Site} (h : Safe env M f x) : Stays env M g (settle x) (Settled env M f) := by
  intro m
  have step := h m
  unfold Ensures at step
  show Settled env M f (x.run.run m).1
  intro s same
  split at step
  · next run =>
    rw [run] at same
    exact nomatch same
  · next run =>
    rw [run] at same
    exact Except.error.inj same ▸ step

theorem safe_resume {r : Except Signal α} (h : Settled env M g r) : Safe env M g (resume r) := by
  cases r with
  | ok a => exact stays_pure trivial
  | error s => exact stays_throw h.from

theorem safe_count (h : At M g p) : Safe env M g (count env p) := by
  refine safe_get.bind fun m => safe_modify.bind fun _ => Stays.ite ?_ (stays_pure trivial)
  exact stays_throw (Failure.From.here h)

theorem safe_forM {as : List β} {step : β → Run PUnit} (h : ∀ a ∈ as, Safe env M g (step a)) :
    Safe env M g (as.forM step) := by
  induction as with
  | nil => exact stays_pure trivial
  | cons a as ih =>
    have behind := ih fun b hb => h b (List.mem_cons_of_mem _ hb)
    exact (h a List.mem_cons_self).bind fun _ => behind

/-- Whatever list the steps give, they are interrupted by nothing else. -/
theorem safe_mapM {as : List α} {step : α → Run β} (h : ∀ a ∈ as, Safe env M g (step a)) :
    Safe env M g (as.mapM step) := by
  induction as with
  | nil => exact stays_pure trivial
  | cons a as ih =>
    rw [List.mapM_cons]
    refine (h a List.mem_cons_self).bind fun _ => ?_
    exact (ih fun b hb => h b (List.mem_cons_of_mem _ hb)).bind fun _ => stays_pure trivial

end Rules

/-! ## 3. Plain steps -/

section Steps

variable {p : Position} {v : Value} {name : String}

theorem safe_countCalls {op : Option Operator} {old new : Value} (hp : (M g).place p) :
    Safe env M g (countCalls env op old new p) :=
  safe_forM fun _ hq => safe_count (List.eq_of_mem_replicate hq ▸ at_some hp)

theorem safe_find {x : Ident} (hx : (M g).place x.position) : Safe env M g (find x) := by
  refine safe_get.bind fun m => ?_
  split
  · exact stays_pure trivial
  · exact stays_failAt hx

theorem safe_lookup (hp : (M g).place p) : Safe env M g (lookup name p) :=
  (safe_find hp).bind fun _ => safe_get.bind fun _ => stays_pure trivial

theorem safe_check {r : Except Trouble α} (hp : (M g).place p) : Safe env M g (check p r) := by
  cases r with
  | ok a => exact stays_pure trivial
  | error t => exact stays_failAt hp

theorem safe_truth (hp : (M g).place p) : Safe env M g (truth v p) := by
  unfold truth
  split
  · exact stays_pure trivial
  · exact stays_failAt hp

theorem safe_called {args : List Value} (hp : (M g).place p) : Safe env M g (
    match callLibrary name args p with
    | none => failAt (.functionNotFound (signature name args)) p
    | some called => do
      let a ← check p called
      emit a
      return a) := by
  split
  · exact stays_failAt hp
  · exact (safe_check hp).bind fun _ => safe_modify.bind fun _ => stays_pure trivial

theorem safe_library {args : List Value} (hp : (M g).place p) : Safe env M g (library env name args p) := by
  have counted : Safe env M g (count env (some p)) := safe_count (at_some hp)
  have ended : Safe env M g (throw (.ended (args.headD .unit)) : Run Answer) := stays_throw trivial
  unfold library
  dsimp only
  refine Stays.ite (counted.bind fun _ => Stays.ite ended ?_) (Stays.ite ended ?_)
  · exact safe_called hp
  · exact safe_called hp

theorem safe_ensureChangeable {isConstant : Bool} {args : List Value} (hp : (M g).place p) :
    Safe env M g (ensureChangeable env isConstant name args p) := by
  have counted : Safe env M g (count env (some p)) := safe_count (at_some hp)
  exact Stays.ite (counted.bind fun _ => stays_failAt hp) (stays_pure trivial)

theorem safe_pointTo (hp : (M g).place p) : Safe env M g (pointTo v p) := by
  unfold pointTo
  split
  · exact Stays.ite (stays_pure trivial) (stays_failAt hp)
  · exact stays_failAt hp

theorem safe_curry {f : Pointer} {more : List Slot} : Safe env M g (curry f more) :=
  safe_get.bind fun _ => safe_modifyGet

theorem safe_hold {x : Capture} (hx : (M g).place x.name.position) : Safe env M g (hold env x) := by
  unfold hold
  split
  · exact stays_pure trivial
  · exact (safe_count (at_some hx)).bind fun _ => (safe_find hx).bind fun _ => stays_pure trivial

/-- What a library function wraps comes from its caller. -/
theorem settled_leaveLibrary {r : Except Signal Value} (hr : Settled env M (.library name) r) :
    Settled env M g (leaveLibrary name p r) := by
  unfold leaveLibrary
  split
  · exact settled_ok
  · exact settled_error (Failure.From.inside .library hr.from)
  · next other =>
    intro s same
    subst same
    cases s with
    | failed failure => exact absurd rfl (other failure)
    | _ => exact trivial

theorem stays_firstKnown {call : Way → Run (Except Signal Value × α)} {w : Way} {ws : List Way}
    (h : ∀ w, Stays env M g (call w) fun r => Settled env M g r.1) :
    Stays env M g (firstKnown name call w ws) fun r => Settled env M g r.1 := by
  induction ws generalizing w with
  | nil => exact h w
  | cons v ws ih => exact (h w).bind fun _ hr => Stays.ite ih (stays_pure hr)

/-- A call is made for a library function at the site of its caller, or else at that of the function. -/
theorem stays_serve {call : Way → Run (Except Signal Value × Option Value)} {pointed : Pointed} {r : Request}
    (h : ∀ w, Stays env M g (call w) fun r => Settled env M g r.1)
    (h' : ∀ w, Stays env M (.library name) (call w) fun r => Settled env M (.library name) r.1) :
    Stays env M g (serve call name pointed r p) fun r => Settled env M g r.1 := by
  unfold serve
  split
  · exact h _
  · exact stays_pure settled_ok
  · exact ((stays_firstKnown h).results (stays_firstKnown h')).bind fun _ hr =>
      stays_pure (settled_leaveLibrary hr)

theorem safe_learn {r : Request} {result : Except Signal Value} (h : Settled env M g result) :
    Safe env M g (learn r result) := by
  unfold learn
  split
  · exact stays_pure trivial
  · exact safe_resume h

theorem safe_errand {call : Request → Run (Value × Value)} (h : ∀ r, Safe env M g (call r)) (e : Errand) :
    Safe env M g (errand call e) := by
  induction e with
  | done answer => exact stays_pure trivial
  | ask request next ih => exact (h request).bind fun r => ih r.1 r.2

theorem safe_close {c : Closure} {captures : List Capture} (hc : ∀ x ∈ captures, (M g).place x.name.position)
    (hp : (M g).place c.position) : Safe env M g (close env c captures) := by
  cases captures with
  | nil => exact safe_modifyGet
  | cons x xs =>
    refine (safe_count (at_some (hc x List.mem_cons_self))).bind fun _ => ?_
    refine (safe_forM fun y hy => (safe_find (hc y hy)).bind fun _ => safe_modify).bind fun _ => ?_
    refine (safe_count (at_some hp)).bind fun _ => ?_
    exact (safe_mapM fun y hy => safe_hold (hc y hy)).bind fun _ => safe_modifyGet

theorem safe_module {path : List Ident} {args : List Value} (hpath : (M g).Path path) (hp : (M g).place p) :
    Safe env M g (module path name args p) := by
  have unknown {t : Trouble} : Safe env M g (failAt t p : Run Answer) := stays_failAt hp
  unfold module
  dsimp only
  split
  · refine stays_failAt ?_
    cases path with
    | nil => exact hp
    | cons i path => exact hpath.places i List.mem_cons_self
  · refine Stays.ite (safe_get.bind fun _ => safe_modify.bind fun _ => ?_) unknown
    split
    · exact unknown
    · exact (safe_check hp).bind fun _ => safe_modify.bind fun _ => stays_pure trivial

theorem safe_course (hp : (M g).place p) : Safe env M g (course v p) := by
  unfold course
  split
  all_goals first | exact stays_pure trivial | exact stays_failAt hp

theorem safe_afterBody {r : Except Signal Value} (h : Settled env M g r) : Safe env M g (afterBody r) := by
  unfold afterBody
  split
  · exact stays_pure trivial
  · exact stays_pure trivial
  · exact stays_pure trivial
  · exact stays_throw h.from

theorem safe_moduleVariable {path : List Ident} (hpath : (M g).Path path) (hp : (M g).place p) :
    Safe env M g (moduleVariable env path name p) := by
  refine safe_get.bind fun m => ?_
  dsimp only
  split
  · exact stays_pure trivial
  · exact stays_failAt (hpath.headPosition hp)

theorem safe_ask {args : List (Value × Position)} (h : ∀ a ∈ args, (M g).place a.2) :
    Safe env M g (ask env name args) := by
  unfold ask
  split
  · exact safe_get.bind fun _ => stays_pure trivial
  · exact stays_failAt (h _ List.mem_cons_self)
  · exact stays_pure trivial
  · exact stays_failAt (h _ (List.mem_cons_of_mem _ List.mem_cons_self))
  · exact stays_failAt (h _ List.mem_cons_self)
  · exact stays_pure trivial

end Steps

end Run

/-! ## 4. Places inside values -/

/-- The places of a step of a chain. -/
def Step.Placed (M : Marks) : Step → Prop
  | .property _ p joint | .method _ _ p joint | .index _ p joint => M.place p ∧ M.place joint.position

/-- The place of an assignment. -/
def Deed.Placed (M : Marks) : Deed → Prop
  | .read => True
  | .assign _ _ p => M.place p

/-- What belongs to no constant has no place of one. -/
theorem unowned : ∀ c ∈ (none : Option Ident), (M g).place c.position := nofun

namespace Deed

variable {deed : Deed} {owner : Option Ident} {target old new : Value} {p q : Position}

theorem settled_newValue {op : Option Operator} (hp : (M g).place p) :
    Settled env M g (newValue op old new p) := by
  unfold newValue
  split
  · exact settled_ok
  · split
    · exact settled_ok
    · exact settled_troubleAt hp

theorem settled_onPlace (hd : deed.Placed (M g)) : Settled env M g (deed.onPlace old).outcome := by
  cases deed with
  | read => exact settled_ok
  | assign op new p =>
    unfold onPlace
    dsimp only
    split
    · exact settled_ok
    · next failed => exact settled_error (settled_newValue hd _ failed)

theorem settled_within {v : Visit} {part : Part} (hp : (M g).place p) (h : Settled env M g v.outcome) :
    Settled env M g (v.within target part p).outcome := by
  unfold Visit.within
  split
  · exact h
  · split
    · exact settled_troubleAt hp
    · next failed => exact settled_error (h _ failed)

theorem settled_atPart {part : Part} (hd : deed.Placed (M g)) (ho : ∀ c ∈ owner, (M g).place c.position) :
    Settled env M g (deed.atPart owner target part).outcome := by
  cases deed with
  | read => exact settled_ok
  | assign op new p =>
    unfold atPart
    dsimp only
    split
    · exact settled_troubleAt (ho _ rfl)
    · exact settled_within hd (settled_onPlace hd)

theorem settled_atIndex {key : Value} {joint : Joint} (hd : deed.Placed (M g))
    (ho : ∀ c ∈ owner, (M g).place c.position) (hp : (M g).place p) (hj : (M g).place joint.position) :
    Settled env M g (deed.atIndex owner target key p joint).outcome := by
  unfold atIndex
  split
  · refine settled_atPart hd ?_
    split
    · exact ho
    · exact nofun
  · exact settled_troubleAt hp
  · exact settled_troubleAt hj

theorem settled_atProperty {name : String} (hd : deed.Placed (M g))
    (ho : ∀ c ∈ owner, (M g).place c.position) (hp : (M g).place p) :
    Settled env M g (deed.atProperty owner target name p).outcome := by
  unfold atProperty
  split
  · exact settled_atPart hd ho
  · dsimp only
    split
    · exact settled_ok
    · exact settled_troubleAt hp
    · exact settled_troubleAt hp
    · split
      · next failed => exact settled_error (settled_newValue hd _ failed)
      · split
        · split
          · exact settled_troubleAt hp
          · exact settled_ok
        · exact settled_troubleAt hp

end Deed

namespace Run

/-- Whatever a visit comes to, its interruption comes from `g`. -/
abbrev Visits (env : Env) (M : Site → Marks) (g : Site) (x : Run Visit) : Prop :=
  Stays env M g x fun v => Settled env M g v.outcome

/-- A visit goes on with the part, if there is one. -/
theorem visits_through {target : Value} {go : Value → Run Visit} (hgo : ∀ v, Visits env M g (go v)) (part : Part)
    (value : Option Value) (hp : (M g).place p) : Visits env M g (
      match value with
      | some v => return (← go v).within target part p
      | none => return { ← go .unit with left := target }) := by
  split
  · exact (hgo _).bind fun v hv => stays_pure (Deed.settled_within hp hv)
  · exact (hgo _).bind fun v hv => stays_pure hv

theorem visits_part {target : Value} {step : Step} {go : Value → Run Visit} (hs : step.Placed (M g))
    (hgo : ∀ v, Visits env M g (go v)) : Visits env M g (visitPart target step go) := by
  unfold visitPart
  dsimp only
  split
  · split
    · exact visits_through hgo _ _ hs.1
    · exact stays_pure (settled_troubleAt hs.1)
    · exact stays_pure (settled_troubleAt hs.2)
  · split
    · exact visits_through hgo _ _ hs.1
    · split
      · exact (hgo _).bind fun v hv => stays_pure (Deed.settled_within hs.1 hv)
      · exact stays_pure (settled_troubleAt hs.1)
  · exact stays_pure settled_ok

/-- The operations of a step have its place, or none. -/
theorem at_of_mem_accesses {target : Value} {step : Step} {p : Option Position} (hs : step.Placed (M g))
    (h : p ∈ step.accesses target) : At M g p := by
  unfold Step.accesses at h
  split at h
  · exact absurd h List.not_mem_nil
  · exact List.mem_singleton.mp h ▸ at_none
  · split at h
    · exact List.mem_singleton.mp h ▸ at_none
    · exact List.mem_singleton.mp h ▸ at_some hs.1

theorem at_of_mem_deedAccesses {deed : Deed} {target : Value} {step : Step} {p : Option Position}
    (hd : deed.Placed (M g)) (hs : step.Placed (M g)) (h : p ∈ deed.accesses target step) : At M g p := by
  unfold Deed.accesses at h
  split at h
  · simp only [List.mem_append] at h
    rcases h with (h | h) | h
    · exact at_of_mem_accesses hs h
    · exact List.eq_of_mem_replicate h ▸ at_some hd
    · split at h
      · exact absurd h List.not_mem_nil
      · exact List.mem_singleton.mp h ▸ at_some hs.1
      · exact absurd h List.not_mem_nil
  · exact at_of_mem_accesses hs h

end Run

end ScriptHost.Script
