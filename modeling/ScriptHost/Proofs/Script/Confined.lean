import ScriptHost.Proofs.Script.Failing

/-!
# Confined — running a function fails in that function

Every part of a body is followed with one unit of fuel more than its own parts.  Nothing is asked of the
machine: where a failure comes from depends on the places in the body and on the functions that may be
called, and on no value.  A function pointer may lead anywhere, but what it leads to is a site of its own.
-/

namespace ScriptHost.Script

open Text (Position)

variable {env : Env} {M : Site → Marks} {g : Site} {α : Type}

namespace Run

/-! ## 1. What is proved of each function of the evaluator -/

/-- What running does with so much fuel. -/
structure Confined (env : Env) (M : Site → Marks) (fuel : Nat) : Prop where
  expr : ∀ {g e}, Expr.Obeys (M g) e → Safe env M g (expr env fuel e)
  compute : ∀ {g e}, Expr.Obeys (M g) e → Safe env M g (compute env fuel e)
  exprs : ∀ {g es}, AllObey (M g) es → Safe env M g (exprs env fuel es)
  entries : ∀ {g es}, EntriesObey (M g) es → Safe env M g (entries env fuel es)
  every : ∀ {g es} goal, AllObey (M g) es → Safe env M g (every env fuel goal es)
  firstOf : ∀ {g es}, AllObey (M g) es → Safe env M g (firstOf env fuel es)
  slots : ∀ {g es}, AllObey (M g) es → Safe env M g (slots env fuel es)
  word : ∀ {g first rest p} w, Expr.Obeys (M g) first → AllObey (M g) rest → (M g).place p →
    Safe env M g (word env fuel w first rest p)
  text : ∀ {p} s, Safe env M (.library "eval") (text env fuel s p)
  call : ∀ {g args p} name, AllObey (M g) args → (M g).place p → Safe env M g (call env fuel name args p)
  enter : ∀ {g f p} {name : String} {n : Nat} args, env.functions name n = some f → At M g p →
    Safe env M g (enter env fuel f args p)
  function : ∀ {g h f callee p} this isConstant args, callee.Leaves env.functions h → BodyObeys (M h) f.body →
    At M g p → Stays env M g (function env fuel f callee this isConstant args p) fun r => Settled env M g r.1
  apply : ∀ {g p} f isConstant w, (M g).place p →
    Stays env M g (apply env fuel f isConstant w p) fun r => Settled env M g r.1
  service : ∀ {g p} name args, (M g).place p → Safe env M g (service env fuel name args p)
  respond : ∀ {g p} name r, (M g).place p → Safe env M g (respond env fuel name p r)
  chain : ∀ {g root links deed}, Expr.Obeys (M g) root → LinksObey (M g) links → Deed.Placed (M g) deed →
    Safe env M g (chain env fuel root links deed)
  loneStep : ∀ {g link}, Link.Obeys (M g) link → Stays env M g (loneStep env fuel link) (Step.Placed (M g))
  steps : ∀ {g links}, LinksObey (M g) links →
    Stays env M g (steps env fuel links) fun ss => ∀ s ∈ ss, s.Placed (M g)
  visit : ∀ {g ss deed} {owner : Option Ident} target, (∀ c ∈ owner, (M g).place c.position) →
    (∀ s ∈ ss, s.Placed (M g)) → Deed.Placed (M g) deed →
      Visits env M g (visit env fuel owner target ss deed)
  method : ∀ {g p} isConstant target name args, (M g).place p →
    Stays env M g (method env fuel isConstant target name args p) fun r => Settled env M g r.1
  named : ∀ {g p} isConstant target name args, (M g).place p →
    Stays env M g (named env fuel isConstant target name args p) fun r => Settled env M g r.1
  block : ∀ {g body}, BodyObeys (M g) body → Safe env M g (block env fuel body)
  stmts : ∀ {g body} last, BodyObeys (M g) body → Safe env M g (stmts env fuel body last)
  stmt : ∀ {g s}, Stmt.Obeys (M g) s → Safe env M g (stmt env fuel s)
  assignTo : ∀ {g target p} op v, Expr.Obeys (M g) target → (M g).place p →
    Safe env M g (assignTo env fuel target op v p)
  select : ∀ {g cases} v, CasesObey (M g) cases → Safe env M g (select env fuel v cases)
  firstCase : ∀ {g cases}, CasesObey (M g) cases → Safe env M g (firstCase env fuel cases)
  forever : ∀ {g body q}, BodyObeys (M g) body → (M g).place q → Safe env M g (forever env fuel body q)
  guarded : ∀ {g guard body q}, Expr.Obeys (M g) guard → BodyObeys (M g) body → (M g).place q →
    Safe env M g (guarded env fuel guard body q)
  guardedBehind : ∀ {g body guard q} goal, BodyObeys (M g) body → Expr.Obeys (M g) guard → (M g).place q →
    Safe env M g (guardedBehind env fuel body guard goal q)
  each : ∀ {g body q} name counter i course, BodyObeys (M g) body → (M g).place q →
    Safe env M g (each env fuel name counter i course body q)

/-! ## 2. Expressions, chains and statements -/

section Functions

variable {fuel : Nat} {e : Expr} {es : List Expr} {p q : Position} {ss : List Stmt}

/-- A call that runs out of fuel. -/
theorem stays_exhausted {Q : α → Prop} : Stays env M g (throw .exhausted : Run α) Q := stays_throw trivial

variable (ih : Confined env M fuel)
include ih

theorem confined_expr (h : e.Obeys (M g)) : Safe env M g (expr env (fuel + 1) e) :=
  (safe_count (at_some h.position)).bind fun _ => ih.compute h

theorem confined_compute (h : e.Obeys (M g)) : Safe env M g (compute env (fuel + 1) e) := by
  cases e with
  | constant v p => exact stays_pure trivial
  | template parts p => exact (ih.exprs h.1).bind fun _ => stays_pure trivial
  | array items p => exact (ih.exprs h.1).bind fun _ => stays_pure trivial
  | map entries p => exact (ih.entries h.1).bind fun _ => stays_pure trivial
  | var name p => exact (safe_lookup h).bind fun _ => stays_pure trivial
  | this p =>
    refine safe_get.bind fun m => ?_
    split
    · exact stays_pure trivial
    · exact stays_failAt h
  | prefixed sign e p => exact (ih.expr h.1).bind fun _ => safe_check h.2
  | binary op a b p =>
    refine (ih.expr h.1).bind fun _ => (ih.expr h.2.1).bind fun _ => ?_
    exact Stays.ite ((safe_count (at_some h.2.2)).bind fun _ => safe_check h.2.2) (safe_check h.2.2)
  | and parts p => exact (ih.every true h.1).bind fun _ => stays_pure trivial
  | or parts p => exact (ih.every false h.1).bind fun _ => stays_pure trivial
  | coalesce parts p => exact ih.firstOf h.1
  | contains container item p =>
    refine (ih.expr h.1).bind fun _ => (ih.expr h.2.1).bind fun _ => ?_
    split
    · next found => exact ih.enter _ found (at_some h.2.2)
    · exact (safe_library h.2.2).bind fun _ => stays_pure trivial
  | call function args p => exact ih.call function h.1 h.2
  | moduleCall path name args p =>
    exact (ih.exprs h.2.1).bind fun _ => (safe_module h.1 h.2.2).bind fun _ => stays_pure trivial
  | moduleVariable path name p => exact safe_moduleVariable h.1 h.2
  | chain root links => exact ih.chain h.1 h.2 trivial
  | block body p => exact ih.block h.1
  | closure params captures body p => exact safe_close h.1 h.2.2

theorem confined_exprs (h : AllObey (M g) es) : Safe env M g (exprs env (fuel + 1) es) := by
  cases es with
  | nil => exact stays_pure trivial
  | cons e es => exact (ih.expr h.1).bind fun _ => (ih.exprs h.2).bind fun _ => stays_pure trivial

theorem confined_entries {es : List (String × Expr)} (h : EntriesObey (M g) es) :
    Safe env M g (entries env (fuel + 1) es) := by
  cases es with
  | nil => exact stays_pure trivial
  | cons e es => exact (ih.expr h.1).bind fun _ => (ih.entries h.2).bind fun _ => stays_pure trivial

theorem confined_every (goal : Bool) (h : AllObey (M g) es) :
    Safe env M g (every env (fuel + 1) goal es) := by
  cases es with
  | nil => exact stays_pure trivial
  | cons e es =>
    refine (ih.expr h.1).bind fun _ => (safe_truth h.1.position).bind fun _ => ?_
    exact Stays.ite (ih.every goal h.2) (stays_pure trivial)

theorem confined_firstOf (h : AllObey (M g) es) : Safe env M g (firstOf env (fuel + 1) es) := by
  cases es with
  | nil => exact stays_pure trivial
  | cons e es => exact (ih.expr h.1).bind fun _ => Stays.ite (ih.firstOf h.2) (stays_pure trivial)

theorem confined_slots (h : AllObey (M g) es) : Safe env M g (slots env (fuel + 1) es) := by
  cases es with
  | nil => exact stays_pure trivial
  | cons e es =>
    have further (slot : Slot) : Safe env M g (do
        let slots ← slots env fuel es
        return slot :: slots) :=
      (ih.slots h.2).bind fun _ => stays_pure trivial
    unfold slots
    split
    · next x q =>
      refine (safe_count (at_some h.1)).bind fun _ => (safe_find h.1).bind fun _ => ?_
      exact Safe.bind (stays_pure trivial) further
    · exact Safe.bind ((ih.expr h.1).bind fun _ => stays_pure trivial) further

theorem confined_word {first : Expr} {rest : List Expr} (w : Word) (hf : first.Obeys (M g))
    (hr : AllObey (M g) rest) (hp : (M g).place p) : Safe env M g (word env (fuel + 1) w first rest p) := by
  have unfit {t : Trouble} : Safe env M g (failAt t first.startPosition : Run Value) :=
    stays_failAt hf.startPosition
  unfold word
  split
  · exact (safe_count (at_some hf)).bind fun _ => (safe_find hf).bind fun _ => stays_pure trivial
  · exact (ih.expr hf).discard.bind fun _ => stays_pure trivial
  · exact (ih.expr hf).bind fun _ => safe_pointTo hf.startPosition
  · refine (ih.expr hf).bind fun v => ?_
    split
    · exact (ih.text _).settle.bind fun _ hr => safe_resume (settled_leaveLibrary hr)
    · exact unfit
  · refine (ih.expr hf).bind fun v => ?_
    split
    · exact (ih.slots hr).bind fun _ => safe_curry
    · exact unfit
  · refine (ih.expr hf).bind fun v => ?_
    split
    · exact (ih.exprs hr).bind fun _ => (ih.apply _ false _ hp).bind fun _ hr => safe_resume hr
    · exact unfit

theorem confined_text (placed : env.Obeys M) (s : String) :
    Safe env M (.library "eval") (text env (fuel + 1) s p) := by
  refine (safe_count placed.at_library).bind fun _ => Stays.ite (stays_pure trivial) ?_
  split
  · exact stays_throw (Failure.From.here placed.at_library)
  · next body _ => exact ih.stmts .unit (placed.library "eval" ▸ bodyObeys_free body)

/-- A call by name that is no question: of a function of the script, or of the library. -/
theorem confined_callee {name : String} {args : List Expr} (vs : List Value) (hp : (M g).place p)
    {finish : Answer → Run Value} (hf : ∀ a, Safe env M g (finish a)) :
    Safe env M g (
      match env.functions name args.length with
      | some f => enter env fuel f vs (some p)
      | none => service env fuel name vs p >>= finish) := by
  split
  · next found => exact ih.enter _ found (at_some hp)
  · exact (ih.service name vs hp).bind hf

theorem confined_call {args : List Expr} (name : String) (h : AllObey (M g) args) (hp : (M g).place p) :
    Safe env M g (call env (fuel + 1) name args p) := by
  unfold call
  dsimp only
  split
  · refine (ih.exprs h).bind fun vs => safe_ask fun a ha => ?_
    obtain ⟨e, he, place⟩ := List.mem_map.mp (List.of_mem_zip (a := a.1) (b := a.2) ha).2
    exact place ▸ (allObey_iff.mp h e he).startPosition
  · split
    · exact ih.word _ h.1 h.2 hp
    · next x q rest _ =>
      refine (ih.exprs h.2).bind fun vs => (safe_count (at_some h.1)).bind fun _ => ?_
      refine (safe_find h.1).bind fun y => safe_get.bind fun m => ?_
      refine confined_callee ih _ hp fun a => ?_
      split
      · exact Stays.ite (safe_modify.bind fun _ => stays_pure trivial) (stays_pure trivial)
      · exact stays_pure trivial
    · next q rest _ =>
      refine (ih.exprs h.2).bind fun vs => (safe_count (at_some h.1)).bind fun _ => ?_
      refine safe_get.bind fun m => ?_
      split
      · exact stays_failAt h.1
      · refine confined_callee ih _ hp fun a => ?_
        split
        · exact safe_modify.bind fun _ => stays_pure trivial
        · exact stays_pure trivial
    · refine (ih.exprs h).bind fun vs => ?_
      exact confined_callee ih _ hp fun a => stays_pure trivial

theorem confined_enter (placed : env.Obeys M) {f : Function} {p : Option Position} {name : String} {n : Nat}
    (args : List Value) (found : env.functions name n = some f) (hp : At M g p) :
    Safe env M g (enter env (fuel + 1) f args p) :=
  safe_modify.bind fun _ => (ih.function none false _ (.function found) (placed.functions found) hp).bind
    fun _ hr => safe_modify.bind fun _ => safe_resume hr

omit ih in
/-- What leaves a site comes from the caller. -/
theorem settled_leaveFunction {h : Site} {callee : Callee} {p : Option Position} {r : Except Signal Value}
    (leaves : callee.Leaves env.functions h) (hp : At M g p) (hr : Settled env M h r) :
    Settled env M g (leaveFunction callee p r) := by
  unfold leaveFunction
  split
  · exact settled_ok
  · exact settled_ok
  · refine settled_error ?_
    split
    · next failure limit =>
      cases failure with
      | raised t q => exact Failure.From.here hp
      | inFunction callee inner q => exact absurd limit Bool.false_ne_true
    · exact Failure.From.inside leaves hr.from
  · next s _ other =>
    refine settled_error ?_
    cases s with
    | failed failure => exact absurd rfl (other failure)
    | _ => exact trivial

theorem confined_function {h : Site} {f : Function} {callee : Callee} {p : Option Position}
    (this : Option Value) (isConstant : Bool) (args : List Slot) (leaves : callee.Leaves env.functions h)
    (hb : BodyObeys (M h) f.body) (hp : At M g p) :
    Stays env M g (function env (fuel + 1) f callee this isConstant args p) fun r => Settled env M g r.1 := by
  refine Stays.ite (stays_pure settled_ok) ?_
  refine (safe_count hp).settle.bind fun r hr => ?_
  split
  · exact stays_pure (settled_error hr.from)
  · refine safe_get.bind fun caller => Stays.ite (stays_pure ?_) ?_
    · exact settled_error (Failure.From.here hp)
    · have body : Safe env M h (stmts env fuel f.body .unit) := ih.stmts .unit hb
      refine safe_set.bind fun _ => body.settle.bind fun r hr => safe_modifyGet.bind fun _ => ?_
      exact stays_pure (settled_leaveFunction leaves hp hr)

theorem confined_apply (placed : env.Obeys M) (f : Pointer) (isConstant : Bool) (w : Way)
    (hp : (M g).place p) :
    Stays env M g (apply env (fuel + 1) f isConstant w p) fun r => Settled env M g r.1 := by
  refine safe_get.bind fun m => ?_
  dsimp only
  split
  · next c _ =>
    have body : BodyObeys (M (.closure c.position)) c.function.body :=
      placed.closures c.position ▸ bodyObeys_free c.body
    exact safe_modify.bind fun _ => (ih.function w.this isConstant _ .closure body (at_some hp)).bind fun _ hr =>
      safe_modify.bind fun _ => stays_pure hr
  · split
    · exact (ih.named isConstant _ f.name _ hp).bind fun _ hr => stays_pure hr
    · next found => exact (ih.enter _ found (at_some hp)).settle.bind fun _ hr => stays_pure hr
    · have called (args : List Value) : Safe env M g (Answer.value <$> service env fuel f.name args p) :=
        (ih.service f.name args hp).bind fun _ => stays_pure trivial
      exact (called _).settle.bind fun _ hr => stays_pure hr

theorem confined_service (name : String) (args : List Value) (hp : (M g).place p) :
    Safe env M g (service env (fuel + 1) name args p) := by
  unfold service
  split
  · exact safe_library hp
  · exact (safe_count (at_some hp)).bind fun _ => safe_errand (fun r => ih.respond name r hp) _

theorem confined_respond (placed : env.Obeys M) (name : String) (r : Request) (hp : (M g).place p) :
    Safe env M g (respond env (fuel + 1) name p r) := by
  have freely : (M (.library name)).place p := placed.library name ▸ trivial
  refine safe_get.bind fun m => ?_
  refine (stays_serve (fun w => ih.apply _ false w hp) fun w => ih.apply _ false w freely).bind fun _ hr => ?_
  exact safe_modify.bind fun _ => (safe_learn hr).bind fun _ => stays_pure trivial

/-- The links of a chain are taken before the chain is followed. -/
theorem confined_taken {links : List Link} {follow : List Step → Run Value} :
    LinksObey (M g) links → (∀ ss, (∀ s ∈ ss, s.Placed (M g)) → Safe env M g (follow ss)) →
    Safe env M g (
      match links with
      | [link] => do
        let step ← loneStep env fuel link
        let ss ← pure [step]
        follow ss
      | links => do
        let ss ← steps env fuel links
        follow ss) := by
  intro hl hf
  split
  · refine (ih.loneStep hl.1).bind fun s hs => ?_
    exact Stays.bind (stays_pure (List.forall_mem_singleton.mpr hs)) hf
  · exact (ih.steps hl).bind hf

theorem confined_chain {root : Expr} {links : List Link} {deed : Deed} (h : root.Obeys (M g))
    (hl : LinksObey (M g) links) (hd : deed.Placed (M g)) :
    Safe env M g (chain env (fuel + 1) root links deed) := by
  have owner {isConstant : Bool} {name : String} {q : Position} (hq : (M g).place q) :
      ∀ c ∈ if isConstant then some (⟨name, q⟩ : Ident) else none, (M g).place c.position := by
    intro c hc
    split at hc
    · exact Option.some.inj hc ▸ hq
    · exact nomatch hc
  unfold chain
  dsimp only
  refine confined_taken ih hl fun ss hs => ?_
  split
  · refine (safe_count (at_some h)).bind fun _ => safe_get.bind fun m => ?_
    split
    · exact stays_failAt h
    · refine (ih.visit _ (owner h) hs hd).bind fun v hv => safe_modify.bind fun _ => safe_resume hv
  · refine (safe_count (at_some h)).bind fun _ => (safe_find h).bind fun x => ?_
    refine Stays.ite (stays_pure trivial) (safe_get.bind fun m => ?_)
    exact (ih.visit _ (owner h) hs hd).bind fun v hv => safe_modify.bind fun _ => safe_resume hv
  · exact (ih.expr h).bind fun _ => (ih.visit _ unowned hs hd).bind fun v hv => safe_resume hv

theorem confined_step {link : Link} : link.Obeys (M g) → Stays env M g (
    match link with
    | .property name p joint => return .property name p joint
    | .method name args p joint => return .method name (← exprs env fuel args) p joint
    | .index (.constant v p) joint => return .index v p joint
    | .index key joint => return .index (← expr env fuel key) key.startPosition joint : Run Step)
    (Step.Placed (M g)) := by
  intro h
  split
  · exact stays_pure h
  · exact (ih.exprs h.1).bind fun _ => stays_pure h.2
  · exact stays_pure h
  · exact (ih.expr h.1).bind fun _ => stays_pure ⟨Expr.Obeys.startPosition h.1, h.2⟩

theorem confined_loneStep {link : Link} (h : link.Obeys (M g)) :
    Stays env M g (loneStep env (fuel + 1) link) (Step.Placed (M g)) :=
  Stays.ite ((safe_count (at_some h.position)).bind fun _ => confined_step ih h) (confined_step ih h)

theorem confined_steps {links : List Link} (h : LinksObey (M g) links) :
    Stays env M g (steps env (fuel + 1) links) fun ss => ∀ s ∈ ss, s.Placed (M g) := by
  cases links with
  | nil => exact stays_pure (List.forall_mem_nil _)
  | cons link links =>
    have joint : (M g).place ((links.head?.map fun l => l.joint.position).getD link.position) := by
      cases links with
      | nil => exact h.1.position
      | cons l ls => exact Link.Obeys.joint h.2.1
    have further {s : Step} (hs : s.Placed (M g)) : Stays env M g (do
        let ss ← steps env fuel links
        return s :: ss) fun ss => ∀ s ∈ ss, s.Placed (M g) :=
      (ih.steps h.2).bind fun ss hss => stays_pure (List.forall_mem_cons.mpr ⟨hs, hss⟩)
    refine (safe_count (at_some joint)).bind fun _ => ?_
    split
    · exact Stays.bind (stays_pure h.1) fun _ => further
    · exact (ih.exprs h.1.1).bind fun _ => Stays.bind (stays_pure h.1.2) fun _ => further
    · exact (ih.expr h.1.1).bind fun _ =>
        Stays.bind (stays_pure ⟨Expr.Obeys.startPosition h.1.1, h.1.2⟩) fun _ => further

theorem confined_visit {owner : Option Ident} {steps : List Step} {deed : Deed} (target : Value)
    (ho : ∀ c ∈ owner, (M g).place c.position) (hs : ∀ s ∈ steps, s.Placed (M g)) (hd : deed.Placed (M g)) :
    Visits env M g (visit env (fuel + 1) owner target steps deed) := by
  cases steps with
  | nil => exact stays_pure (Deed.settled_onPlace hd)
  | cons step rest =>
    obtain ⟨hstep, hrest⟩ := List.forall_mem_cons.mp hs
    refine Stays.ite (stays_pure settled_ok) ?_
    -- The last step is counted with what is done at its end, any other by itself.
    have counted : Stays env M g (settle
        ((if rest.isEmpty then deed.accesses target step else step.accesses target).forM (count env)))
        (Settled env M g) := by
      refine (safe_forM fun p hp => safe_count ?_).settle
      split at hp
      · exact at_of_mem_deedAccesses hd hstep hp
      · exact at_of_mem_accesses hstep hp
    cases step with
    | method name args p joint =>
      refine (ih.method owner.isSome target name args hstep.1).bind fun (r, left) hr => ?_
      cases r with
      | error s => exact stays_pure hr
      | ok v =>
        refine Stays.ite (stays_pure settled_ok) ?_
        exact (ih.visit v unowned hrest hd).bind fun _ hv => stays_pure hv
    | property name p joint =>
      refine counted.bind fun r hr => ?_
      cases r with
      | error s => exact stays_pure (settled_error hr.from)
      | ok _ =>
        cases rest with
        | nil => exact stays_pure (Deed.settled_atProperty hd ho hstep.1)
        | cons => exact visits_part hstep fun v => ih.visit v ho hrest hd
    | index key p joint =>
      refine counted.bind fun r hr => ?_
      cases r with
      | error s => exact stays_pure (settled_error hr.from)
      | ok _ =>
        cases rest with
        | nil => exact stays_pure (Deed.settled_atIndex hd ho hstep.1 hstep.2)
        | cons => exact visits_part hstep fun v => ih.visit v ho hrest hd

theorem confined_method (isConstant : Bool) (target : Value) (name : String) (args : List Value)
    (hp : (M g).place p) :
    Stays env M g (method env (fuel + 1) isConstant target name args p) fun r => Settled env M g r.1 := by
  unfold method
  split
  · exact stays_pure settled_ok
  · exact safe_curry.bind fun _ => stays_pure settled_ok
  · exact stays_pure (settled_troubleAt hp)
  · exact (ih.apply _ false _ hp).bind fun _ hr => stays_pure hr
  · exact (ih.apply _ isConstant _ hp).bind fun _ hr => stays_pure hr
  · exact stays_pure (settled_troubleAt hp)
  · split
    · exact (ih.apply _ isConstant _ hp).bind fun _ hr => stays_pure hr
    · exact ih.named isConstant _ _ _ hp

theorem confined_named (placed : env.Obeys M) (isConstant : Bool) (target : Value) (name : String)
    (args : List Value) (hp : (M g).place p) :
    Stays env M g (named env (fuel + 1) isConstant target name args p) fun r => Settled env M g r.1 := by
  unfold named
  dsimp only
  split
  · next found =>
    have body := placed.functions found
    exact safe_modify.bind fun _ => (ih.function _ isConstant _ (.function found) body (at_some hp)).bind
      fun r hr => safe_modify.bind fun _ => stays_pure hr
  · have called : Safe env M g (do
        ensureChangeable env isConstant name (target :: args) p
        service env fuel name (target :: args) p) :=
      (safe_ensureChangeable hp).bind fun _ => ih.service name _ hp
    refine called.settle.bind fun r hr => ?_
    split
    · exact stays_pure (settled_error hr.from)
    · exact stays_pure settled_ok

theorem confined_block (h : BodyObeys (M g) ss) : Safe env M g (block env (fuel + 1) ss) :=
  safe_get.bind fun _ => (ih.stmts .unit h).settle.bind fun _ hr =>
    safe_modify.bind fun _ => safe_resume hr

theorem confined_stmts (last : Value) (h : BodyObeys (M g) ss) :
    Safe env M g (stmts env (fuel + 1) ss last) := by
  cases ss with
  | nil => exact stays_pure trivial
  | cons s ss => exact (ih.stmt h.1).bind fun v => ih.stmts v h.2

theorem confined_assignTo {target : Expr} (op : Option Operator) (v : Value) (h : target.Obeys (M g))
    (hp : (M g).place p) : Safe env M g (assignTo env (fuel + 1) target op v p) := by
  have combined (old : Value) (store : Value → Run Unit) (hs : ∀ v, Safe env M g (store v)) :
      Safe env M g (do
        countCalls env op old v p
        let new ← resume (Deed.newValue op old v p)
        store new) :=
    (safe_countCalls hp).bind fun _ => (safe_resume (Deed.settled_newValue hp)).bind fun v => hs v
  unfold assignTo
  dsimp only
  split
  · next x q =>
    refine (safe_lookup h).bind fun old => Stays.ite (Safe.bind (stays_failAt h) fun _ => ?_) ?_
    · exact combined _ _ fun _ => safe_modify
    · exact combined _ _ fun _ => safe_modify
  · refine safe_get.bind fun m => Stays.ite (Safe.bind (stays_failAt h) fun _ => ?_) ?_
    · exact combined _ _ fun _ => safe_modify
    · exact combined _ _ fun _ => safe_modify
  · next root links =>
    have hd : (Deed.assign op v p).Placed (M g) := hp
    exact (ih.chain h.1 h.2 hd).discard
  · exact (safe_moduleVariable h.1 h.2).discard.bind fun _ => stays_failAt h.2
  · exact stays_throw trivial

theorem confined_select {cases : List Case} (v : Value) (h : CasesObey (M g) cases) :
    Safe env M g (select env (fuel + 1) v cases) := by
  refine ih.firstCase (casesObey_iff.mpr fun c hc => ?_)
  simp only [List.mem_append, List.mem_filter] at hc
  rcases hc with (hc | hc) | hc <;> exact casesObey_iff.mp h c hc.1

theorem confined_firstCase {cases : List Case} (h : CasesObey (M g) cases) :
    Safe env M g (firstCase env (fuel + 1) cases) := by
  cases cases with
  | nil => exact stays_pure trivial
  | cons c rest =>
    obtain ⟨patterns, guard, action⟩ := c
    cases guard with
    | none => exact ih.expr h.1.2
    | some guard =>
      refine (ih.expr h.1.1).bind fun _ => (safe_truth (Expr.Obeys.position h.1.1)).bind fun _ => ?_
      exact Stays.ite (ih.expr h.1.2) (ih.firstCase h.2)

theorem confined_forever (h : BodyObeys (M g) ss) (hq : (M g).place q) :
    Safe env M g (forever env (fuel + 1) ss q) := by
  refine (safe_count (at_some hq)).bind fun _ => (ih.block h).settle.bind fun _ hr =>
    (safe_afterBody hr).bind fun left => ?_
  cases left with
  | some v => exact stays_pure trivial
  | none => exact ih.forever h hq

theorem confined_guarded {guard : Expr} (hg : guard.Obeys (M g)) (h : BodyObeys (M g) ss)
    (hq : (M g).place q) : Safe env M g (guarded env (fuel + 1) guard ss q) := by
  refine (ih.expr hg).bind fun _ => (safe_truth hg.position).bind fun _ => ?_
  refine Stays.ite ?_ (stays_pure trivial)
  refine (safe_count (at_some hq)).bind fun _ => (ih.block h).settle.bind fun _ hr =>
    (safe_afterBody hr).bind fun left => ?_
  cases left with
  | some v => exact stays_pure trivial
  | none => exact ih.guarded hg h hq

theorem confined_guardedBehind {guard : Expr} (goal : Bool) (h : BodyObeys (M g) ss)
    (hg : guard.Obeys (M g)) (hq : (M g).place q) :
    Safe env M g (guardedBehind env (fuel + 1) ss guard goal q) := by
  refine (safe_count (at_some hq)).bind fun _ => (ih.block h).settle.bind fun r hr => ?_
  split
  · exact ih.guardedBehind goal h hg hq
  · exact stays_pure trivial
  · exact stays_throw hr.from
  · refine (ih.expr hg).bind fun _ => (safe_truth hg.position).bind fun _ => ?_
    exact Stays.ite (ih.guardedBehind goal h hg hq) (stays_pure trivial)

/-- One turn of a loop, and the turns behind it. -/
theorem confined_turn (name : String) (counter : Option String) (i n : Nat) (v : Value) (c : Course)
    (h : BodyObeys (M g) ss) (hq : (M g).place q) :
    Safe env M g (do
      declare name v false
      count env (some q)
      let r ← settle (block env fuel ss)
      rewind n
      match ← afterBody r with
      | some v => return v
      | none => each env fuel name counter (i + 1) c ss q) := by
  refine safe_modify.bind fun _ => (safe_count (at_some hq)).bind fun _ => ?_
  refine (ih.block h).settle.bind fun r hr => ?_
  refine safe_modify.bind fun _ => (safe_afterBody hr).bind fun left => ?_
  cases left with
  | some v => exact stays_pure trivial
  | none => exact ih.each name counter (i + 1) c h hq

theorem confined_each (name : String) (counter : Option String) (i : Nat) (c : Course)
    (h : BodyObeys (M g) ss) (hq : (M g).place q) :
    Safe env M g (each env (fuel + 1) name counter i c ss q) := by
  unfold each
  dsimp only
  split
  · exact stays_pure trivial
  · next v c next =>
    refine safe_get.bind fun m => ?_
    have turn := confined_turn ih name counter i m.scope.length v c h hq
    split
    · exact safe_modify.bind fun _ => turn
    · exact turn

/-- The handler of a failure, which it may throw again. -/
theorem confined_handler {failure : Failure} {handler : List Stmt} (hh : BodyObeys (M g) handler) (n : Nat)
    (hr : Settled env M g (.error (.failed failure) : Except Signal Value)) :
    Safe env M g (do
      let r ← settle (block env fuel handler)
      rewind n
      match r with
      | .ok _ => return Value.unit
      | .error (.failed (.raised (.thrown .unit) p)) => throw (.failed (failure.moveTo p))
      | .error s => throw s) := by
  refine (ih.block hh).settle.bind fun r hr' => safe_modify.bind fun _ => ?_
  split
  · exact stays_pure trivial
  · -- A failure that is thrown again keeps its origin and takes the new place.
    exact stays_throw (Failure.From.moveTo hr.from (Failure.From.at hr'.from))
  · exact stays_throw hr'.from

theorem confined_attempt {name : Option Ident} {handler : List Stmt} (h : BodyObeys (M g) ss)
    (hh : BodyObeys (M g) handler) (hp : (M g).place p) :
    Safe env M g (stmt env (fuel + 1) (.attempt ss name handler p)) := by
  refine (safe_count (at_some hp)).bind fun _ => (ih.block h).settle.bind fun r hr => ?_
  split
  · exact stays_pure trivial
  · next failure =>
    refine Stays.ite (Safe.bind (stays_throw hr.from) fun _ => ?_) ?_
    all_goals
      refine safe_get.bind fun m => ?_
      dsimp only
      split
      · exact safe_modify.bind fun _ => confined_handler ih hh _ hr
      · exact confined_handler ih hh _ hr
  · exact stays_throw hr.from

theorem confined_stmt {s : Stmt} (h : s.Obeys (M g)) : Safe env M g (stmt env (fuel + 1) s) := by
  have counted : Safe env M g (count env (some s.position)) := safe_count (at_some h.position)
  cases s with
  | skip p => exact counted.bind fun _ => stays_pure trivial
  | expr e => exact counted.bind fun _ => Stays.ite (ih.compute h) (ih.expr h)
  | define name isConstant value p =>
    refine counted.bind fun _ => ?_
    cases value with
    | none => exact (safe_count at_none).bind fun _ => safe_modify.bind fun _ => stays_pure trivial
    | some e => exact (ih.expr h.1).bind fun _ => safe_modify.bind fun _ => stays_pure trivial
  | assign target op value p =>
    have assigned : Safe env M g (do
        let v ← expr env fuel value
        assignTo env fuel target op v p
        return Value.unit) :=
      (ih.expr h.2.1).bind fun v => (ih.assignTo op v h.1 h.2.2).bind fun _ => stays_pure trivial
    refine counted.bind fun _ => ?_
    dsimp only
    -- An assignment to `this` fails before its value is computed where there is none.
    split
    · refine safe_get.bind fun m => Stays.ite (Safe.bind (stays_failAt h.1) fun _ => assigned) assigned
    · exact assigned
  | block body p => exact counted.bind fun _ => ih.block h.1
  | branch guard yes no p =>
    refine counted.bind fun _ => (ih.expr h.1).bind fun _ => ?_
    refine (safe_truth (Expr.Obeys.position h.1)).bind fun _ => ?_
    exact Stays.ite (ih.block h.2.1) (ih.block h.2.2.1)
  | select subject cases p =>
    exact counted.bind fun _ => (ih.expr h.1).bind fun v => ih.select v h.2.1
  | loop guard body q p =>
    cases guard with
    | none => exact counted.bind fun _ => ih.forever h.2.1 h.2.2.1
    | some guard => exact counted.bind fun _ => ih.guarded h.1 h.2.1 h.2.2.1
  | loopThen body guard goal q p => exact counted.bind fun _ => ih.guardedBehind goal h.1 h.2.1 h.2.2.1
  | each name counter source body q p =>
    refine counted.bind fun _ => (ih.expr h.1).bind fun _ =>
      (safe_course (Expr.Obeys.startPosition h.1)).bind fun c => safe_get.bind fun _ => ?_
    exact (ih.each name.name (counter.map Ident.name) 0 c h.2.1 h.2.2.1).settle.bind fun r hr =>
      safe_modify.bind fun _ => safe_resume hr
  | leave value p =>
    refine counted.bind fun _ => ?_
    cases value with
    | none => exact stays_throw trivial
    | some e => exact (ih.expr h.1).bind fun _ => stays_throw trivial
  | proceed p => exact counted.bind fun _ => stays_throw trivial
  | ret value p =>
    refine counted.bind fun _ => ?_
    cases value with
    | none => exact stays_throw trivial
    | some e => exact (ih.expr h.1).bind fun _ => stays_throw trivial
  | throw value p =>
    refine counted.bind fun _ => ?_
    cases value with
    | none => exact stays_failAt h.2
    | some e => exact (ih.expr h.1).bind fun _ => stays_failAt h.2
  | attempt body name handler p => exact confined_attempt ih h.1 h.2.1 h.2.2
  | obtain path p =>
    refine counted.bind fun _ => (ih.expr h.1).bind fun v => ?_
    -- No module is ever found, so this fails, at one of two places.
    split
    · exact stays_failAt (Expr.Obeys.startPosition h.1)
    · exact stays_failAt (Expr.Obeys.position h.1)
  | offer name p => exact counted.bind fun _ => (safe_lookup h.1).discard.bind fun _ => stays_pure trivial

end Functions

/-! ## 3. All of them -/

/-- Without fuel nothing runs, and nothing fails. -/
theorem confined_zero : Confined env M 0 where
  expr _ := stays_exhausted
  compute _ := stays_exhausted
  exprs {g es} _ := by
    cases es with
    | nil => exact stays_pure trivial
    | cons => exact stays_exhausted
  entries {g es} _ := by
    cases es with
    | nil => exact stays_pure trivial
    | cons => exact stays_exhausted
  every {g es} _ _ := by
    cases es with
    | nil => exact stays_pure trivial
    | cons => exact stays_exhausted
  firstOf {g es} _ := by
    cases es with
    | nil => exact stays_pure trivial
    | cons => exact stays_exhausted
  slots {g es} _ := by
    cases es with
    | nil => exact stays_pure trivial
    | cons => exact stays_exhausted
  word _ _ _ _ := stays_exhausted
  text _ := stays_exhausted
  call _ _ _ := stays_exhausted
  enter _ _ _ := stays_exhausted
  function _ _ _ _ _ _ := stays_pure (settled_error (s := .exhausted) trivial)
  apply _ _ _ _ := stays_pure (settled_error (s := .exhausted) trivial)
  service _ _ _ := stays_exhausted
  respond _ _ _ := stays_exhausted
  chain _ _ _ := stays_exhausted
  loneStep _ := stays_exhausted
  steps {g links} _ := by
    cases links with
    | nil => exact stays_pure (List.forall_mem_nil _)
    | cons => exact stays_exhausted
  visit _ _ _ _ := stays_pure (settled_error (s := .exhausted) trivial)
  method _ _ _ _ _ := stays_pure (settled_error (s := .exhausted) trivial)
  named _ _ _ _ _ := stays_pure (settled_error (s := .exhausted) trivial)
  block _ := stays_exhausted
  stmts {g body} _ _ := by
    cases body with
    | nil => exact stays_pure trivial
    | cons => exact stays_exhausted
  stmt _ := stays_exhausted
  assignTo _ _ _ _ := stays_exhausted
  select _ _ := stays_exhausted
  firstCase {g cases} _ := by
    cases cases with
    | nil => exact stays_pure trivial
    | cons => exact stays_exhausted
  forever _ _ := stays_exhausted
  guarded _ _ _ := stays_exhausted
  guardedBehind _ _ _ _ := stays_exhausted
  each _ _ _ _ _ _ := stays_exhausted

/-- Where the functions of a script obey their marks, running one of them fails at its own places or at sites
    that it enters. -/
theorem confined (placed : env.Obeys M) (fuel : Nat) : Confined env M fuel := by
  -- On the fuel: each part of a run is run with one step less.
  induction fuel with
  | zero => exact confined_zero
  | succ fuel ih => exact {
      expr := confined_expr ih
      compute := confined_compute ih
      exprs := confined_exprs ih
      entries := confined_entries ih
      every := confined_every ih
      firstOf := confined_firstOf ih
      slots := confined_slots ih
      word := confined_word ih
      text := confined_text ih placed
      call := confined_call ih
      enter := confined_enter ih placed
      function := confined_function ih
      apply := confined_apply ih placed
      service := confined_service ih
      respond := confined_respond ih placed
      chain := confined_chain ih
      loneStep := confined_loneStep ih
      steps := confined_steps ih
      visit := confined_visit ih
      method := confined_method ih
      named := confined_named ih placed
      block := confined_block ih
      stmts := confined_stmts ih
      stmt := confined_stmt ih
      assignTo := confined_assignTo ih
      select := confined_select ih
      firstCase := confined_firstCase ih
      forever := confined_forever ih
      guarded := confined_guarded ih
      guardedBehind := confined_guardedBehind ih
      each := confined_each ih }

/-- So does a function that is entered from outside the script. -/
theorem stays_host {f : Function} {name : String} {n : Nat} {this : Value} {args : List Value}
    (placed : env.Obeys M) (found : env.functions name n = some f) :
    Stays env M (.function f) (host env f this args) fun r => Settled env M (.function f) r.1 := by
  have counted : Safe env M (.function f) (count env none) := safe_count at_none
  refine counted.settle.bind fun r hr => ?_
  cases r with
  | error s => exact stays_pure (settled_error hr.from)
  | ok _ =>
    exact (confined placed _).function (some this) false _ (.function found) (placed.functions found) at_none

end Run

/-- The failure of a call from outside. -/
theorem from_of_callFunction {functions : String → Nat → Option Function} {limits : Limits} {f : Function}
    {name : String} {n : Nat} {this : Value} {args : List Value} {m : Machine} {failure : Failure}
    (placed : Env.Obeys ⟨functions, true, limits⟩ M) (found : functions name n = some f)
    (failed : (callFunction functions limits f this args m).1 = .failure failure) :
    failure.From ⟨functions, true, limits⟩ M (.function f) := by
  have stays : Run.Stays ⟨functions, true, limits⟩ M (.function f)
      (Run.host ⟨functions, true, limits⟩ f this args)
      fun r => Settled ⟨functions, true, limits⟩ M (.function f) r.1 := Run.stays_host placed found
  replace stays := stays (m.start [])
  unfold Ensures at stays
  unfold callFunction at failed
  rcases run : (Run.host ⟨functions, true, limits⟩ f this args).run.run (m.start []) with ⟨r, m'⟩
  have run' : (Run.host ⟨functions, true, limits⟩ f this args).run (m.start []) = (r, m') := run
  rw [run] at stays
  rw [run'] at failed
  have settled {r : Except Signal Value} (h : Settled ⟨functions, true, limits⟩ M (.function f) r)
      (ending : Ending.ofResult r = .failure failure) :
      failure.From ⟨functions, true, limits⟩ M (.function f) := by
    unfold Ending.ofResult at ending
    split at ending
    case h_6 => exact Ending.failure.inj ending ▸ show Failure.From _ _ _ _ from h.from
    all_goals exact nomatch ending
  cases r with
  | ok r => exact settled stays failed
  | error s => exact settled (settled_error stays) failed

end ScriptHost.Script
