import ScriptHost.Script.Eval

/-!
# Queue — a script does not see what was asked of the host before

Commands and log lines go to the end of a queue that all scripts of a host share.  No step of a script looks
at the queue, so what stands in it already changes nothing of the run and stays in front.
-/

namespace ScriptHost.Script

open Text (Position)

/-! ## 1. Steps behind a queue -/

/-- What was asked of the host: commands and log lines, the oldest ones first. -/
structure Queue where
  commands : Array Command
  logs : Array String

/-- The machine with a queue in front of what has been asked so far. -/
def Machine.behind (q : Queue) (m : Machine) : Machine :=
  { m with commands := q.commands ++ m.commands, logs := q.logs ++ m.logs }

variable {q : Queue} {env : Env} {α β : Type}

namespace Run

/-- Behind the queue the second step does what the first one does without it. -/
def Follows (q : Queue) (x y : Run α) : Prop :=
  ∀ m : Machine, y.run.run (m.behind q) = ((x.run.run m).1, (x.run.run m).2.behind q)

/-- The step does the same behind the queue as without it. -/
abbrev Blind (q : Queue) (x : Run α) : Prop := Follows q x x

section Rules

variable {x y : Run α} {f g : α → Run β}

theorem blind_pure {a : α} : Blind q (pure a : Run α) := fun _ => rfl

theorem blind_throw {s : Signal} : Blind q (throw s : Run α) := fun _ => rfl

theorem Follows.bind (hx : Follows q x y) (hf : ∀ a, Follows q (f a) (g a)) :
    Follows q (x >>= f) (y >>= g) := by
  intro m
  rw [ExceptT.run_bind, ExceptT.run_bind, StateT.run_bind, StateT.run_bind]
  rw [hx m]
  rcases x.run.run m with ⟨r, m'⟩
  cases r with
  | ok a => exact hf a m'
  | error s => rfl

/-- What a step learns of the machine is the same where it does not learn of the queue. -/
theorem blind_get {f : Machine → Run β} (h : ∀ m, Follows q (f m) (f (m.behind q))) :
    Blind q (get >>= f) := fun m => h m m

/-- Most steps learn nothing of the machine that the queue is a part of. -/
theorem blind_read {f : Machine → Run β} (same : ∀ m, f (m.behind q) = f m) (h : ∀ m, Blind q (f m)) :
    Blind q (get >>= f) := by
  refine blind_get fun m => ?_
  rw [same m]
  exact h m

theorem blind_modify {change : Machine → Machine} (h : ∀ m, change (m.behind q) = (change m).behind q) :
    Blind q (modify change : Run PUnit) := by
  intro m
  show (Except.ok PUnit.unit, change (m.behind q)) = (Except.ok PUnit.unit, (change m).behind q)
  rw [h m]

theorem blind_modifyGet {change : Machine → α × Machine}
    (h : ∀ m, change (m.behind q) = ((change m).1, (change m).2.behind q)) :
    Blind q (modifyGet change : Run α) := by
  intro m
  show (Except.ok (change (m.behind q)).1, (change (m.behind q)).2) = _
  rw [h m]
  rfl

theorem follows_set {m : Machine} : Follows q (set m : Run PUnit) (set (m.behind q)) := fun _ => rfl

theorem Follows.ite {c : Prop} [Decidable c] {x' y' : Run α} (hx : Follows q x y) (hx' : Follows q x' y') :
    Follows q (if c then x else x') (if c then y else y') := by
  split
  · exact hx
  · exact hx'

theorem Follows.discard (h : Follows q x y) : Follows q (discard x) (discard y) :=
  Follows.bind h fun _ => blind_pure

theorem Follows.settle (h : Follows q x y) : Follows q (settle x) (settle y) := by
  intro m
  have step := h m
  show (Except.ok (y.run.run (m.behind q)).1, (y.run.run (m.behind q)).2) = _
  rw [step]
  rfl

theorem blind_resume (r : Except Signal α) : Blind q (resume r) := by
  cases r with
  | ok a => exact blind_pure
  | error s => exact blind_throw

theorem blind_fail {t : Trouble} {p : Option Position} : Blind q (fail t p : Run α) := blind_throw

theorem blind_failAt {t : Trouble} {p : Position} : Blind q (failAt t p : Run α) := blind_throw

theorem blind_forM {as : List β} {step : β → Run PUnit} (h : ∀ a, Blind q (step a)) :
    Blind q (as.forM step) := by
  induction as with
  | nil => exact blind_pure
  | cons a as ih => exact (h a).bind fun _ => ih

theorem blind_mapM {as : List α} {step : α → Run β} (h : ∀ a, Blind q (step a)) :
    Blind q (as.mapM step) := by
  induction as with
  | nil => exact blind_pure
  | cons a as ih =>
    rw [List.mapM_cons]
    exact (h a).bind fun _ => ih.bind fun _ => blind_pure

end Rules

/-! ## 2. Plain steps -/

section Steps

variable {p : Position} {v : Value} {name : String}

theorem blind_count {p : Option Position} : Blind q (count env p) := by
  refine blind_read (fun _ => rfl) fun m => Follows.bind (blind_modify fun _ => rfl) fun _ => ?_
  exact Follows.ite blind_fail blind_pure

theorem blind_countCalls {op : Option Operator} {old new : Value} : Blind q (countCalls env op old new p) :=
  blind_forM fun _ => blind_count

theorem blind_find {x : Ident} : Blind q (find x) := by
  refine blind_read (fun _ => rfl) fun m => ?_
  split
  · exact blind_pure
  · exact blind_failAt

theorem blind_lookup : Blind q (lookup name p) :=
  blind_find.bind fun _ => blind_read (fun _ => rfl) fun _ => blind_pure

theorem blind_assign : Blind q (assign name v) := by
  refine blind_modify fun m => ?_
  have same : (m.behind q).find? name = m.find? name := rfl
  simp only [Machine.assign, same]
  split <;> rfl

/-- A variable is shared in the same cell. -/
theorem blind_share (x : Local) : Blind q (modify (Machine.share x)) := by
  refine blind_modify fun m => ?_
  unfold Machine.share
  split <;> rfl

theorem blind_point {p : Pointed} : Blind q (modifyGet (Machine.point name p)) := blind_modifyGet fun _ => rfl

theorem blind_declare {isConstant : Bool} : Blind q (declare name v isConstant) := blind_modify fun _ => rfl

theorem blind_rewind {n : Nat} : Blind q (rewind n) := blind_modify fun _ => rfl

/-- What is asked for goes behind the queue. -/
theorem blind_emit {a : Answer} : Blind q (emit a) := by
  refine blind_modify fun m => ?_
  simp only [Machine.behind, Array.append_assoc]

theorem blind_check {r : Except Trouble α} : Blind q (check p r) := by
  cases r with
  | ok a => exact blind_pure
  | error t => exact blind_failAt

theorem blind_truth : Blind q (truth v p) := by
  unfold truth
  split
  · exact blind_pure
  · exact blind_failAt

theorem blind_called {args : List Value} : Blind q (
    match callLibrary name args p with
    | none => failAt (.functionNotFound (signature name args)) p
    | some called => do
      let a ← check p called
      emit a
      return a) := by
  split
  · exact blind_failAt
  · exact blind_check.bind fun _ => blind_emit.bind fun _ => blind_pure

theorem blind_library {args : List Value} : Blind q (library env name args p) := by
  have ended : Blind q (do
      if name == "exit" && args.length ≤ 1 then throw (.ended (args.headD .unit))
      match callLibrary name args p with
      | none => failAt (.functionNotFound (signature name args)) p
      | some called => do
        let a ← check p called
        emit a
        return a : Run Answer) :=
    Follows.ite (blind_throw.bind fun _ => blind_called) blind_called
  exact Follows.ite (blind_count.bind fun _ => ended) ended

theorem blind_ensureChangeable {isConstant : Bool} {args : List Value} :
    Blind q (ensureChangeable env isConstant name args p) :=
  Follows.ite (blind_count.bind fun _ => blind_failAt) blind_pure

theorem blind_pointTo : Blind q (pointTo v p) := by
  unfold pointTo
  split
  · exact Follows.ite blind_pure blind_failAt
  · exact blind_failAt

theorem blind_curry {f : Pointer} {more : List Slot} : Blind q (curry f more) :=
  blind_read (fun _ => rfl) fun _ => blind_point

theorem blind_hold (x : Capture) : Blind q (hold env x) := by
  unfold hold
  split
  · exact blind_pure
  · exact blind_count.bind fun _ => blind_find.bind fun _ => blind_pure

theorem blind_close {c : Closure} {captures : List Capture} : Blind q (close env c captures) := by
  cases captures with
  | nil => exact blind_point
  | cons x xs =>
    refine blind_count.bind fun _ => ?_
    refine (blind_forM fun _ => blind_find.bind fun y => blind_share y).bind fun _ => ?_
    exact blind_count.bind fun _ => (blind_mapM blind_hold).bind fun _ => blind_point

theorem blind_firstKnown {call : Way → Run (Except Signal Value × α)} (h : ∀ w, Blind q (call w)) (w : Way)
    (ws : List Way) : Blind q (firstKnown name call w ws) := by
  induction ws generalizing w with
  | nil => exact h w
  | cons v ws ih => exact (h w).bind fun _ => Follows.ite (ih v) blind_pure

theorem blind_serve {call : Way → Run (Except Signal Value × Option Value)} {pointed : Pointed} {r : Request}
    (h : ∀ w, Blind q (call w)) : Blind q (serve call name pointed r p) := by
  unfold serve
  split
  · exact h _
  · exact blind_pure
  · exact (blind_firstKnown h _ _).bind fun _ => blind_pure

theorem blind_learn {r : Request} (result : Except Signal Value) : Blind q (learn r result) := by
  unfold learn
  split
  · exact blind_pure
  · exact blind_resume _

theorem blind_errand {call : Request → Run (Value × Value)} (h : ∀ r, Blind q (call r)) (e : Errand) :
    Blind q (errand call e) := by
  induction e with
  | done answer => exact blind_pure
  | ask request next ih => exact (h request).bind fun r => ih r.1 r.2

theorem blind_module {path : List Ident} {args : List Value} : Blind q (module path name args p) := by
  unfold module
  dsimp only
  split
  · exact blind_failAt
  · refine Follows.ite (blind_read (fun _ => rfl) fun m => ?_) blind_failAt
    refine Follows.bind (blind_modify fun _ => rfl) fun _ => ?_
    split
    · exact blind_failAt
    · exact blind_check.bind fun _ => blind_emit.bind fun _ => blind_pure

theorem blind_course : Blind q (course v p) := by
  unfold course
  split
  all_goals first | exact blind_pure | exact blind_failAt

theorem blind_afterBody (r : Except Signal Value) : Blind q (afterBody r) := by
  unfold afterBody
  split
  all_goals first | exact blind_pure | exact blind_throw

theorem blind_moduleVariable {path : List Ident} : Blind q (moduleVariable env path name p) := by
  refine blind_read (fun _ => rfl) fun m => ?_
  dsimp only
  split
  · exact blind_pure
  · exact blind_failAt

theorem blind_ask {args : List (Value × Position)} : Blind q (ask env name args) := by
  unfold ask
  split
  · exact blind_read (fun _ => rfl) fun _ => blind_pure
  all_goals first | exact blind_pure | exact blind_failAt

/-- A visit of a part asks for what is asked for behind it. -/
theorem blind_through {target : Value} {go : Value → Run Visit} (hgo : ∀ v, Blind q (go v))
    (part : Part) (p : Position) (value : Option Value) : Blind q (
      match value with
      | some v => return (← go v).within target part p
      | none => return { ← go .unit with left := target } : Run Visit) := by
  split
  · exact (hgo _).bind fun _ => blind_pure
  · exact (hgo _).bind fun _ => blind_pure

theorem blind_visitPart {target : Value} {step : Step} {go : Value → Run Visit}
    (hgo : ∀ v, Blind q (go v)) : Blind q (visitPart target step go) := by
  unfold visitPart
  dsimp only
  split
  · split
    · exact blind_through hgo _ _ _
    · exact blind_pure
    · exact blind_pure
  · split
    · exact blind_through hgo _ _ _
    · split
      · exact (hgo _).bind fun _ => blind_pure
      · exact blind_pure
  · exact blind_pure

end Steps

/-! ## 3. The evaluator -/

/-- No function of the evaluator sees the queue with so much fuel. -/
structure AllBlind (q : Queue) (env : Env) (fuel : Nat) : Prop where
  expr : ∀ e, Blind q (expr env fuel e)
  compute : ∀ e, Blind q (compute env fuel e)
  exprs : ∀ es, Blind q (exprs env fuel es)
  entries : ∀ es, Blind q (entries env fuel es)
  every : ∀ goal es, Blind q (every env fuel goal es)
  firstOf : ∀ es, Blind q (firstOf env fuel es)
  slots : ∀ es, Blind q (slots env fuel es)
  word : ∀ w first rest p, Blind q (word env fuel w first rest p)
  text : ∀ s p, Blind q (text env fuel s p)
  call : ∀ name args p, Blind q (call env fuel name args p)
  enter : ∀ f args p, Blind q (enter env fuel f args p)
  function : ∀ f callee this isConstant args p, Blind q (function env fuel f callee this isConstant args p)
  apply : ∀ f isConstant w p, Blind q (apply env fuel f isConstant w p)
  service : ∀ name args p, Blind q (service env fuel name args p)
  respond : ∀ name p r, Blind q (respond env fuel name p r)
  chain : ∀ root links deed, Blind q (chain env fuel root links deed)
  loneStep : ∀ link, Blind q (loneStep env fuel link)
  steps : ∀ links, Blind q (steps env fuel links)
  visit : ∀ owner target ss deed, Blind q (visit env fuel owner target ss deed)
  method : ∀ isConstant target name args p, Blind q (method env fuel isConstant target name args p)
  named : ∀ isConstant target name args p, Blind q (named env fuel isConstant target name args p)
  block : ∀ body, Blind q (block env fuel body)
  stmts : ∀ body last, Blind q (stmts env fuel body last)
  stmt : ∀ s, Blind q (stmt env fuel s)
  assignTo : ∀ target op v p, Blind q (assignTo env fuel target op v p)
  select : ∀ v cases, Blind q (select env fuel v cases)
  firstCase : ∀ cases, Blind q (firstCase env fuel cases)
  forever : ∀ body p, Blind q (forever env fuel body p)
  guarded : ∀ guard body p, Blind q (guarded env fuel guard body p)
  guardedBehind : ∀ body guard goal p, Blind q (guardedBehind env fuel body guard goal p)
  each : ∀ name counter i course body p, Blind q (each env fuel name counter i course body p)

section Functions

variable {fuel : Nat} {p : Position} {ss : List Stmt} (ih : AllBlind q env fuel)
include ih

theorem blind_compute (e : Expr) : Blind q (compute env (fuel + 1) e) := by
  cases e with
  | constant v p => exact blind_pure
  | template parts p => exact (ih.exprs parts).bind fun _ => blind_pure
  | array items p => exact (ih.exprs items).bind fun _ => blind_pure
  | map entries p => exact (ih.entries entries).bind fun _ => blind_pure
  | var name p => exact blind_lookup.bind fun _ => blind_pure
  | this p =>
    refine blind_read (fun _ => rfl) fun m => ?_
    split
    · exact blind_pure
    · exact blind_failAt
  | prefixed sign e p => exact (ih.expr e).bind fun _ => blind_check
  | binary op a b p =>
    refine (ih.expr a).bind fun _ => (ih.expr b).bind fun _ => ?_
    exact Follows.ite (blind_count.bind fun _ => blind_check) blind_check
  | and parts p => exact (ih.every true parts).bind fun _ => blind_pure
  | or parts p => exact (ih.every false parts).bind fun _ => blind_pure
  | coalesce parts p => exact ih.firstOf parts
  | contains container item p =>
    refine (ih.expr container).bind fun _ => (ih.expr item).bind fun _ => ?_
    split
    · exact ih.enter _ _ _
    · exact blind_library.bind fun _ => blind_pure
  | call function args p => exact ih.call function args p
  | moduleCall path name args p =>
    exact (ih.exprs args).bind fun _ => blind_module.bind fun _ => blind_pure
  | moduleVariable path name p => exact blind_moduleVariable
  | chain root links => exact ih.chain root links .read
  | block body p => exact ih.block body
  | closure params captures body p => exact blind_close

theorem blind_exprs (es : List Expr) : Blind q (exprs env (fuel + 1) es) := by
  cases es with
  | nil => exact blind_pure
  | cons e es => exact (ih.expr e).bind fun _ => (ih.exprs es).bind fun _ => blind_pure

theorem blind_entries (es : List (String × Expr)) : Blind q (entries env (fuel + 1) es) := by
  cases es with
  | nil => exact blind_pure
  | cons e es => exact (ih.expr e.2).bind fun _ => (ih.entries es).bind fun _ => blind_pure

theorem blind_every (goal : Bool) (es : List Expr) : Blind q (every env (fuel + 1) goal es) := by
  cases es with
  | nil => exact blind_pure
  | cons e es =>
    refine (ih.expr e).bind fun _ => blind_truth.bind fun _ => ?_
    exact Follows.ite (ih.every goal es) blind_pure

theorem blind_firstOf (es : List Expr) : Blind q (firstOf env (fuel + 1) es) := by
  cases es with
  | nil => exact blind_pure
  | cons e es => exact (ih.expr e).bind fun _ => Follows.ite (ih.firstOf es) blind_pure

theorem blind_slots (es : List Expr) : Blind q (slots env (fuel + 1) es) := by
  cases es with
  | nil => exact blind_pure
  | cons e es =>
    have further (slot : Slot) : Blind q (do
        let slots ← slots env fuel es
        return slot :: slots) :=
      (ih.slots es).bind fun _ => blind_pure
    unfold slots
    split
    · exact blind_count.bind fun _ => blind_find.bind fun _ => blind_pure.bind further
    · exact Follows.bind ((ih.expr e).bind fun _ => blind_pure) further

theorem blind_word (w : Word) (first : Expr) (rest : List Expr) (p : Position) :
    Blind q (word env (fuel + 1) w first rest p) := by
  unfold word
  split
  · exact blind_count.bind fun _ => blind_find.bind fun _ => blind_pure
  · exact (ih.expr _).discard.bind fun _ => blind_pure
  · exact (ih.expr _).bind fun _ => blind_pointTo
  · refine (ih.expr _).bind fun v => ?_
    split
    · exact (ih.text _ _).settle.bind fun _ => blind_resume _
    · exact blind_failAt
  · refine (ih.expr _).bind fun v => ?_
    split
    · exact (ih.slots rest).bind fun _ => blind_curry
    · exact blind_failAt
  · refine (ih.expr _).bind fun v => ?_
    split
    · exact (ih.exprs rest).bind fun _ => (ih.apply _ _ _ p).bind fun _ => blind_resume _
    · exact blind_failAt

theorem blind_text (s : String) (p : Position) : Blind q (text env (fuel + 1) s p) := by
  refine blind_count.bind fun _ => Follows.ite blind_pure ?_
  split
  · exact blind_fail
  · exact ih.stmts _ .unit

/-- A call by name that is no question: of a function of the script, or of the library. -/
theorem blind_callee {name : String} {args : List Expr} (vs : List Value) {finish : Answer → Run Value}
    (hf : ∀ a, Blind q (finish a)) : Blind q (
      match env.functions name args.length with
      | some f => enter env fuel f vs (some p)
      | none => service env fuel name vs p >>= finish) := by
  split
  · exact ih.enter _ _ _
  · exact (ih.service name vs p).bind hf

theorem blind_call (name : String) (args : List Expr) (p : Position) :
    Blind q (call env (fuel + 1) name args p) := by
  unfold call
  dsimp only
  split
  · exact (ih.exprs args).bind fun _ => blind_ask
  · split
    · exact ih.word _ _ _ p
    · refine (ih.exprs _).bind fun vs => blind_count.bind fun _ => blind_find.bind fun y => ?_
      refine blind_read (fun _ => rfl) fun m => blind_callee ih _ fun a => ?_
      split
      · exact Follows.ite (blind_assign.bind fun _ => blind_pure) blind_pure
      · exact blind_pure
    · refine (ih.exprs _).bind fun vs => blind_count.bind fun _ => blind_read (fun _ => rfl) fun m => ?_
      split
      · exact blind_failAt
      · refine blind_callee ih _ fun a => ?_
        split
        · refine Follows.bind (blind_modify fun m => ?_) fun _ => blind_pure
          show (if m.thisConstant then m.behind q else _) = _
          split
          · rfl
          · rfl
        · exact blind_pure
    · exact (ih.exprs _).bind fun vs => blind_callee ih _ fun a => blind_pure

theorem blind_enter (f : Function) (args : List Value) (p : Option Position) :
    Blind q (enter env (fuel + 1) f args p) := by
  refine Follows.bind (blind_modify fun _ => rfl) fun _ => (ih.function f _ none false _ p).bind fun _ => ?_
  exact Follows.bind (blind_modify fun _ => rfl) fun _ => blind_resume _

theorem blind_function (f : Function) (callee : Callee) (this : Option Value) (isConstant : Bool)
    (args : List Slot) (p : Option Position) :
    Blind q (function env (fuel + 1) f callee this isConstant args p) := by
  refine Follows.ite blind_pure (blind_count.settle.bind fun r => ?_)
  split
  · exact blind_pure
  · -- The machine of the caller is set up for the body with the queue that it has.
    refine blind_get fun caller => Follows.ite blind_pure ?_
    refine Follows.bind follows_set fun _ => (ih.stmts f.body .unit).settle.bind fun r => ?_
    exact Follows.bind (blind_modifyGet fun _ => rfl) fun _ => blind_pure

theorem blind_apply (f : Pointer) (isConstant : Bool) (w : Way) (p : Position) :
    Blind q (apply env (fuel + 1) f isConstant w p) := by
  refine blind_read (fun _ => rfl) fun m => ?_
  dsimp only
  split
  · refine Follows.bind (blind_modify fun _ => rfl) fun _ => (ih.function _ _ _ isConstant _ _).bind fun _ => ?_
    exact Follows.bind (blind_modify fun _ => rfl) fun _ => blind_pure
  · split
    · exact (ih.named isConstant _ f.name _ p).bind fun _ => blind_pure
    · exact (ih.enter _ _ _).settle.bind fun _ => blind_pure
    · have called (args : List Value) : Blind q (Answer.value <$> service env fuel f.name args p) :=
        (ih.service f.name args p).bind fun _ => blind_pure
      exact (called _).settle.bind fun _ => blind_pure

theorem blind_service (name : String) (args : List Value) (p : Position) :
    Blind q (service env (fuel + 1) name args p) := by
  unfold service
  split
  · exact blind_library
  · exact blind_count.bind fun _ => blind_errand (ih.respond name p) _

theorem blind_respond (name : String) (p : Position) (r : Request) :
    Blind q (respond env (fuel + 1) name p r) := by
  refine blind_read (fun _ => rfl) fun m => ?_
  refine (blind_serve fun w => ih.apply _ false w p).bind fun _ => ?_
  exact Follows.bind (blind_modify fun _ => rfl) fun _ => (blind_learn _).bind fun _ => blind_pure

/-- A chain once its steps are known. -/
theorem blind_followed (root : Expr) (deed : Deed) (ss : List Step) : Blind q (
    match root with
    | .this p => do
      count env (some p)
      let m ← get
      match m.this with
      | none => failAt .unboundThis p
      | some v => do
        let visit ← visit env fuel (if m.thisConstant then some ⟨"", p⟩ else none) v ss deed
        modify fun m => { m with this := some visit.left }
        resume visit.outcome
    | .var x p => do
      count env (some p)
      let y ← find ⟨x, p⟩
      if asksSharing ss then return .bool y.isShared
      let v := (← get).heap.read y
      let visit ← visit env fuel (if v.isConstant then some ⟨x, p⟩ else none) v.value ss deed
      assign x visit.left
      resume visit.outcome
    | root => do
      let v ← expr env fuel root
      resume (← visit env fuel none v ss deed).outcome : Run Value) := by
  split
  · refine blind_count.bind fun _ => blind_read (fun _ => rfl) fun m => ?_
    split
    · exact blind_failAt
    · refine (ih.visit _ _ ss deed).bind fun v => ?_
      exact Follows.bind (blind_modify fun _ => rfl) fun _ => blind_resume _
  · refine blind_count.bind fun _ => blind_find.bind fun y => Follows.ite blind_pure ?_
    refine blind_read (fun _ => rfl) fun m => (ih.visit _ _ ss deed).bind fun v => ?_
    exact blind_assign.bind fun _ => blind_resume _
  · exact (ih.expr _).bind fun v => (ih.visit _ v ss deed).bind fun _ => blind_resume _

theorem blind_chain (root : Expr) (links : List Link) (deed : Deed) :
    Blind q (chain env (fuel + 1) root links deed) := by
  unfold chain
  dsimp only
  split
  · exact (ih.loneStep _).bind fun s => Follows.bind blind_pure (blind_followed ih root deed)
  · exact (ih.steps _).bind (blind_followed ih root deed)

theorem blind_step (link : Link) : Blind q (
    match link with
    | .property name p joint => return .property name p joint
    | .method name args p joint => return .method name (← exprs env fuel args) p joint
    | .index (.constant v p) joint => return .index v p joint
    | .index key joint => return .index (← expr env fuel key) key.startPosition joint : Run Step) := by
  split
  · exact blind_pure
  · exact (ih.exprs _).bind fun _ => blind_pure
  · exact blind_pure
  · exact (ih.expr _).bind fun _ => blind_pure

theorem blind_loneStep (link : Link) : Blind q (loneStep env (fuel + 1) link) :=
  Follows.ite (blind_count.bind fun _ => blind_step ih link) (blind_step ih link)

theorem blind_steps (links : List Link) : Blind q (steps env (fuel + 1) links) := by
  cases links with
  | nil => exact blind_pure
  | cons link links =>
    have further (s : Step) : Blind q (do
        let ss ← steps env fuel links
        return s :: ss) := (ih.steps links).bind fun _ => blind_pure
    refine blind_count.bind fun _ => ?_
    split
    · exact blind_pure.bind further
    · exact (ih.exprs _).bind fun _ => blind_pure.bind further
    · exact (ih.expr _).bind fun _ => blind_pure.bind further

theorem blind_visit (owner : Option Ident) (target : Value) (ss : List Step) (deed : Deed) :
    Blind q (visit env (fuel + 1) owner target ss deed) := by
  cases ss with
  | nil => exact blind_pure
  | cons step rest =>
    refine Follows.ite blind_pure ?_
    have counted : Blind q (settle
        ((if rest.isEmpty then deed.accesses target step else step.accesses target).forM (count env))) :=
      (blind_forM fun _ => blind_count).settle
    have further (v : Value) : Blind q (visit env fuel owner v rest deed) := ih.visit owner v rest deed
    cases step with
    | method name args p joint =>
      refine (ih.method owner.isSome target name args p).bind fun (r, left) => ?_
      cases r with
      | error s => exact blind_pure
      | ok v => exact Follows.ite blind_pure ((ih.visit none v rest deed).bind fun _ => blind_pure)
    | property name p joint =>
      refine counted.bind fun r => ?_
      cases r with
      | error s => exact blind_pure
      | ok _ =>
        cases rest with
        | nil => exact blind_pure
        | cons => exact blind_visitPart further
    | index key p joint =>
      refine counted.bind fun r => ?_
      cases r with
      | error s => exact blind_pure
      | ok _ =>
        cases rest with
        | nil => exact blind_pure
        | cons => exact blind_visitPart further

theorem blind_method (isConstant : Bool) (target : Value) (name : String) (args : List Value)
    (p : Position) : Blind q (method env (fuel + 1) isConstant target name args p) := by
  unfold method
  split
  · exact blind_pure
  · exact blind_curry.bind fun _ => blind_pure
  · exact blind_pure
  · exact (ih.apply _ false _ p).bind fun _ => blind_pure
  · exact (ih.apply _ isConstant _ p).bind fun _ => blind_pure
  · exact blind_pure
  · split
    · exact (ih.apply _ isConstant _ p).bind fun _ => blind_pure
    · exact ih.named isConstant _ _ _ p

theorem blind_named (isConstant : Bool) (target : Value) (name : String) (args : List Value)
    (p : Position) : Blind q (named env (fuel + 1) isConstant target name args p) := by
  unfold named
  dsimp only
  split
  · refine Follows.bind (blind_modify fun _ => rfl) fun _ => ?_
    refine (ih.function _ _ (some target) isConstant _ (some p)).bind fun _ => ?_
    exact Follows.bind (blind_modify fun _ => rfl) fun _ => blind_pure
  · have called : Blind q (do
        ensureChangeable env isConstant name (target :: args) p
        service env fuel name (target :: args) p) :=
      blind_ensureChangeable.bind fun _ => ih.service name _ p
    refine called.settle.bind fun r => ?_
    split
    · exact blind_pure
    · exact blind_pure

theorem blind_block (body : List Stmt) : Blind q (block env (fuel + 1) body) :=
  blind_read (fun _ => rfl) fun _ => (ih.stmts body .unit).settle.bind fun _ =>
    blind_rewind.bind fun _ => blind_resume _

theorem blind_stmts (body : List Stmt) (last : Value) : Blind q (stmts env (fuel + 1) body last) := by
  cases body with
  | nil => exact blind_pure
  | cons s ss => exact (ih.stmt s).bind fun v => ih.stmts ss v

theorem blind_assignTo (target : Expr) (op : Option Operator) (v : Value) (p : Position) :
    Blind q (assignTo env (fuel + 1) target op v p) := by
  have combined (old : Value) (store : Value → Run Unit) (hs : ∀ v, Blind q (store v)) :
      Blind q (do
        countCalls env op old v p
        let new ← resume (Deed.newValue op old v p)
        store new) :=
    blind_countCalls.bind fun _ => (blind_resume _).bind hs
  unfold assignTo
  dsimp only
  split
  · refine blind_lookup.bind fun old => Follows.ite (blind_failAt.bind fun _ => ?_) ?_
    · exact combined _ _ fun _ => blind_assign
    · exact combined _ _ fun _ => blind_assign
  · refine blind_read (fun _ => rfl) fun m => Follows.ite (blind_failAt.bind fun _ => ?_) ?_
    · exact combined _ _ fun _ => blind_modify fun _ => rfl
    · exact combined _ _ fun _ => blind_modify fun _ => rfl
  · exact (ih.chain _ _ _).discard
  · exact blind_moduleVariable.discard.bind fun _ => blind_failAt
  · exact blind_throw

theorem blind_firstCase (cases : List Case) : Blind q (firstCase env (fuel + 1) cases) := by
  cases cases with
  | nil => exact blind_pure
  | cons c rest =>
    obtain ⟨patterns, guard, action⟩ := c
    cases guard with
    | none => exact ih.expr action
    | some guard =>
      refine (ih.expr guard).bind fun _ => blind_truth.bind fun _ => ?_
      exact Follows.ite (ih.expr action) (ih.firstCase rest)

theorem blind_forever (body : List Stmt) (p : Position) : Blind q (forever env (fuel + 1) body p) := by
  refine blind_count.bind fun _ => (ih.block body).settle.bind fun r => (blind_afterBody r).bind fun left => ?_
  cases left with
  | some v => exact blind_pure
  | none => exact ih.forever body p

theorem blind_guarded (guard : Expr) (body : List Stmt) (p : Position) :
    Blind q (guarded env (fuel + 1) guard body p) := by
  refine (ih.expr guard).bind fun _ => blind_truth.bind fun _ => Follows.ite ?_ blind_pure
  refine blind_count.bind fun _ => (ih.block body).settle.bind fun r => (blind_afterBody r).bind fun left => ?_
  cases left with
  | some v => exact blind_pure
  | none => exact ih.guarded guard body p

theorem blind_guardedBehind (body : List Stmt) (guard : Expr) (goal : Bool) (p : Position) :
    Blind q (guardedBehind env (fuel + 1) body guard goal p) := by
  refine blind_count.bind fun _ => (ih.block body).settle.bind fun r => ?_
  split
  · exact ih.guardedBehind body guard goal p
  · exact blind_pure
  · exact blind_throw
  · refine (ih.expr guard).bind fun _ => blind_truth.bind fun _ => ?_
    exact Follows.ite (ih.guardedBehind body guard goal p) blind_pure

/-- One turn over a value, and the turns behind it. -/
theorem blind_turn (name : String) (counter : Option String) (i : Nat) (c : Course) (body : List Stmt)
    (p : Position) (v : Value) (depth : Nat) : Blind q (do
      declare name v false
      count env (some p)
      let r ← settle (block env fuel body)
      rewind depth
      match ← afterBody r with
      | some v => return v
      | none => each env fuel name counter (i + 1) c body p) := by
  refine blind_declare.bind fun _ => blind_count.bind fun _ => (ih.block body).settle.bind fun r => ?_
  refine blind_rewind.bind fun _ => (blind_afterBody r).bind fun left => ?_
  cases left with
  | some v => exact blind_pure
  | none => exact ih.each name counter (i + 1) c body p

theorem blind_each (name : String) (counter : Option String) (i : Nat) (c : Course) (body : List Stmt)
    (p : Position) : Blind q (each env (fuel + 1) name counter i c body p) := by
  unfold each
  dsimp only
  split
  · exact blind_pure
  · next v c next =>
    refine blind_read (fun _ => rfl) fun m => ?_
    have turn := blind_turn ih name counter i c body p v m.scope.length
    split
    · exact blind_declare.bind fun _ => turn
    · exact turn

/-- What a handler makes of a failure that it caught. -/
theorem blind_handled (handler : List Stmt) (failure : Failure) (depth : Nat) : Blind q (do
    let r ← settle (block env fuel handler)
    rewind depth
    match r with
    | .ok _ => return Value.unit
    | .error (.failed (.raised (.thrown .unit) p)) => throw (.failed (failure.moveTo p))
    | .error s => throw s) := by
  refine (ih.block handler).settle.bind fun r => blind_rewind.bind fun _ => ?_
  split
  · exact blind_pure
  · exact blind_throw
  · exact blind_throw

theorem blind_attempt (body : List Stmt) (name : Option Ident) (handler : List Stmt) (p : Position) :
    Blind q (stmt env (fuel + 1) (.attempt body name handler p)) := by
  refine blind_count.bind fun _ => (ih.block body).settle.bind fun r => ?_
  split
  · exact blind_pure
  · refine Follows.ite (blind_throw.bind fun _ => ?_) ?_
    all_goals
      refine blind_read (fun _ => rfl) fun m => ?_
      dsimp only
      split
      · exact blind_declare.bind fun _ => blind_handled ih handler _ _
      · exact blind_handled ih handler _ _
  · exact blind_throw

theorem blind_stmt (s : Stmt) : Blind q (stmt env (fuel + 1) s) := by
  cases s with
  | skip p => exact blind_count.bind fun _ => blind_pure
  | expr e => exact blind_count.bind fun _ => Follows.ite (ih.compute e) (ih.expr e)
  | define name isConstant value p =>
    refine blind_count.bind fun _ => ?_
    cases value with
    | none => exact blind_count.bind fun _ => blind_declare.bind fun _ => blind_pure
    | some e => exact (ih.expr e).bind fun _ => blind_declare.bind fun _ => blind_pure
  | assign target op value p =>
    have assigned : Blind q (do
        let v ← expr env fuel value
        assignTo env fuel target op v p
        return Value.unit) :=
      (ih.expr value).bind fun v => (ih.assignTo target op v p).bind fun _ => blind_pure
    refine blind_count.bind fun _ => ?_
    dsimp only
    -- An assignment to `this` fails before its value is computed where there is none.
    split
    · refine blind_read (fun _ => rfl) fun m => ?_
      exact Follows.ite (blind_failAt.bind fun _ => assigned) assigned
    · exact assigned
  | block body p => exact blind_count.bind fun _ => ih.block body
  | branch guard yes no p =>
    refine blind_count.bind fun _ => (ih.expr guard).bind fun _ => blind_truth.bind fun _ => ?_
    exact Follows.ite (ih.block yes) (ih.block no)
  | select subject cases p =>
    exact blind_count.bind fun _ => (ih.expr subject).bind fun v => ih.select v cases
  | loop guard body p₁ p =>
    cases guard with
    | none => exact blind_count.bind fun _ => ih.forever body p₁
    | some guard => exact blind_count.bind fun _ => ih.guarded guard body p₁
  | loopThen body guard goal p₁ p => exact blind_count.bind fun _ => ih.guardedBehind body guard goal p₁
  | each name counter source body p₁ p =>
    refine blind_count.bind fun _ => (ih.expr source).bind fun _ => blind_course.bind fun c => ?_
    refine blind_read (fun _ => rfl) fun m => (ih.each _ _ 0 c body p₁).settle.bind fun r => ?_
    exact blind_rewind.bind fun _ => blind_resume _
  | leave value p =>
    refine blind_count.bind fun _ => ?_
    cases value with
    | none => exact blind_throw
    | some e => exact (ih.expr e).bind fun _ => blind_throw
  | proceed p => exact blind_count.bind fun _ => blind_throw
  | ret value p =>
    refine blind_count.bind fun _ => ?_
    cases value with
    | none => exact blind_throw
    | some e => exact (ih.expr e).bind fun _ => blind_throw
  | throw value p =>
    refine blind_count.bind fun _ => ?_
    cases value with
    | none => exact blind_failAt
    | some e => exact (ih.expr e).bind fun _ => blind_failAt
  | attempt body name handler p => exact blind_attempt ih body name handler p
  | obtain path p =>
    refine blind_count.bind fun _ => (ih.expr path).bind fun v => ?_
    split
    · exact blind_failAt
    · exact blind_failAt
  | offer name p => exact blind_count.bind fun _ => blind_lookup.discard.bind fun _ => blind_pure

end Functions

theorem allBlind_zero : AllBlind q env 0 where
  expr _ := blind_throw
  compute _ := blind_throw
  exprs es := by cases es <;> first | exact blind_pure | exact blind_throw
  entries es := by cases es <;> first | exact blind_pure | exact blind_throw
  every goal es := by cases es <;> first | exact blind_pure | exact blind_throw
  firstOf es := by cases es <;> first | exact blind_pure | exact blind_throw
  slots es := by cases es <;> first | exact blind_pure | exact blind_throw
  word _ _ _ _ := blind_throw
  text _ _ := blind_throw
  call _ _ _ := blind_throw
  enter _ _ _ := blind_throw
  function _ _ _ _ _ _ := blind_pure
  apply _ _ _ _ := blind_pure
  service _ _ _ := blind_throw
  respond _ _ _ := blind_throw
  chain _ _ _ := blind_throw
  loneStep _ := blind_throw
  steps links := by cases links <;> first | exact blind_pure | exact blind_throw
  visit _ _ _ _ := blind_pure
  method _ _ _ _ _ := blind_pure
  named _ _ _ _ _ := blind_pure
  block _ := blind_throw
  stmts body last := by cases body <;> first | exact blind_pure | exact blind_throw
  stmt _ := blind_throw
  assignTo _ _ _ _ := blind_throw
  select _ _ := blind_throw
  firstCase cases := by cases cases <;> first | exact blind_pure | exact blind_throw
  forever _ _ := blind_throw
  guarded _ _ _ := blind_throw
  guardedBehind _ _ _ _ := blind_throw
  each _ _ _ _ _ _ := blind_throw

theorem allBlind (q : Queue) (env : Env) (fuel : Nat) : AllBlind q env fuel := by
  -- On the fuel: each part of a run is run with one step less.
  induction fuel with
  | zero => exact allBlind_zero
  | succ fuel ih => exact {
      expr := fun e => blind_count.bind fun _ => ih.compute e
      compute := blind_compute ih
      exprs := blind_exprs ih
      entries := blind_entries ih
      every := blind_every ih
      firstOf := blind_firstOf ih
      slots := blind_slots ih
      word := blind_word ih
      text := blind_text ih
      call := blind_call ih
      enter := blind_enter ih
      function := blind_function ih
      apply := blind_apply ih
      service := blind_service ih
      respond := blind_respond ih
      chain := blind_chain ih
      loneStep := blind_loneStep ih
      steps := blind_steps ih
      visit := blind_visit ih
      method := blind_method ih
      named := blind_named ih
      block := blind_block ih
      stmts := blind_stmts ih
      stmt := blind_stmt ih
      assignTo := blind_assignTo ih
      select := fun v cases => ih.firstCase _
      firstCase := blind_firstCase ih
      forever := blind_forever ih
      guarded := blind_guarded ih
      guardedBehind := blind_guardedBehind ih
      each := blind_each ih }

/-- Nor does a function that is entered from outside the script. -/
theorem blind_host {f : Function} {this : Value} {args : List Value} : Blind q (host env f this args) := by
  refine blind_count.settle.bind fun r => ?_
  split
  · exact blind_pure
  · exact (allBlind q env _).function f _ (some this) false _ none

end Run

/-! ## 4. Calls from outside -/

/-- What a call gives depends on the seed of the machine it finds and on what closures share, and what it asks for
    goes behind what has been asked for: the variables, counters and the value of `this` that another script left
    do not matter. -/
theorem callFunction_behind (functions : String → Nat → Option Function) (limits : Limits) (f : Function)
    (this : Value) (args : List Value) (m : Machine) :
    let r := callFunction functions limits f this args { Machine.initial with seed := m.seed, heap := m.heap }
    callFunction functions limits f this args m = (r.1, r.2.1, r.2.2.behind ⟨m.commands, m.logs⟩) := by
  have start : m.start [] =
      (({ Machine.initial with seed := m.seed, heap := m.heap } : Machine).start []).behind ⟨m.commands, m.logs⟩ := by
    simp only [Machine.start, Machine.behind, Machine.initial, Array.append_empty]
  have blind : (Run.host ⟨functions, true, limits⟩ f this args).run
      ((({ Machine.initial with seed := m.seed, heap := m.heap } : Machine).start []).behind ⟨m.commands, m.logs⟩) = _ :=
    Run.blind_host _
  rw [← start] at blind
  unfold callFunction
  rw [blind]
  rcases run : (Run.host ⟨functions, true, limits⟩ f this args).run.run
    (({ Machine.initial with seed := m.seed, heap := m.heap } : Machine).start []) with ⟨r, m'⟩
  have run' : (Run.host ⟨functions, true, limits⟩ f this args).run
    (({ Machine.initial with seed := m.seed, heap := m.heap } : Machine).start []) = (r, m') := run
  rw [run']
  cases r with
  | ok r => rfl
  | error s => rfl

end ScriptHost.Script
