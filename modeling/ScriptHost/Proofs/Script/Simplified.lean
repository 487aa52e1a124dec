import ScriptHost.Proofs.Script.Marks
import ScriptHost.Script.Simplify

/-!
# Simplified — a script that is made simple keeps its places

Whatever is computed before a script runs stands where the script had it: a part that takes the place of
others has one of their places, and no module path is changed.
-/

namespace ScriptHost.Script

open Text (Position)

variable {M : Marks} {p : Position} {e : Expr} {es : List Expr} {ss : List Stmt}

/-! ## 1. Expressions whose parts are simple -/

theorem mem_of_mem_through {α : Type} {stop : α → Bool} {as : List α} {a : α} (h : a ∈ through stop as) :
    a ∈ as := by
  induction as with
  | nil => exact h
  | cons b as ih =>
    rw [through] at h
    split at h
    · exact List.mem_cons.mpr (.inl (List.mem_singleton.mp h))
    · rcases List.mem_cons.mp h with h | h
      · exact List.mem_cons.mpr (.inl h)
      · exact List.mem_cons_of_mem _ (ih h)

namespace Expr

/-- A run that keeps some of its parts, of which one may be all. -/
theorem obeys_of_kept (make : List Expr → Expr) {kept : List Expr} {none : Expr} (h : AllObey M es)
    (sub : ∀ e ∈ kept, e ∈ es) (hnone : none.Obeys M) (hmake : AllObey M kept → (make kept).Obeys M) :
    (match kept with
      | [] => none
      | [e] => e
      | es => make es).Obeys M := by
  have obey : AllObey M kept := allObey_iff.mpr fun e he => allObey_iff.mp h e (sub e he)
  split
  · exact hnone
  · exact allObey_iff.mp obey _ List.mem_cons_self
  · exact hmake obey

theorem obeys_junction {make : List Expr → Position → Expr} {neutral : Bool}
    (hmake : ∀ es, AllObey M es → (make es p).Obeys M) (h : AllObey M es) (hp : M.place p) :
    (junction make neutral es p).Obeys M :=
  obeys_of_kept (fun es => make es p) h
    (fun _ he => (List.mem_filter.mp (mem_of_mem_through he)).1) hp (hmake _)

theorem obeys_firstPart (h : AllObey M es) (hp : M.place p) : (firstPart es p).Obeys M :=
  obeys_of_kept (fun es => coalesce es p) h
    (fun _ he => (List.mem_filter.mp (mem_of_mem_through he)).1) hp fun h => ⟨h, hp⟩

theorem obeys_operation {op : Operator} {x y : Value} {q r : Position} (hq : M.place q) (hr : M.place r)
    (hp : M.place p) : (operation op x y q r p).Obeys M := by
  unfold operation
  split
  · exact hp
  · exact ⟨hq, hr, hp⟩

theorem allObey_mergePieces (he : e.Obeys M) (h : AllObey M es) : AllObey M (mergePieces e es) := by
  fun_induction mergePieces e es with
  | case1 => exact ⟨he, trivial⟩
  | case2 s p t q ds ih => exact ih he h.2
  | case3 e p ds ih => exact ih he h.2
  | case4 e p ds _ ih => exact ih he h.2
  | case5 p d ds _ _ ih => exact ih h.1 h.2
  | case6 p d ds _ _ ih => exact ih h.1 h.2
  | case7 e d ds _ _ _ _ _ ih => exact ⟨he, ih h.1 h.2⟩

theorem obeys_joined (h : AllObey M es) (hp : M.place p) : (joined es p).Obeys M := by
  unfold joined
  split
  · exact hp
  · exact ⟨trivial, hp⟩
  · exact ⟨allObey_mergePieces h.1 h.2, hp⟩

theorem obeys_collected (h : AllObey M es) (hp : M.place p) : (collected es p).Obeys M := by
  unfold collected
  split
  · exact hp
  · exact ⟨h, hp⟩

theorem obeys_keyed {entries : List (String × Expr)} (h : EntriesObey M entries) (hp : M.place p) :
    (keyed entries p).Obeys M := by
  unfold keyed
  split
  · exact hp
  · exact ⟨h, hp⟩

theorem obeys_called {function : String} (h : AllObey M es) (hp : M.place p) :
    (called function es p).Obeys M := by
  unfold called
  split
  · exact hp
  · exact hp
  · split
    · exact hp
    · exact ⟨h, hp⟩
  · exact ⟨h, hp⟩

theorem obeys_ofName {constants : Constants} {name : String} (hp : M.place p) :
    (ofName constants name p).Obeys M := by
  unfold ofName
  split <;> exact hp

theorem obeys_linked {root : Expr} {links : List Link} (h : root.Obeys M) (hl : LinksObey M links) :
    (linked root links).Obeys M := by
  unfold linked
  split
  · split
    · exact h
    · exact ⟨h, hl⟩
  · exact ⟨h, hl⟩

theorem obeys_linkedTo {constants : Constants} {name : String} {links : List Link} (hp : M.place p)
    (hl : LinksObey M links) : (linkedTo constants name p links).Obeys M := by
  unfold linkedTo
  split
  · exact hp
  · exact ⟨hp, hl⟩

/-- A block stands for its statements. -/
theorem obeys_ofBlock (hp : M.place p) : (ofBlock ss p).Obeys M ↔ BodyObeys M ss := by
  unfold ofBlock
  split
  · exact ⟨fun _ => trivial, fun _ => hp⟩
  · exact ⟨fun h => ⟨h, trivial⟩, fun h => h.1⟩
  · exact ⟨fun h => h.1, fun h => ⟨h, hp⟩⟩

end Expr

/-! ## 2. Statements that are left -/

namespace Pruning

variable {q : Pruning}

theorem mem_dropPure {s : Stmt} (h : s ∈ q.dropPure ss) : s ∈ ss := by
  obtain ⟨⟨t, i⟩, ht, rfl⟩ := List.mem_map.mp h
  exact (List.mem_zipIdx' (List.mem_filter.mp ht).1).2 ▸ List.getElem_mem _

theorem bodyObeys_trimWanted (fuel : Nat) (h : BodyObeys M ss) : BodyObeys M (q.trimWanted fuel ss) := by
  fun_induction trimWanted q fuel ss with
  | case2 | case8 => exact trivial
  | case3 => exact ⟨h.1.2, h.2⟩
  | case6 _ _ _ _ _ ih => exact ih ⟨h.1.1, h.2⟩
  | case11 => exact ⟨h.1.position, h.2⟩
  | case4 _ _ _ _ _ _ ih | case12 _ _ _ _ _ _ _ _ ih => exact ih h.2
  | _ => exact h

theorem bodyObeys_of_subset {ts : List Stmt} (h : BodyObeys M ss) (sub : ∀ s ∈ ts, s ∈ ss) :
    BodyObeys M ts :=
  bodyObeys_iff.mpr fun s hs => bodyObeys_iff.mp h s (sub s hs)

theorem bodyObeys_trim (h : BodyObeys M ss) : BodyObeys M (q.trim ss) := by
  have reversed : BodyObeys M ss.reverse := bodyObeys_of_subset h fun s => List.mem_reverse.mp
  unfold trim
  dsimp only
  refine bodyObeys_of_subset ?_ fun s => List.mem_reverse.mp
  split
  · exact bodyObeys_trimWanted _ reversed
  · exact bodyObeys_of_subset reversed fun _ hs => (List.dropWhile_sublist _).subset hs

theorem bodyObeys_round (h : BodyObeys M ss) : BodyObeys M (q.round ss) :=
  bodyObeys_trim (bodyObeys_of_subset h fun _ hs => mem_of_mem_through (mem_dropPure hs))

theorem bodyObeys_prune (h : BodyObeys M ss) : BodyObeys M (q.prune ss) := by
  have go (fuel : Nat) : BodyObeys M (prune.go q fuel ss) := by
    induction fuel generalizing ss with
    | zero => exact h
    | succ fuel ih => exact ih (bodyObeys_round h)
  exact go _

end Pruning

theorem bodyObeys_append {ts : List Stmt} : BodyObeys M (ss ++ ts) ↔ BodyObeys M ss ∧ BodyObeys M ts := by
  simp only [bodyObeys_iff, List.forall_mem_append]

theorem bodyObeys_dissolved {s : Stmt} (atEnd : Bool) (h : s.Obeys M) :
    BodyObeys M (s.dissolved atEnd) := by
  unfold Stmt.dissolved
  split
  · exact ⟨h.2, trivial⟩
  · split
    · exact ⟨h, trivial⟩
    · exact h.1
  · split
    · exact ⟨h, trivial⟩
    · exact h.1
  · exact ⟨h, trivial⟩

theorem obeys_of_decided? {v : Value} {cases : List Case} (h : CasesObey M cases)
    (decided : decided? v cases = some e) : e.Obeys M := by
  unfold decided? at decided
  dsimp only at decided
  split at decided
  · next ps action rest found =>
    have there : Case.mk ps none action ∈ cases := by
      have first := found ▸ List.mem_cons_self (a := Case.mk ps none action) (l := rest)
      simp only [List.mem_append, List.mem_filter] at first
      rcases first with (first | first) | first <;> exact first.1
    exact Option.some.inj decided ▸ (casesObey_iff.mp h _ there).2
  · cases decided

/-! ## 3. Whole scripts -/

namespace Expr

variable {constants : Constants}

theorem obeys_simplify_prefixed {sign : String} (operand : (e.simplify constants).Obeys M)
    (hp : M.place p) :
    ((prefixed sign e p).simplify constants).Obeys M := by
  rw [simplify.eq_def]
  split <;> rename_i same <;> cases same
  · exact hp
  · exact ⟨operand, hp⟩

theorem obeys_simplify_binary {op : Operator} {a b : Expr} (left : (a.simplify constants).Obeys M)
    (right : (b.simplify constants).Obeys M) (h : (binary op a b p).Obeys M) :
    ((binary op a b p).simplify constants).Obeys M := by
  rw [simplify.eq_def]
  split <;> rename_i same <;> cases same
  · exact obeys_operation h.1 h.2.1 h.2.2
  · exact ⟨left, right, h.2.2⟩

theorem obeys_simplify_chain {root : Expr} {links : List Link} (start : (root.simplify constants).Obeys M)
    (h : root.Obeys M) (behind : LinksObey M (simplifyLinks constants links)) :
    ((chain root links).simplify constants).Obeys M := by
  rw [simplify.eq_def]
  split <;> rename_i same <;> cases same
  · exact obeys_linkedTo h behind
  · exact obeys_linked start behind

end Expr

/-- An assignment to a variable, which may take in the operator of its value. -/
theorem Stmt.obeys_simplify_assign {constants : Constants} {wanted : Bool} {x : String} {q : Position}
    {op : Option Operator} {value : Expr} (given : (value.simplify constants).Obeys M)
    (h : (Stmt.assign (.var x q) op value p).Obeys M) :
    ((Stmt.assign (.var x q) op value p).simplify constants wanted).Obeys M := by
  rw [simplify.eq_def]
  split <;> rename_i same <;> cases same
  · split
    · exact ⟨h.1, given.2.1, given.2.2⟩
    · exact ⟨h.1, given, h.2.2⟩
  · exact ⟨h.1, given, h.2.2⟩

mutual

theorem Expr.obeys_simplify (constants : Constants) :
    ∀ (e : Expr), e.Obeys M → (e.simplify constants).Obeys M
  | .constant .., h | .this .., h | .moduleVariable .., h => h
  | .template parts p, h => Expr.obeys_joined (allObey_simplifyAll constants parts h.1) h.2
  | .array items p, h => Expr.obeys_collected (allObey_simplifyAll constants items h.1) h.2
  | .map entries p, h => Expr.obeys_keyed (entriesObey_simplifyEntries constants entries h.1) h.2
  | .var name p, h => Expr.obeys_ofName h
  | .prefixed sign e p, h => by
    have operand := Expr.obeys_simplify constants e h.1
    exact Expr.obeys_simplify_prefixed operand h.2
  | .binary op a b p, h => by
    have left := Expr.obeys_simplify constants a h.1
    have right := Expr.obeys_simplify constants b h.2.1
    exact Expr.obeys_simplify_binary left right h
  | .and parts p, h =>
    Expr.obeys_junction (fun _ h' => ⟨h', h.2⟩) (allObey_simplifyAll constants parts h.1) h.2
  | .or parts p, h =>
    Expr.obeys_junction (fun _ h' => ⟨h', h.2⟩) (allObey_simplifyAll constants parts h.1) h.2
  | .coalesce parts p, h => Expr.obeys_firstPart (allObey_simplifyAll constants parts h.1) h.2
  | .contains a b p, h =>
    ⟨Expr.obeys_simplify constants a h.1, Expr.obeys_simplify constants b h.2.1, h.2.2⟩
  | .call function args p, h => Expr.obeys_called (allObey_simplifyAll constants args h.1) h.2
  | .moduleCall path function args p, h => ⟨h.1, allObey_simplifyAll constants args h.2.1, h.2.2⟩
  | .chain root links, h => by
    have start := Expr.obeys_simplify constants root h.1
    have behind := linksObey_simplifyLinks constants links h.2
    exact Expr.obeys_simplify_chain start h.1 behind
  | .block body p, h =>
    (Expr.obeys_ofBlock h.2).mpr
      (Pruning.bodyObeys_prune (bodyObeys_simplifyAllIn constants true false body h.1))
  | .closure _ _ _ _, h => ⟨List.forall_mem_map.mpr h.1, h.2⟩

theorem allObey_simplifyAll (constants : Constants) :
    ∀ (es : List Expr), AllObey M es → AllObey M (simplifyAll constants es)
  | [], _ => trivial
  | e :: es, h => ⟨Expr.obeys_simplify constants e h.1, allObey_simplifyAll constants es h.2⟩

theorem entriesObey_simplifyEntries (constants : Constants) :
    ∀ (es : List (String × Expr)), EntriesObey M es → EntriesObey M (simplifyEntries constants es)
  | [], _ => trivial
  | (_, e) :: es, h => ⟨Expr.obeys_simplify constants e h.1, entriesObey_simplifyEntries constants es h.2⟩

theorem optionObeys_simplifyOption (constants : Constants) :
    ∀ (e : Option Expr), OptionObeys M e → OptionObeys M (simplifyOption constants e)
  | none, _ => trivial
  | some e, h => Expr.obeys_simplify constants e h

theorem linksObey_simplifyLinks (constants : Constants) :
    ∀ (ls : List Link), LinksObey M ls → LinksObey M (simplifyLinks constants ls)
  | [], _ => trivial
  | .property .. :: ls, h => ⟨h.1, linksObey_simplifyLinks constants ls h.2⟩
  | .method _ args _ _ :: ls, h =>
    ⟨⟨allObey_simplifyAll constants args h.1.1, h.1.2⟩, linksObey_simplifyLinks constants ls h.2⟩
  | .index key _ :: ls, h =>
    ⟨⟨Expr.obeys_simplify constants key h.1.1, h.1.2⟩, linksObey_simplifyLinks constants ls h.2⟩

theorem Stmt.obeys_simplify (constants : Constants) (wanted : Bool) :
    ∀ (s : Stmt), s.Obeys M → (s.simplify constants wanted).Obeys M
  | .skip _, h | .proceed _, h | .offer .., h => h
  | .expr e, h => by
    have value := Expr.obeys_simplify constants e h
    cases e with
    | block body p => exact ⟨(Expr.obeys_ofBlock h.2).mp value, h.2⟩
    | _ => exact value
  | .define _ _ value _, h => ⟨optionObeys_simplifyOption constants value h.1, h.2⟩
  | .assign target op value p, h => by
    have given := Expr.obeys_simplify constants value h.2.1
    cases target with
    | chain root links =>
      have behind := linksObey_simplifyLinks constants links h.1.2
      cases root with
      | var name q => exact ⟨Expr.obeys_linkedTo h.1.1 behind, given, h.2.2⟩
      | _ => exact ⟨⟨h.1.1, behind⟩, given, h.2.2⟩
    | var x q => exact Stmt.obeys_simplify_assign given h
    | _ => exact ⟨h.1, given, h.2.2⟩
  | .block body _, h =>
    ⟨Pruning.bodyObeys_prune (bodyObeys_simplifyAllIn constants wanted false body h.1), h.2⟩
  | .branch guard yes no p, h => by
    have asked := Expr.obeys_simplify constants guard h.1
    have yes' := Pruning.bodyObeys_prune (q := ⟨wanted, true, false⟩)
      (bodyObeys_simplifyAllIn constants wanted false yes h.2.1)
    have no' := Pruning.bodyObeys_prune (q := ⟨wanted, true, false⟩)
      (bodyObeys_simplifyAllIn constants wanted false no h.2.2.1)
    unfold Stmt.simplify
    dsimp only
    -- A condition that is known leaves one of the branches.  Otherwise both are left, or none if they are empty.
    split
    · split
      · exact ⟨yes', h.2.2.2⟩
      · exact ⟨no', h.2.2.2⟩
    · split
      · refine ⟨Pruning.bodyObeys_prune ?_, h.2.2.2⟩
        split
        · exact ⟨asked, h.2.2.2, trivial⟩
        · exact ⟨asked, trivial⟩
      · exact ⟨asked, yes', no', h.2.2.2⟩
  | .select subject cases p, h => by
    have asked := Expr.obeys_simplify constants subject h.1
    have cases' := casesObey_simplifyCases constants cases h.2.1
    unfold Stmt.simplify
    dsimp only
    -- A subject that is known may decide for a case, whose action is a block or another expression.
    split
    · next decided =>
      obtain ⟨v, -, decided⟩ := Option.bind_eq_some_iff.mp decided
      exact ⟨(obeys_of_decided? cases' decided).1, h.2.2⟩
    · next decided =>
      obtain ⟨v, -, decided⟩ := Option.bind_eq_some_iff.mp decided
      exact obeys_of_decided? cases' decided
    · exact ⟨asked, cases', h.2.2⟩
  | .loop guard body q p, h => by
    have body' := Pruning.bodyObeys_prune (q := ⟨false, true, false⟩)
      (bodyObeys_simplifyAllIn constants false false body h.2.1)
    cases guard with
    | none => exact ⟨trivial, body', h.2.2⟩
    | some guard =>
      have asked := Expr.obeys_simplify constants guard h.1
      unfold Stmt.simplify
      dsimp only
      -- A condition that is known makes the loop endless, or leaves nothing of it.
      split
      · exact ⟨trivial, body', h.2.2⟩
      · exact h.2.2.2
      · exact ⟨asked, body', h.2.2⟩
  | .loopThen body guard _ _ _, h =>
    ⟨Pruning.bodyObeys_prune (bodyObeys_simplifyAllIn constants false false body h.1),
      Expr.obeys_simplify constants guard h.2.1, h.2.2⟩
  | .each name counter source body _ _, h =>
    ⟨Expr.obeys_simplify constants source h.1,
      Pruning.bodyObeys_prune (bodyObeys_simplifyAllIn _ false false body h.2.1), h.2.2⟩
  | .leave value _, h | .ret value _, h | .throw value _, h =>
    ⟨optionObeys_simplifyOption constants value h.1, h.2⟩
  | .obtain path _, h => ⟨Expr.obeys_simplify constants path h.1, h.2⟩
  | .attempt body name handler p, h => by
    have body' := Pruning.bodyObeys_prune (q := ⟨false, true, false⟩)
      (bodyObeys_simplifyAllIn constants false false body h.1)
    unfold Stmt.simplify
    dsimp only
    -- A pure body needs no handler.
    split
    · exact ⟨body', h.2.2⟩
    · exact ⟨body', Pruning.bodyObeys_prune (bodyObeys_simplifyAllIn _ false false handler h.2.1), h.2.2⟩

theorem casesObey_simplifyCases (constants : Constants) :
    ∀ (cs : List Case), CasesObey M cs → CasesObey M (simplifyCases constants cs)
  | [], _ => trivial
  | .mk _ guard action :: cs, h =>
    ⟨⟨optionObeys_simplifyGuard constants guard h.1.1, Expr.obeys_simplify constants action h.1.2⟩,
      casesObey_simplifyCases constants cs h.2⟩

theorem optionObeys_simplifyGuard (constants : Constants) :
    ∀ (guard : Option Expr), OptionObeys M guard → OptionObeys M (simplifyGuard constants guard)
  | none, _ => trivial
  | some e, h => by
    have guard := Expr.obeys_simplify constants e h
    unfold simplifyGuard
    split
    · exact trivial
    · exact guard

theorem bodyObeys_simplifyAllIn (constants : Constants) (wanted atEnd : Bool) :
    ∀ (ss : List Stmt), BodyObeys M ss → BodyObeys M (simplifyAllIn constants wanted atEnd ss)
  | [], _ => trivial
  | s :: ss, h => by
    have first := Stmt.obeys_simplify constants wanted s h.1
    have rest (constants : Constants) := bodyObeys_simplifyAllIn constants wanted atEnd ss h.2
    cases s with
    | block body p =>
      have inside := bodyObeys_simplifyAllIn constants wanted atEnd body h.1.1
      unfold simplifyAllIn
      dsimp only
      split
      · exact bodyObeys_append.mpr ⟨bodyObeys_dissolved true first, rest constants⟩
      · exact bodyObeys_append.mpr ⟨inside, rest constants⟩
    | define => exact ⟨first, rest _⟩
    | _ => exact bodyObeys_append.mpr ⟨bodyObeys_dissolved atEnd first, rest constants⟩

end

/-- The body of a function keeps its places when it is made simple. -/
theorem bodyObeys_simplifyWhole (h : BodyObeys M ss) : BodyObeys M (simplifyWhole ss) :=
  Pruning.bodyObeys_prune (bodyObeys_simplifyAllIn [] true true ss h)

end ScriptHost.Script
