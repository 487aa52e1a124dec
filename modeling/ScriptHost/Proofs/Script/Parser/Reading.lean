import ScriptHost.Proofs.Script.Parser.Steps

/-!
# Reading — what the parser makes of enclosed tokens

Every function of the parser takes as many closing braces as it takes opening ones, and the tree that it
gives obeys what its tokens obey.  So the text of a function is read as that function, and nothing is left
of it.
-/

namespace ScriptHost.Script

open Text (Position)

open ParseState (Stands)

variable {M : Marks} {fs : List Function} {d : Nat} {s : ParseState}

namespace Parse

/-! ## 1. Expressions and statements -/

/-- What the functions of the parser do with so much fuel. -/
structure Reads (M : Marks) (fs : List Function) (fuel : Nat) : Prop where
  expression : ∀ place, Balanced M fs (expression fuel place) (Expr.Obeys M)
  operand : ∀ place, Balanced M fs (operand fuel place) (Expr.Obeys M)
  operators : ∀ place last bound left, 0 < bound → left.Obeys M →
    Balanced M fs (operators fuel place last bound left) (Expr.Obeys M)
  alternative : ∀ place, Balanced M fs (alternative fuel place) (Expr.Obeys M)
  primary : ∀ place, Balanced M fs (primary fuel place) (Expr.Obeys M)
  closure : ∀ place params p, M.place p → Balanced M fs (closure fuel place params p) (Expr.Obeys M)
  links : ∀ place root found, root.Obeys M → LinksObey M found →
    Balanced M fs (links fuel place root found) (Expr.Obeys M)
  member : ∀ place root found joint, root.Obeys M → LinksObey M found → M.place joint.position →
    Balanced M fs (member fuel place root found joint) (Expr.Obeys M)
  subscript : ∀ place root found joint, root.Obeys M → LinksObey M found → M.place joint.position →
    Balanced M fs (subscript fuel place root found joint) (Expr.Obeys M)
  modulePath : ∀ place path, path ≠ [] → M.Path path →
    Balanced M fs (modulePath fuel place path) (Expr.Obeys M)
  calling : ∀ place name p {d s}, Stands M fs d false s →
    (opensCall s.head = true ∨ isSign s.head "!" = true) →
      Gives (calling fuel place name p) s fun args t => Stands M fs d false t ∧ AllObey M args
  arguments : ∀ place name, Balanced M fs (arguments fuel place name) (AllObey M)
  items : ∀ place, Balanced M fs (items fuel place) (AllObey M)
  entries : ∀ place seen, Closing M fs (entries fuel place seen) (EntriesObey M)
  pieces : ∀ place, Balanced M fs (pieces fuel place) (AllObey M)
  block : ∀ place, Balanced M fs (block fuel place) fun r => BodyObeys M r.1 ∧ M.place r.2
  blockStatements : ∀ place, Closing M fs (blockStatements fuel place) (BodyObeys M)
  condition : ∀ place, Balanced M fs (condition fuel place) (Expr.Obeys M)
  optionalValue : ∀ place p, Balanced M fs (optionalValue fuel place p) (OptionObeys M)
  statement : ∀ place, Balanced M fs (statement fuel place) (Stmt.Obeys M)
  branching : ∀ place {d s}, Stands M fs d false s → s.head.token = .keyword "if" →
    Gives (branching fuel place) s fun r t => Stands M fs d false t ∧ r.Obeys M
  iteration : ∀ place p, M.place p → Balanced M fs (iteration fuel place p) (Stmt.Obeys M)
  cases : ∀ place default ranged, Closing M fs (cases fuel place default ranged) (CasesObey M)
  literals : ∀ place, Balanced M fs (literals fuel place) fun _ => True

/-- A constant is one plain token. -/
theorem isPlain_of_constant? {t : Token} {v : Value} (h : constant? t = some v) : t.isPlain = true := by
  unfold constant? at h
  split at h
  case h_6 sign =>
    rw [Option.ite_none_right_eq_some, beq_iff_eq] at h
    rw [h.1]
    rfl
  case h_7 => exact nomatch h
  all_goals rfl

theorem reads_closureParameters (fuel : Nat) (seen : List String) :
    Balanced M fs (closureParameters fuel seen) fun _ => True := by
  intro d s hs
  induction fuel generalizing s seen with
  | zero => simp only [closureParameters, Ensures.bind_iff, gives_peek, gives_failAt]
  | succ fuel ih =>
    simp only [closureParameters, Ensures.bind_iff, gives_next]
    split <;> simp only [Ensures.ite_iff, Ensures.bind_iff, Ensures.pure_iff, gives_next, gives_failAt,
      gives_failInstead, isSign_iff]
    · next bar => exact ⟨hs.pass (bar ▸ rfl), trivial⟩
    · next word name =>
      have behind := hs.pass (name ▸ rfl)
      split
      · trivial
      · split
        · next bar => exact ⟨behind.pass (bar ▸ rfl), trivial⟩
        · split
          · next comma => exact ih _ (behind.pass (comma ▸ rfl))
          · trivial

section Functions

variable {fuel : Nat} (ih : Reads M fs fuel)
include ih

theorem reads_expression (place : Place) :
    Balanced M fs (expression (fuel + 1) place) (Expr.Obeys M) := by
  intro d s hs
  simp only [expression, Ensures.bind_iff, gives_peek, gives_deeper]
  intro _
  refine (ih.operand _ hs).imp₂ fun left t ht hl => ?_
  exact ih.operators _ _ _ _ Nat.one_pos hl ht

theorem reads_braced (place : Place)
    (inside : s.head.token = .symbol "\x7b" → Stands M fs (d + 1) false s.advance)
    (hp : s.head.token = .symbol "\x7b" → M.place s.head.position) :
    Gives (block (fuel + 1) place) s fun r t =>
      Stands M fs d false t ∧ BodyObeys M r.1 ∧ M.place r.2 := by
  simp only [block, Ensures.bind_iff, gives_expect, gives_deeper, gives_inScope, Ensures.pure_iff]
  intro brace _
  refine (ih.blockStatements _ (inside brace)).imp₂ fun body t ht hb => ?_
  exact ⟨ht.inScope _ _, hb, hp brace⟩

theorem reads_block (place : Place) :
    Balanced M fs (block (fuel + 1) place) fun r => BodyObeys M r.1 ∧ M.place r.2 := by
  intro d s hs
  exact reads_braced ih place (fun brace => hs.opening (.inl brace)) fun brace => hs.place (brace ▸ rfl)

theorem reads_operand (place : Place) : Balanced M fs (operand (fuel + 1) place) (Expr.Obeys M) := by
  intro d s hs
  simp only [operand, Ensures.bind_iff, gives_peek]
  split
  · exact gives_failAt
  · next sign h =>
    simp only [Ensures.ite_iff, Ensures.bind_iff, Ensures.discard_iff, gives_next, gives_deeper,
      Ensures.pure_iff]
    have place (plain : s.head.token.isPlain = true) := hs.place (Token.isLast_of_isPlain plain)
    split
    · next hsign =>
      have plain : s.head.token.isPlain = true := by
        rw [h]
        simp only [Bool.or_eq_true, beq_iff_eq] at hsign
        rcases hsign with (rfl | rfl) | rfl <;> rfl
      intro _
      refine (ih.operand _ (hs.pass plain)).imp₂ fun e t ht he => ?_
      exact ⟨ht, prefixedBy_obeys he (place plain)⟩
    · split
      · next hsign =>
        have plain : s.head.token.isPlain = true := by
          rw [h]
          simp only [Bool.or_eq_true, beq_iff_eq] at hsign
          rcases hsign with rfl | rfl <;> rfl
        exact ⟨hs, place plain⟩
      · exact ih.primary _ hs
  · exact ih.primary _ hs

theorem reads_operators (place : Place) (last : Position) (bound : Nat) (left : Expr)
    (positive : 0 < bound) (hl : left.Obeys M) :
    Balanced M fs (operators (fuel + 1) place last bound left) (Expr.Obeys M) := by
  intro d s hs
  simp only [operators, Ensures.bind_iff, gives_peek]
  refine gives_nextPrecedence fun level hlevel => ?_
  simp only [Ensures.ite_iff, Ensures.bind_iff, Ensures.discard_iff, gives_next, gives_deeper,
    Ensures.pure_iff]
  split
  · exact ⟨hs, hl⟩
  · next binds =>
    have plain : s.head.token.isPlain = true := isPlain_of_precedence <| by
      simp only [Bool.or_eq_true, Bool.and_eq_true, decide_eq_true_eq, not_or] at binds
      omega
    have hp := hs.place (Token.isLast_of_isPlain plain)
    have combined (place : Place) {right : Expr} {t : ParseState} (ht : Stands M fs d false t)
        (hr : right.Obeys M) :
        Gives (combine s.head.token.spelling left right s.head.position) t fun e t =>
          Gives (operators fuel place s.head.position bound e) t fun e t =>
            Stands M fs d false t ∧ e.Obeys M :=
      gives_combine hl hr hp fun e he => ih.operators _ _ _ _ positive he ht
    intro _
    -- Whatever the operand is read by, what follows it is the same.
    split
    all_goals first
      | refine (ih.alternative _ (hs.pass plain)).imp ?_
      | refine (ih.operand _ (hs.pass plain)).imp ?_
    all_goals
      rintro right t ⟨ht, hr⟩
      refine gives_nextPrecedence fun nextLevel _ => ?_
      split
      · refine (ih.operators _ _ _ _ ?_ hr ht).imp₂ fun right t ht hr => combined _ ht hr
        simp only [Bool.or_eq_true, Bool.and_eq_true, decide_eq_true_eq, not_or] at binds
        omega
      · exact combined _ ht hr

theorem reads_alternative (place : Place) :
    Balanced M fs (alternative (fuel + 1) place) (Expr.Obeys M) := by
  intro d s hs
  simp only [alternative, Ensures.bind_iff, gives_peek]
  split
  · next word h =>
    simp only [Ensures.ite_iff, Ensures.bind_iff, Ensures.pure_iff]
    split
    · refine (ih.statement _ hs).imp₂ fun r t ht hr => ?_
      exact ⟨ht, ⟨hr, trivial⟩, hs.place (by rw [h]; rfl)⟩
    · exact ih.operand _ hs
  · exact ih.operand _ hs

theorem reads_primary (place : Place) : Balanced M fs (primary (fuel + 1) place) (Expr.Obeys M) := by
  intro d s hs
  have placed {t : Token} (h : s.head.token = t) (goesOn : t.isLast = false) : M.place s.head.position :=
    hs.place (h ▸ goesOn)
  have passed {t : Token} (h : s.head.token = t) (plain : t.isPlain = true) :
      Stands M fs d false s.advance := hs.pass (h ▸ plain)
  simp only [primary, Ensures.bind_iff, gives_peek]
  split
  · next v constant =>
    have plain : s.head.token.isPlain = true := isPlain_of_constant? constant
    simp only [Ensures.bind_iff, Ensures.discard_iff, gives_next]
    exact ih.links place (.constant v s.head.position) [] (placed rfl (Token.isLast_of_isPlain plain)) trivial
      (passed rfl plain)
  split <;> simp only [Ensures.bind_iff, Ensures.discard_iff, gives_next, gives_deeper,
    gives_acceptSign, gives_expect, gives_peek, Ensures.ite_iff, gives_failAt]
  -- A block.
  · next h =>
    intro _
    refine (ih.block _ hs).imp₂ fun r t ht hr => ?_
    exact ih.links _ (.block r.1 s.head.position) [] ⟨hr.1, placed h rfl⟩ trivial ht
  -- Parentheses, around nothing or around an expression.
  · next h =>
    split
    · next closes =>
      have behind := (passed h rfl).pass (closes ▸ rfl)
      exact ih.links _ (.constant .unit s.head.position) [] (placed h rfl) trivial behind
    · intro _
      refine (ih.expression _ (passed h rfl)).imp₂ fun e t ht he => ?_
      intro closes
      exact ih.links _ e [] he trivial (ht.pass (closes ▸ rfl))
  -- An array.
  · next h =>
    intro _
    refine (ih.items _ (passed h rfl)).imp₂ fun es t ht he => ?_
    exact ih.links _ (.array es s.head.position) [] ⟨he, placed h rfl⟩ trivial ht
  -- A map, whose brace is counted with those of the blocks.
  · next h =>
    intro _
    refine (ih.entries _ _ (hs.opening (.inr h))).imp₂ fun es t ht he => ?_
    exact ih.links _ (.map es s.head.position) [] ⟨he, placed h rfl⟩ trivial ht
  -- A template.  Its first piece is left out where it is empty.
  · next text h =>
    intro _
    refine (ih.pieces _ (passed h rfl)).imp₂ fun parts t ht hp => ?_
    refine ih.links _ (.template _ s.head.position) [] ⟨allObey_append.mpr ⟨?_, hp⟩, placed h rfl⟩
      trivial ht
    split
    · trivial
    · exact ⟨placed h rfl, trivial⟩
  -- A closure, without parameters and with some.
  · next h =>
    refine (ih.closure _ _ _ (placed h rfl) (passed h rfl)).imp₂ fun e t ht he => ?_
    exact ih.links _ e [] he trivial ht
  · next h =>
    refine (reads_closureParameters fuel [] (passed h rfl)).imp₂ fun params t ht _ => ?_
    refine (ih.closure _ _ _ (placed h rfl) ht).imp₂ fun e t ht he => ?_
    exact ih.links _ e [] he trivial ht
  -- A statement that is used for its value.
  · next word _ _ h =>
    split
    · refine (ih.statement _ hs).imp₂ fun r t ht hr => ?_
      exact ih.links _ (.block [r] s.head.position) [] ⟨⟨hr, trivial⟩, placed h rfl⟩ trivial ht
    · trivial
  -- A name is called, or leads into a path, or is that of a variable.
  · next word h =>
    have behind := passed h rfl
    split
    · next opens =>
      refine (ih.calling _ _ _ behind ?_).imp₂ fun args t ht ha => ?_
      · simpa using opens
      · exact ih.links _ (.call word args s.head.position) [] ⟨ha, placed h rfl⟩ trivial ht
    · split
      · next sign =>
        refine ih.modulePath _ _ (List.cons_ne_nil _ _) ⟨?_, ?_⟩ behind
        · simpa using placed h rfl
        · simpa using hs.root h (isSign_iff.mp sign)
      · refine gives_ensureVariable behind (placed h rfl) fun t ht => ?_
        exact ih.links _ (.var word s.head.position) [] (placed h rfl) trivial ht
  -- A reserved word is called, or it is `this` in a function.
  · next word h =>
    have behind := passed h rfl
    split
    · next opens =>
      refine (ih.calling _ _ _ behind (.inl ?_)).imp₂ fun args t ht ha => ?_
      · exact (Bool.and_eq_true _ _ ▸ opens).1
      · exact ih.links _ (.call word args s.head.position) [] ⟨ha, placed h rfl⟩ trivial ht
    · split
      · split
        · exact ih.links _ (.this s.head.position) [] (placed h rfl) trivial behind
        · trivial
      · trivial

theorem reads_closure (place : Place) (params : List String) (p : Position) (hp : M.place p) :
    Balanced M fs (closure (fuel + 1) place params p) (Expr.Obeys M) := by
  intro d s hs
  simp only [closure, Ensures.bind_iff, Ensures.get_iff, Ensures.modify_iff, Ensures.pure_iff, gives_deeper]
  intro _
  -- Inside, the parameters are the only variables, and nothing is held yet.
  have inside : Stands M fs d false
      { s with scope := params.reverse.map (⟨·, false⟩), held := [] } :=
    ⟨hs.enclosed, hs.functions, List.forall_mem_nil _⟩
  refine (ih.statement _ inside).imp₂ fun r t ht hr => ?_
  -- Behind the body the variables outside are back, and all that it holds must be among them.
  refine gives_ensureVariables (s := { t with
    scope := s.scope, modules := s.modules, held := s.held, hasClosures := true })
    ⟨ht.enclosed, ht.functions, hs.held⟩ ht.held fun u hu => ⟨hu, ?_, ?_, hp⟩
  · exact List.forall_mem_map.mpr ht.held
  · split
    · exact hr.1
    · exact ⟨hr, trivial⟩

theorem reads_links (place : Place) (root : Expr) (found : List Link) (hroot : root.Obeys M)
    (hfound : LinksObey M found) :
    Balanced M fs (links (fuel + 1) place root found) (Expr.Obeys M) := by
  intro d s hs
  have obliged := obligatory_obeys hfound
  simp only [links, Ensures.bind_iff, gives_peek]
  split <;> simp only [Ensures.bind_iff, Ensures.discard_iff, gives_next, Ensures.pure_iff]
  · next h => exact ih.member _ _ _ _ hroot obliged (hs.place (h ▸ rfl)) (hs.pass (h ▸ rfl))
  · next h => exact ih.member _ _ _ _ hroot obliged (hs.place (h ▸ rfl)) (hs.pass (h ▸ rfl))
  · next h => exact ih.subscript _ _ _ _ hroot hfound (hs.place (h ▸ rfl)) (hs.pass (h ▸ rfl))
  · next h => exact ih.subscript _ _ _ _ hroot hfound (hs.place (h ▸ rfl)) (hs.pass (h ▸ rfl))
  · refine ⟨hs, ?_⟩
    split
    · exact hroot
    · exact ⟨hroot, linksObey_iff.mpr fun l hl => linksObey_iff.mp hfound l (List.mem_reverse.mp hl)⟩

theorem reads_member (place : Place) (root : Expr) (found : List Link) (joint : Joint)
    (hroot : root.Obeys M) (hfound : LinksObey M found) (hjoint : M.place joint.position) :
    Balanced M fs (member (fuel + 1) place root found joint) (Expr.Obeys M) := by
  intro d s hs
  have method (place : Place) {name : String} (opens : s.rest[1]?.any opensCall = true)
      (plain : s.head.token.isPlain = true) :
      Gives (calling fuel place name s.head.position) s.advance fun args t =>
        Gives (links fuel place root (.method name args s.head.position joint :: found)) t fun e t =>
          Stands M fs d false t ∧ e.Obeys M := by
    have hp := hs.place (Token.isLast_of_isPlain plain)
    refine (ih.calling _ _ _ (hs.pass plain) (.inl (ParseState.any_behind opens))).imp ?_
    rintro args t ⟨ht, ha⟩
    exact ih.links _ root (.method name args _ joint :: found) hroot ⟨⟨ha, hp, hjoint⟩, hfound⟩ ht
  simp only [member, Ensures.bind_iff, gives_peek, gives_deeper, gives_peekBehind]
  intro _
  split
  · next word h =>
    have hp := hs.place (h ▸ rfl)
    simp only [Ensures.ite_iff, Ensures.bind_iff, Ensures.discard_iff, gives_next]
    split
    · next opens => exact method _ opens (h ▸ rfl)
    · split
      · exact .of_true (fun _ _ => gives_failAt) fun _ _ => trivial
      · split
        · exact gives_failAt
        · simp only [Ensures.bind_iff, Ensures.discard_iff, gives_next]
          exact ih.links _ root (.property word _ joint :: found) hroot ⟨⟨hp, hjoint⟩, hfound⟩
            (hs.pass (h ▸ rfl))
  · next word h =>
    simp only [Ensures.ite_iff, Ensures.bind_iff, Ensures.discard_iff, gives_next, gives_failAt]
    split
    · next opens => exact method _ (Bool.and_eq_true _ _ ▸ opens).2 (h ▸ rfl)
    · trivial
  · exact gives_failAt

theorem reads_subscript (place : Place) (root : Expr) (found : List Link) (joint : Joint)
    (hroot : root.Obeys M) (hfound : LinksObey M found) (hjoint : M.place joint.position) :
    Balanced M fs (subscript (fuel + 1) place root found joint) (Expr.Obeys M) := by
  intro d s hs
  simp only [subscript, Ensures.bind_iff, gives_deeper]
  intro _
  refine (ih.expression _ hs).imp₂ fun key t ht hk => ?_
  have closed (place : Place) (bracket : ¬(!isSign t.head "]") = true) :
      Gives (links fuel place root (.index key joint :: found)) t.advance fun e t =>
        Stands M fs d false t ∧ e.Obeys M := by
    have bracket : t.head.token = .symbol "]" := by simpa using bracket
    exact ih.links _ root (.index key joint :: found) hroot ⟨⟨hk, hjoint⟩, hfound⟩
      (ht.pass (bracket ▸ rfl))
  simp only [Ensures.ite_iff, Ensures.bind_iff, Ensures.discard_iff, gives_peek, gives_next,
    gives_failInstead]
  split
  · split
    · exact gives_failAt
    · simp only [Ensures.ite_iff, Ensures.bind_iff, Ensures.discard_iff, gives_peek, gives_next,
        gives_failInstead]
      split
      · trivial
      · next bracket => exact closed _ bracket
  · split
    · trivial
    · next bracket => exact closed _ bracket

theorem reads_modulePath (place : Place) (path : List Ident) (rooted : path ≠ [])
    (hpath : M.Path path) :
    Balanced M fs (modulePath (fuel + 1) place path) (Expr.Obeys M) := by
  intro d s hs
  simp only [modulePath, Ensures.bind_iff, gives_acceptSign]
  split
  · next sign =>
    simp only [if_true, Ensures.bind_iff, gives_variableName]
    intro word h
    have onPath := hs.path sign
    have longer := hpath.append (i := ⟨word, _⟩) (onPath.place (h ▸ rfl)) rooted
    exact ih.modulePath _ _ (by simp) longer (onPath.pass (h ▸ rfl))
  · simp only [Bool.false_eq_true, if_false]
    split
    · simp only [Ensures.bind_iff, gives_peek, gives_failAt]
    · next last hlast =>
      have hp := hpath.places last (List.mem_of_getLast? hlast)
      have shorter := hpath.dropLast
      simp only [Ensures.bind_iff, gives_peek, gives_peekBehind, Ensures.ite_iff, gives_failAt, isSign_iff]
      split
      · split <;> trivial
      · split
        · next opens =>
          refine (ih.calling _ _ _ hs (.inl opens)).imp₂ fun args t ht ha => gives_ensureModule ?_
          exact ih.links _ (.moduleCall path.dropLast last.name args last.position) [] ⟨shorter, ha, hp⟩
            trivial ht
        · refine (ih.links _ (.moduleVariable path.dropLast last.name last.position) [] ⟨shorter, hp⟩
            trivial hs).imp fun e t he => gives_ensureModule he

/-- Behind the opening parenthesis of a call are its arguments. -/
theorem reads_opened (place : Place) (name : String) (p : Position) (hs : Stands M fs d false s)
    (opens : opensCall s.head = true) :
    Gives (do
      let opening ← next
      if isSign opening "()" then return []
      else if ← acceptSign ")" then return []
      else
        let l ← peek
        match l.token with
        | .eof => failAt l.position (.missing ")" (closingPurpose name))
        | .fault f => failAt l.position (.lexical f)
        | _ => arguments fuel (← deeper p place) name) s fun args t =>
      Stands M fs d false t ∧ AllObey M args := by
  have passed : Stands M fs d false s.advance := hs.pass <| by
    rcases opensCall_iff.mp opens with h | h <;> exact h ▸ rfl
  simp only [Ensures.bind_iff, gives_next, Ensures.ite_iff, Ensures.pure_iff, gives_acceptSign,
    gives_peek, reduceIte, Bool.false_eq_true]
  split
  · exact ⟨passed, trivial⟩
  · split
    · next closes => exact ⟨passed.pass (closes ▸ rfl), trivial⟩
    · split <;> simp only [Ensures.bind_iff, gives_deeper, gives_failAt]
      exact fun _ => ih.arguments _ _ passed

theorem reads_calling (place : Place) (name : String) (p : Position) (hs : Stands M fs d false s)
    (start : opensCall s.head = true ∨ isSign s.head "!" = true) :
    Gives (calling (fuel + 1) place name p) s fun args t => Stands M fs d false t ∧ AllObey M args := by
  rw [calling]
  simp only [Ensures.bind_iff (x := acceptSign "!"), gives_acceptSign, reduceIte, Bool.false_eq_true]
  split
  · next mark =>
    simp only [Ensures.bind_iff (x := peek), gives_peek, Ensures.ite_iff]
    split
    · simp only [Ensures.bind_iff, gives_failAt]
    · next opens => exact reads_opened ih place name p (hs.pass (mark ▸ rfl)) (by simpa using opens)
  · next noMark => exact reads_opened ih place name p hs (start.resolve_right fun mark => noMark (isSign_iff.mp mark))

theorem reads_arguments (place : Place) (name : String) :
    Balanced M fs (arguments (fuel + 1) place name) (AllObey M) := by
  intro d s hs
  simp only [arguments, Ensures.bind_iff, gives_acceptSign]
  split
  · next sign => exact ⟨hs.pass (sign ▸ rfl), trivial⟩
  · simp only [Bool.false_eq_true, if_false, Ensures.bind_iff]
    refine (ih.expression _ hs).imp₂ fun e t ht he => ?_
    simp only [Ensures.ite_iff, Ensures.bind_iff, Ensures.discard_iff, gives_peek, gives_next,
      Ensures.pure_iff, gives_failAt, gives_failInstead, isSign_iff]
    split
    · next sign => exact ⟨ht.pass (sign ▸ rfl), he, trivial⟩
    · split
      · next sign =>
        refine (ih.arguments _ _ (ht.pass (sign ▸ rfl))).imp₂ fun es t ht hes => ?_
        exact ⟨ht, he, hes⟩
      · split <;> trivial

theorem reads_items (place : Place) : Balanced M fs (items (fuel + 1) place) (AllObey M) := by
  intro d s hs
  simp only [items, Ensures.bind_iff, gives_peek, Ensures.ite_iff, Ensures.discard_iff, gives_next,
    Ensures.pure_iff, gives_failAt, gives_failInstead, isSign_iff]
  split
  · next sign => exact ⟨hs.pass (sign ▸ rfl), trivial⟩
  · split
    · trivial
    · refine (ih.expression _ hs).imp₂ fun e t ht he => ?_
      split
      · next sign =>
        refine (ih.items _ (ht.pass (sign ▸ rfl))).imp₂ fun es t ht hes => ?_
        exact ⟨ht, he, hes⟩
      · split
        · refine (ih.items _ ht).imp₂ fun es t ht hes => ?_
          exact ⟨ht, he, hes⟩
        · split <;> trivial

theorem reads_entries (place : Place) (seen : List String) :
    Closing M fs (entries (fuel + 1) place seen) (EntriesObey M) := by
  intro d s hs
  simp only [entries, Ensures.bind_iff, gives_next]
  split <;> simp only [Ensures.bind_iff, gives_next, gives_peek, Ensures.ite_iff, Ensures.pure_iff,
    gives_failAt, gives_failInstead, ite_self]
  case h_1 closes => exact ⟨hs.closing closes, trivial⟩
  -- The key is a name or a text.
  case h_2 key h | h_3 key h =>
    split
    · trivial
    · split
      · trivial
      · next colon =>
        have colon : s.advance.head.token = .symbol ":" := by simpa using colon
        have behind := (hs.pass (h ▸ rfl)).pass (colon ▸ rfl)
        refine (ih.expression _ behind).imp₂ fun e t ht he => ?_
        split <;> simp only [Ensures.bind_iff, gives_next, Ensures.discard_iff, Ensures.pure_iff,
          gives_failAt, gives_failInstead]
        · next comma =>
          refine (ih.entries _ _ (ht.pass (comma ▸ rfl))).imp₂ fun es t ht hes => ?_
          exact ⟨ht, he, hes⟩
        · refine (ih.entries _ _ ht).imp₂ fun es t ht hes => ?_
          exact ⟨ht, he, hes⟩

theorem reads_pieces (place : Place) : Balanced M fs (pieces (fuel + 1) place) (AllObey M) := by
  intro d s hs
  have piece {text : String} {p : Position} (hp : M.place p) :
      AllObey M (if text.isEmpty then [] else [.constant (.text text) p]) := by
    split
    · trivial
    · exact ⟨hp, trivial⟩
  simp only [pieces, Ensures.bind_iff, gives_next]
  refine (ih.block _ hs).imp₂ fun r t ht hr => ?_
  have block : AllObey M [.block r.1 r.2] := ⟨hr, trivial⟩
  split <;> simp only [Ensures.bind_iff, Ensures.pure_iff, gives_failAt]
  · next h => exact ⟨ht.pass (h ▸ rfl), allObey_append.mpr ⟨block, piece (ht.place (h ▸ rfl))⟩⟩
  · next h =>
    refine (ih.pieces _ (ht.pass (h ▸ rfl))).imp₂ fun es u hu hes => ⟨hu, ?_⟩
    exact allObey_append.mpr ⟨allObey_append.mpr ⟨block, piece (ht.place (h ▸ rfl))⟩, hes⟩

theorem reads_blockStatements (place : Place) :
    Closing M fs (blockStatements (fuel + 1) place) (BodyObeys M) := by
  intro d s hs
  simp only [blockStatements, Ensures.bind_iff, gives_peek, Ensures.ite_iff, Ensures.discard_iff,
    gives_next, Ensures.pure_iff, gives_failAt, gives_failInstead, isSign_iff]
  split
  · next closes => exact ⟨hs.closing closes, trivial⟩
  · split
    · trivial
    · split
      · next h => exact ih.blockStatements _ (hs.pass (h ▸ rfl))
      · refine (ih.statement _ hs).imp₂ fun r t ht hr => ?_
        have more {t : ParseState} (ht : Stands M fs (d + 1) false t) :
            Gives (blockStatements fuel place) t fun rs t =>
              Stands M fs d false t ∧ BodyObeys M (r :: rs) :=
          (ih.blockStatements _ ht).imp₂ fun rs t ht hrs => ⟨ht, hr, hrs⟩
        split
        · exact more ht
        · split
          · next h => exact more (ht.pass (h ▸ rfl))
          · split
            · exact more ht
            · trivial

theorem reads_condition (place : Place) : Balanced M fs (condition (fuel + 1) place) (Expr.Obeys M) := by
  intro d s hs
  simp only [condition, ensureNoBlock, ensureNoAssignment, Ensures.bind_iff, gives_peek,
    Ensures.ite_iff, Ensures.pure_iff, gives_failAt]
  split
  · trivial
  · refine (ih.expression _ hs).imp fun e t he => gives_ensureKind ?_
    split
    · trivial
    · exact he

theorem reads_optionalValue (place : Place) (p : Position) :
    Balanced M fs (optionalValue (fuel + 1) place p) (OptionObeys M) := by
  intro d s hs
  simp only [optionalValue, Ensures.bind_iff, gives_peek, Ensures.ite_iff, Ensures.pure_iff, gives_deeper]
  split
  · exact ⟨hs, trivial⟩
  · split
    · exact ⟨hs, trivial⟩
    · exact fun _ => (ih.expression _ hs).imp fun e t he => he

theorem reads_statement (place : Place) : Balanced M fs (statement (fuel + 1) place) (Stmt.Obeys M) := by
  intro d s hs
  have placed {t : Token} (h : s.head.token = t) (goesOn : t.isLast = false) : M.place s.head.position :=
    hs.place (h ▸ goesOn)
  have passed {t : Token} (h : s.head.token = t) (plain : t.isPlain = true) :
      Stands M fs d false s.advance := hs.pass (h ▸ plain)
  simp only [statement, Ensures.bind_iff, gives_peek]
  split <;> simp only [Ensures.bind_iff, Ensures.discard_iff, gives_next, gives_peek, gives_deeper,
    gives_expect, Ensures.pure_iff, Ensures.ite_iff, gives_failAt]
  · exact fun _ => (ih.block _ hs).imp₂ fun r t ht hr => ⟨ht, hr⟩
  · next h => exact fun _ => ih.branching _ hs h
  -- The brace of a switch opens its cases.
  · next h =>
    intro _
    refine (ih.expression _ (passed h rfl)).imp₂ fun subject t ht hsubject brace => ?_
    refine (ih.cases _ _ _ (ht.opening (.inl brace))).imp₂ fun cs t ht hcs => ?_
    exact ⟨ht, hsubject, hcs, placed h rfl⟩
  -- Loops: with the condition in front, without one, and with it behind the body.
  · next h =>
    intro _
    refine (ih.condition _ (passed h rfl)).imp₂ fun guard t ht hg => ?_
    refine (ih.block _ ht).imp₂ fun r t ht hr => ?_
    exact ⟨ht, hg, hr.1, hr.2, placed h rfl⟩
  · next h =>
    intro _
    refine (ih.block _ (passed h rfl)).imp₂ fun r t ht hr => ?_
    exact ⟨ht, trivial, hr.1, hr.2, placed h rfl⟩
  · next h =>
    intro _
    refine (ih.block _ (passed h rfl)).imp₂ fun r t ht hr => ?_
    split <;> simp only [Ensures.bind_iff, Ensures.pure_iff, gives_failAt]
    all_goals
      next word =>
      refine (ih.condition _ (ht.pass (word ▸ rfl))).imp₂ fun guard t ht hg => ?_
      exact ⟨ht, hr.1, hg, hr.2, placed h rfl⟩
  · next h => exact fun _ => ih.iteration _ _ (placed h rfl) (passed h rfl)
  -- What leads out of a loop or a function, with a value or alone.
  · next h =>
    split
    · trivial
    · exact ⟨passed h rfl, placed h rfl⟩
  · next h =>
    split
    · trivial
    · refine (ih.optionalValue _ _ (passed h rfl)).imp₂ fun v t ht hv => ?_
      exact ⟨ht, hv, placed h rfl⟩
  · next h =>
    refine (ih.optionalValue _ _ (passed h rfl)).imp₂ fun v t ht hv => ?_
    exact ⟨ht, hv, placed h rfl⟩
  · next h =>
    refine (ih.optionalValue _ _ (passed h rfl)).imp₂ fun v t ht hv => ?_
    exact ⟨ht, hv, placed h rfl⟩
  -- The handler of a failure may have a name for it, which is gone behind the handler.
  · next h =>
    intro _
    refine (ih.block _ (passed h rfl)).imp₂ fun r t ht hr => ?_
    have handled {t : ParseState} (place : Place) (name : Option Ident) (ht : Stands M fs d false t) :
        Gives (block fuel place) t fun r' t =>
          Stands M fs d false t ∧ (Stmt.attempt r.1 name r'.1 s.head.position).Obeys M :=
      (ih.block _ ht).imp₂ fun r' t ht hr' => ⟨ht, hr.1, hr'.1, placed h rfl⟩
    simp only [gives_accept, Ensures.bind_iff, Ensures.pure_iff, Ensures.ite_iff, gives_inScope,
      gives_acceptSign, gives_variableName, gives_require, gives_declare]
    split
    · next word =>
      have behind := ht.pass (word ▸ rfl)
      simp only [Bool.not_true, Bool.false_eq_true, if_false]
      split
      · next paren =>
        simp only [if_true]
        intro w name closes
        have inside := ((behind.pass (paren ▸ rfl)).pass (name ▸ rfl)).pass (closes ▸ rfl)
        exact (handled _ _ (inside.inScope _ _)).imp fun r' t h => ⟨h.1.inScope _ _, h.2⟩
      · exact (handled _ none behind).imp₂ fun r' t ht hr' => ⟨ht.inScope _ _, hr'⟩
    · simp only [Bool.not_false, if_true]
  -- A definition is known behind its value, so the value does not see it.
  case h_15 h | h_16 h =>
    simp only [gives_variableName, gives_acceptSign, gives_declare, Ensures.map_iff]
    intro _ w name
    have behind := (passed h rfl).pass (name ▸ rfl)
    split
    · next sign =>
      simp only [if_true]
      refine (ih.expression _ (behind.pass (sign ▸ rfl))).imp₂ fun e t ht he => ?_
      exact ⟨ht.inScope _ _, he, placed h rfl⟩
    · simp only [Bool.false_eq_true, if_false]
      exact ⟨behind.inScope _ _, trivial, placed h rfl⟩
  · next h =>
    intro _
    refine (ih.expression _ (passed h rfl)).imp₂ fun e t ht he => ?_
    simp only [gives_accept, gives_variableName, Ensures.modify_iff]
    split
    · next word =>
      simp only [if_true]
      intro w name
      have behind := (ht.pass (word ▸ rfl)).pass (name ▸ rfl)
      exact ⟨behind.inScope _ _, he, placed h rfl⟩
    · exact ⟨ht, he, placed h rfl⟩
  -- Only a definition or a name is offered, the name perhaps under another one.
  · next h =>
    split
    · trivial
    · intro _
      split
      · exact ih.statement _ (passed h rfl)
      · simp only [gives_accept, gives_variableName]
        intro w name
        have behind := (passed h rfl).pass (name ▸ rfl)
        have named := (passed h rfl).place (name ▸ rfl)
        split
        · next word =>
          simp only [if_true]
          intro w' name'
          exact ⟨(behind.pass (word ▸ rfl)).pass (name' ▸ rfl), named, placed h rfl⟩
        · exact ⟨behind, named, placed h rfl⟩
  -- Anything else starts with an expression, which may be assigned to.
  · intro _
    refine (ih.expression _ hs).imp₂ fun e t ht he => ?_
    split
    · next sign h =>
      simp only [Ensures.ite_iff, Ensures.bind_iff, Ensures.discard_iff, gives_next, Ensures.pure_iff]
      split
      · next assigns =>
        have plain : t.head.token.isPlain = true := h ▸ isPlain_of_assigning assigns
        refine (ih.expression _ (ht.pass plain)).imp₂ fun v u hu hv => ?_
        exact gives_assignment he hv (ht.place (Token.isLast_of_isPlain plain)) fun r hr => ⟨hu, hr⟩
      · exact ⟨ht, he⟩
    · exact ⟨ht, he⟩

theorem reads_branching (place : Place) (hs : Stands M fs d false s)
    (word : s.head.token = .keyword "if") :
    Gives (branching (fuel + 1) place) s fun r t => Stands M fs d false t ∧ r.Obeys M := by
  have hp := hs.place (word ▸ rfl)
  simp only [branching, Ensures.bind_iff, gives_next]
  refine (ih.condition _ (hs.pass (word ▸ rfl))).imp₂ fun guard t ht hg => ?_
  refine (ih.block _ ht).imp₂ fun yes t ht hyes => ?_
  simp only [gives_accept, gives_peek, Ensures.bind_iff, Ensures.ite_iff, Ensures.pure_iff, gives_deeper]
  split
  · next otherwise =>
    have behind := ht.pass (otherwise ▸ rfl)
    simp only [if_true]
    split
    · next again =>
      intro _
      refine (ih.branching _ behind (by simpa using again)).imp₂ fun no t ht hno => ?_
      exact ⟨ht, hg, hyes.1, ⟨hno, trivial⟩, hp⟩
    · refine (ih.block _ behind).imp₂ fun no t ht hno => ?_
      exact ⟨ht, hg, hyes.1, hno.1, hp⟩
  · exact ⟨ht, hg, hyes.1, trivial, hp⟩

theorem reads_literals (place : Place) : Balanced M fs (literals (fuel + 1) place) fun _ => True := by
  intro d s hs
  simp only [literals, Ensures.bind_iff]
  refine Ensures.tryCatch_of ((ih.expression _ hs).imp₂ fun e t ht _ => ?_) fun _ _ _ => trivial
  simp only [gives_acceptSign, Ensures.ite_iff, Ensures.bind_iff, Ensures.pure_iff]
  split
  · next bar =>
    simp only [if_true]
    exact (ih.literals _ (ht.pass (bar ▸ rfl))).imp₂ fun es t ht _ => ⟨ht, trivial⟩
  · exact ⟨ht, trivial⟩

theorem reads_iteration (place : Place) (p : Position) (hp : M.place p) :
    Balanced M fs (iteration (fuel + 1) place p) (Stmt.Obeys M) := by
  intro d s hs
  simp only [iteration, Ensures.bind_iff, gives_acceptSign, reduceIte, Bool.false_eq_true,
    gives_variableName, gives_require, gives_next, gives_failInstead, gives_failAt, Ensures.ite_iff,
    Ensures.pure_iff, gives_inScope, gives_declare, ensureNoBlock, ensureIterable, gives_peek]
  split
  case' isTrue paren =>
    intro w name comma w' name'
    split
    · trivial
    intro closes
    have inside := ((hs.pass (paren ▸ rfl)).pass (name ▸ rfl)).pass (comma ▸ rfl)
    have behind := (inside.pass (name' ▸ rfl)).pass (closes ▸ rfl)
  case' isFalse =>
    intro w name
    have behind := hs.pass (name ▸ rfl)
  -- Behind its variables a loop goes on in one way.
  all_goals
    split
    · trivial
    next word =>
    split
    · trivial
    have word := by simpa using word
    refine (ih.expression _ (behind.pass (word ▸ rfl))).imp₂ fun source t ht hsource => ?_
    refine gives_ensureKind ((ih.block _ (ht.inScope _ _)).imp₂ fun r t ht hr => ?_)
    exact ⟨ht.inScope _ _, hsource, hr.1, hr.2, hp⟩

theorem reads_cases (place : Place) (default : Option Position) (ranged : Bool) :
    Closing M fs (cases (fuel + 1) place default ranged) (CasesObey M) := by
  intro d s hs
  simp only [cases, Ensures.bind_iff, Ensures.ite_iff, Ensures.pure_iff, Ensures.discard_iff,
    gives_peek, gives_failAt, gives_next, isSign_iff]
  split
  · next closes => exact ⟨hs.closing closes, trivial⟩
  · split
    · trivial
    · split <;> simp only [Ensures.bind_iff, Ensures.ite_iff, Ensures.pure_iff, Ensures.discard_iff,
        gives_peek, gives_failAt, gives_next, gives_expect, gives_failInstead]
      refine gives_caseLiterals (ih.literals _) hs isSign_iff.mp fun es t ht => ?_
      refine gives_caseGuard (ih.condition _) ht fun guard t ht hg => ?_
      intro arrow
      refine (ih.statement _ (ht.pass (arrow ▸ rfl))).imp₂ fun r t ht hr => ?_
      refine gives_patterns fun ps => ?_
      split
      · next comma =>
        exact (ih.cases _ _ _ (ht.pass (comma ▸ rfl))).imp₂ fun cs t ht hcs => ⟨ht, ⟨hg, action_obeys r hr⟩, hcs⟩
      · split
        · exact (ih.cases _ _ _ ht).imp₂ fun cs t ht hcs => ⟨ht, ⟨hg, action_obeys r hr⟩, hcs⟩
        · split
          · trivial
          · split
            · exact (ih.cases _ _ _ ht).imp₂ fun cs t ht hcs => ⟨ht, ⟨hg, action_obeys r hr⟩, hcs⟩
            · trivial

end Functions

/-- What every function of the parser does with any fuel. -/
theorem reads (M : Marks) (fs : List Function) (fuel : Nat) : Reads M fs fuel := by
  -- On the fuel: every function of the parser runs the others with one step less.
  induction fuel with
  | zero =>
    have fails {α : Type} {cause : Cause} {d : Nat} {s : ParseState} {Q : α → ParseState → Prop}
        (_ : Stands M fs d false s) : Gives (do failAt (← peek).position cause) s Q := by
      simp only [Ensures.bind_iff, gives_peek, gives_failAt]
    have gives {α : Type} {a : α} {Good : α → Prop} (good : Good a) : Balanced M fs (pure a) Good :=
      fun hs => ⟨hs, good⟩
    exact {
      expression := fun _ => fails
      operand := fun _ => fails
      operators := fun _ _ _ _ _ hl => gives hl
      alternative := fun _ => fails
      primary := fun _ => fails
      closure := fun _ _ _ _ => fails
      links := fun _ _ _ hroot _ => gives hroot
      member := fun _ _ _ _ hroot _ _ => gives hroot
      subscript := fun _ _ _ _ hroot _ _ => gives hroot
      modulePath := fun _ _ _ _ => fails
      calling := fun _ _ _ _ _ hs _ => ⟨hs, trivial⟩
      arguments := fun _ _ => gives trivial
      items := fun _ => gives trivial
      entries := fun _ _ => fails
      pieces := fun _ => gives trivial
      block := fun _ => fails
      blockStatements := fun _ => fails
      condition := fun _ => fails
      optionalValue := fun _ _ => gives trivial
      statement := fun _ => fails
      branching := fun _ _ _ hs _ => fails hs
      iteration := fun _ _ _ => fails
      cases := fun _ _ _ => fails
      literals := fun _ => gives trivial }
  | succ fuel ih =>
    exact {
      expression := reads_expression ih
      operand := reads_operand ih
      operators := reads_operators ih
      alternative := reads_alternative ih
      primary := reads_primary ih
      closure := reads_closure ih
      links := reads_links ih
      member := reads_member ih
      subscript := reads_subscript ih
      modulePath := reads_modulePath ih
      calling := fun place name p _ _ => reads_calling ih place name p
      arguments := reads_arguments ih
      items := reads_items ih
      entries := reads_entries ih
      pieces := reads_pieces ih
      block := reads_block ih
      blockStatements := reads_blockStatements ih
      condition := reads_condition ih
      optionalValue := reads_optionalValue ih
      statement := reads_statement ih
      branching := fun place _ _ => reads_branching ih place
      iteration := reads_iteration ih
      cases := reads_cases ih
      literals := reads_literals ih }

/-! ## 2. Functions and scripts -/

/-- The tokens behind the header of a function: its body. -/
def Braced (M : Marks) (ls : List Lexeme) : Prop :=
  ∃ p body, ls = ⟨.symbol "\x7b", p⟩ :: body ∧ M.place p ∧ Enclosed M 1 false body

/-- The tokens of a list of parameters from its first name on.  A name that is none ends them. -/
inductive Spelled (M : Marks) : List String → List Lexeme → Prop
  | fault {xs : List String} {cause : LexFault} {p : Position} : Spelled M xs [⟨.fault cause, p⟩]
  | last {x : String} {p q : Position} {ls : List Lexeme} (body : Braced M ls) :
      Spelled M [x] (⟨.ofWord x, p⟩ :: ⟨.symbol ")", q⟩ :: ls)
  | more {x : String} {xs : List String} {p q : Position} {ls : List Lexeme} (rest : Spelled M xs ls) :
      Spelled M (x :: xs) (⟨.ofWord x, p⟩ :: ⟨.symbol ",", q⟩ :: ls)

/-- The tokens of a function. -/
inductive Headed (M : Marks) (name : String) : List String → List Lexeme → Prop
  | fault {xs : List String} {cause : LexFault} {p q : Position} :
      Headed M name xs [⟨.keyword "fn", p⟩, ⟨.fault cause, q⟩]
  | bare {p q r : Position} {ls : List Lexeme} (body : Braced M ls) :
      Headed M name [] (⟨.keyword "fn", p⟩ :: ⟨.ofWord name, q⟩ :: ⟨.symbol "()", r⟩ :: ls)
  | listed {xs : List String} {p q r : Position} {ls : List Lexeme} (params : Spelled M xs ls) :
      Headed M name xs (⟨.keyword "fn", p⟩ :: ⟨.ofWord name, q⟩ :: ⟨.symbol "(", r⟩ :: ls)

section Mono

variable {N : Marks} {name : String} {xs : List String} {ls : List Lexeme}

theorem Braced.mono (h : Braced M ls) (weaker : M.Weakens N) : Braced N ls := by
  obtain ⟨p, body, rfl, place, enclosed⟩ := h
  exact ⟨p, body, rfl, weaker.place p place, enclosed.mono weaker⟩

theorem Spelled.mono (h : Spelled M xs ls) (weaker : M.Weakens N) : Spelled N xs ls := by
  induction h with
  | fault => exact .fault
  | last body => exact .last (body.mono weaker)
  | more _ ih => exact .more ih

theorem Headed.mono (h : Headed M name xs ls) (weaker : M.Weakens N) : Headed N name xs ls := by
  cases h with
  | fault => exact .fault
  | bare body => exact .bare (body.mono weaker)
  | listed params => exact .listed (params.mono weaker)

end Mono

theorem Braced.ne_nil {ls : List Lexeme} (h : Braced M ls) : ls ≠ [] := by
  obtain ⟨p, body, rfl, -⟩ := h
  exact List.cons_ne_nil _ _

theorem Spelled.ne_nil {xs : List String} {ls : List Lexeme} (h : Spelled M xs ls) : ls ≠ [] := by
  cases h <;> exact List.cons_ne_nil _ _

theorem ofWord_ne_closing {w : String} : Token.ofWord w ≠ .symbol ")" := by
  unfold Token.ofWord
  split
  · next h =>
    rw [eq_of_beq h]
    decide
  · repeat' split
    all_goals exact nofun

theorem reads_parameters {xs : List String} (fuel : Nat) (name : String) (seen : List String)
    (spelled : Spelled M xs s.rest) :
    Gives (parameters fuel name seen) s fun r t =>
      r = seen ++ xs ∧ Braced M t.rest ∧ t.functions = s.functions ∧ t.held = s.held := by
  -- On the fuel, for all the names read so far: those to come are spelled by the tokens that are left.
  induction fuel generalizing s seen xs with
  | zero => simp only [parameters, Ensures.bind_iff, gives_peek, gives_failAt]
  | succ fuel ih =>
    simp only [parameters, Ensures.bind_iff, gives_next]
    generalize hr : s.rest = ls at spelled
    split <;> simp only [Ensures.ite_iff, Ensures.bind_iff, Ensures.pure_iff, gives_next, gives_failAt,
      gives_failInstead, isSign_iff]
    · next closes =>
      cases spelled <;> rw [ParseState.head_of hr] at closes
      · cases closes
      · exact absurd closes ofWord_ne_closing
      · exact absurd closes ofWord_ne_closing
    · next word h =>
      split
      · trivial
      · cases spelled <;> rw [ParseState.head_of hr] at h
        · cases h
        · next x p q ls body =>
          obtain rfl := Token.eq_of_ofWord h
          have behind := ParseState.advance_rest hr (List.cons_ne_nil _ _)
          have after := ParseState.advance_rest behind body.ne_nil
          rw [ParseState.head_of behind, if_pos rfl]
          exact ⟨rfl, after ▸ body, by simp, by simp⟩
        · next x xs p q ls rest =>
          obtain rfl := Token.eq_of_ofWord h
          have behind := ParseState.advance_rest hr (List.cons_ne_nil _ _)
          have after := ParseState.advance_rest behind rest.ne_nil
          rw [ParseState.head_of behind, if_neg (by simp), if_pos rfl]
          refine (ih _ (after ▸ rest)).imp ?_
          rintro r t ⟨hr, ht, hf, hh⟩
          exact ⟨by simp [hr], ht, by simp [hf], by simp [hh]⟩

/-- A function is read from its own tokens, and nothing behind them. -/
theorem reads_function {name : String} {xs : List String} (fuel : Nat) (known : Known)
    (headed : Headed M name xs s.rest) (none : s.functions = []) (unheld : s.held = []) :
    Gives (function fuel known) s fun _ t =>
      t.head.token = .eof ∧ ∃ body, t.functions = [⟨name, xs, body⟩] ∧ BodyObeys M body := by
  -- Whatever parameters there are, what is behind them is the body.
  have braced (params : List String) (scope : List Declared) {s : ParseState}
      (behind : Braced M s.rest) (none : s.functions = []) (unheld : s.held = []) :
      Gives (block fuel ⟨known, 1, false, true, false, false, false⟩) { s with scope := scope }
        fun r t => t.head.token = .eof ∧ ∃ body, t.functions ++ [⟨name, params, r.1⟩] =
          [⟨name, params, body⟩] ∧ BodyObeys M body := by
    obtain ⟨p, body, hb, hp, enclosed⟩ := behind
    cases fuel with
    | zero => simp only [block, Ensures.bind_iff, gives_peek, gives_failAt]
    | succ fuel =>
      have rest : ({ s with scope := scope } : ParseState).rest = _ := hb
      have inside := ParseState.advance_rest rest enclosed.ne_nil
      have stands : Stands M [] 1 false ({ s with scope := scope } : ParseState).advance :=
        ⟨inside ▸ enclosed, (ParseState.advance_functions _).trans none, by simp [unheld]⟩
      refine (reads_braced (reads M [] fuel) _ (fun _ => stands) fun _ => ?_).imp ?_
      · rw [ParseState.head_of rest]
        exact hp
      · rintro r t ⟨ht, hr, -⟩
        obtain ⟨p, done⟩ := ht.enclosed.eq_done
        exact ⟨ParseState.head_of done ▸ rfl, r.1, by rw [ht.functions]; rfl, hr⟩
  simp only [function, Ensures.bind_iff, Ensures.discard_iff, gives_next]
  generalize hr : s.rest = ls at headed
  split <;> simp only [Ensures.bind_iff, Ensures.discard_iff, Ensures.ite_iff, Ensures.pure_iff,
    Ensures.get_iff, Ensures.modify_iff, gives_peek, gives_next, gives_failAt]
  next w h =>
  -- A fault, a function without parameters, and one with some.
  cases headed
  · have behind := ParseState.advance_rest hr (List.cons_ne_nil _ _)
    rw [ParseState.head_of behind] at h
    cases h
  · next p q r ls body =>
    have behind := ParseState.advance_rest hr (List.cons_ne_nil _ _)
    have opening := ParseState.advance_rest behind (List.cons_ne_nil _ _)
    have inside := ParseState.advance_rest opening body.ne_nil
    rw [ParseState.head_of behind] at h
    obtain rfl := Token.eq_of_ofWord h
    rw [ParseState.head_of opening, if_neg (by simp), if_pos (isSign_iff.mpr rfl)]
    split
    · trivial
    · refine (braced [] _ (inside ▸ body) (by simp [none]) (by simp [unheld])).imp fun r t ht => ?_
      split
      · trivial
      · exact ht
  · next p q r ls spelled =>
    have behind := ParseState.advance_rest hr (List.cons_ne_nil _ _)
    have opening := ParseState.advance_rest behind (List.cons_ne_nil _ _)
    have inside := ParseState.advance_rest opening spelled.ne_nil
    rw [ParseState.head_of behind] at h
    obtain rfl := Token.eq_of_ofWord h
    rw [ParseState.head_of opening, if_neg (by simp), if_neg (by simp)]
    refine (reads_parameters fuel _ [] (inside ▸ spelled)).imp ?_
    rintro params t ⟨hp, ht, hf, hh⟩
    obtain rfl : params = xs := hp
    split
    · trivial
    · refine (braced params _ ht (by simp [hf, none]) (by simp [hh, unheld])).imp fun r t ht => ?_
      split
      · trivial
      · exact ht

end Parse

open Parse in
/-- The script of the tokens of a function is that function. -/
theorem script_of_headed {name : String} {xs : List String} {ls : List Lexeme} {known : Known}
    {fuel : Nat} {r : List Stmt} {t : ParseState} (headed : Headed M name xs ls)
    (run : (script known fuel).run.run { rest := ls } = (.ok r, t)) :
    r = [] ∧ ∃ body, t.functions = [⟨name, xs, body⟩] ∧ BodyObeys M body := by
  suffices h : Gives (script known fuel) { rest := ls } fun r t =>
      r = [] ∧ ∃ body, t.functions = [⟨name, xs, body⟩] ∧ BodyObeys M body by
    unfold Gives Ensures at h
    rw [run] at h
    exact h
  cases fuel with
  | zero => simp only [script, Ensures.bind_iff, gives_peek, gives_failAt]
  | succ fuel =>
    have fn : ({ rest := ls } : ParseState).head.token = .keyword "fn" := by cases headed <;> rfl
    simp only [script, Ensures.bind_iff, gives_peek, fn]
    refine (reads_function fuel known headed rfl rfl).imp₂ fun _ t done ht => ?_
    cases fuel with
    | zero => simp only [script, Ensures.bind_iff, gives_peek, gives_failAt]
    | succ fuel =>
      simp only [script, Ensures.bind_iff, gives_peek, done]
      exact ⟨rfl, ht⟩

end ScriptHost.Script
