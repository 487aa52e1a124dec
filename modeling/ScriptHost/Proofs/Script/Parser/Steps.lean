import ScriptHost.Proofs.Script.Enclosed
import ScriptHost.Proofs.Step
import ScriptHost.Script.Parser

/-!
# Steps — how the parser passes enclosed tokens

The parser stands in front of tokens that so many braces enclose.  A step over a token is known by what the
next token is, and a check passes none.
-/

namespace ScriptHost.Script

open Text (Position)

variable {M : Marks} {fs : List Function} {d : Nat} {behind : Bool} {s t : ParseState}

/-! ## 1. Where the parser stands -/

namespace ParseState

/-- The next token. -/
def head (s : ParseState) : Lexeme := (s.rest.head?).getD ⟨.eof, .start⟩

/-- Behind the next token, unless it is the last one. -/
def advance (s : ParseState) : ParseState :=
  match s.rest with
  | _ :: l :: ls => { s with rest := l :: ls }
  | _ => s

theorem head_of {l : Lexeme} {ls : List Lexeme} (h : s.rest = l :: ls) : s.head = l := by
  rw [head, h]
  rfl

theorem advance_rest {l : Lexeme} {ls : List Lexeme} (h : s.rest = l :: ls) (more : ls ≠ []) :
    s.advance.rest = ls := by
  cases ls with
  | nil => exact absurd rfl more
  | cons m ls => rw [advance, h]

@[simp] theorem advance_functions (s : ParseState) : s.advance.functions = s.functions := by
  unfold advance
  split <;> rfl

@[simp] theorem advance_held (s : ParseState) : s.advance.held = s.held := by
  unfold advance
  split <;> rfl

/-- The token behind the next one is the next one behind that. -/
theorem any_behind {sign : Lexeme → Bool} (h : s.rest[1]?.any sign = true) :
    sign s.advance.head = true := by
  unfold head advance
  rcases hr : s.rest with _ | ⟨l, _ | ⟨m, ls⟩⟩ <;> rw [hr] at h
  · exact nomatch h
  · exact nomatch h
  · exact h

/-- The tokens that are left are enclosed by `d` braces, the functions are still these, and the variables
    that a closure holds on to are in place. -/
structure Stands (M : Marks) (fs : List Function) (d : Nat) (behind : Bool) (s : ParseState) : Prop where
  enclosed : Enclosed M d behind s.rest
  functions : s.functions = fs
  held : ∀ x ∈ s.held, M.place x.position

namespace Stands

/-- The variables and modules in scope do not matter. -/
theorem inScope (h : Stands M fs d behind s) (scope : List Declared) (modules : List String) :
    Stands M fs d behind { s with scope := scope, modules := modules } :=
  ⟨h.enclosed, h.functions, h.held⟩

theorem place (h : Stands M fs d behind s) (goesOn : s.head.token.isLast = false) :
    M.place s.head.position := by
  have enclosed := h.enclosed
  cases hr : s.rest with
  | nil => exact absurd hr enclosed.ne_nil
  | cons l ls =>
    have head := head_of hr
    rw [hr] at enclosed
    rw [head] at goesOn ⊢
    exact enclosed.place goesOn

/-- Behind a token that is not the last one. -/
theorem advance (h : Stands M fs d behind s) (goesOn : s.head.token.isLast = false) :
    Stands M fs (s.head.token.depthBehind d) (s.head.token == .symbol "::") s.advance := by
  have enclosed := h.enclosed
  cases hr : s.rest with
  | nil => exact absurd hr enclosed.ne_nil
  | cons l ls =>
    have head := head_of hr
    rw [hr] at enclosed
    rw [head] at goesOn ⊢
    have tail := enclosed.tail goesOn
    exact ⟨advance_rest hr tail.ne_nil ▸ tail, (advance_functions s).trans h.functions,
      (advance_held s).symm ▸ h.held⟩

theorem pass (h : Stands M fs d behind s) (plain : s.head.token.isPlain = true) :
    Stands M fs d false s.advance := by
  have after := h.advance (Token.isLast_of_isPlain plain)
  rw [Token.depthBehind_of_isPlain plain, Token.ne_path_of_isPlain plain] at after
  exact after

theorem opening (h : Stands M fs d behind s)
    (sign : s.head.token = .symbol "\x7b" ∨ s.head.token = .symbol "#\x7b") :
    Stands M fs (d + 1) false s.advance := by
  rcases sign with sign | sign <;>
  · have after := h.advance (by rw [sign]; rfl)
    rw [sign] at after
    exact after

theorem closing (h : Stands M fs (d + 1) behind s) (sign : s.head.token = .symbol "\x7d") :
    Stands M fs d false s.advance := by
  have after := h.advance (by rw [sign]; rfl)
  rw [sign] at after
  exact after

theorem path (h : Stands M fs d behind s) (sign : s.head.token = .symbol "::") :
    Stands M fs d true s.advance := by
  have after := h.advance (by rw [sign]; rfl)
  rw [sign] at after
  exact after

/-- A word in front of `::`, where no path goes on, is the root of one. -/
theorem root {w : String} (h : Stands M fs d false s) (name : s.head.token = .name w)
    (sign : s.advance.head.token = .symbol "::") : M.root ⟨w, s.head.position⟩ := by
  have enclosed := h.enclosed
  unfold ParseState.head ParseState.advance at *
  rcases hr : s.rest with _ | ⟨l, _ | ⟨m, ls⟩⟩
  · exact absurd hr enclosed.ne_nil
  · rw [hr] at name sign enclosed
    simp_all
  · rw [hr] at name sign enclosed
    exact enclosed.root name ⟨m, rfl, sign⟩

end Stands

end ParseState

open ParseState (Stands)

/-! ## 2. The steps over tokens -/

namespace Parse

/-- `Q` holds of what a step gives; nothing is said of its faults. -/
abbrev Gives {α : Type} (x : Parse α) (s : ParseState) (Q : α → ParseState → Prop) : Prop :=
  Ensures x s Q fun _ _ => True

section Steps

variable {α : Type} {p : Position} {cause : Cause} {sign purpose : String}

@[simp] theorem gives_failAt {Q : α → ParseState → Prop} : Gives (failAt p cause) s Q := trivial

@[simp] theorem gives_failInstead {l : Lexeme} {Q : α → ParseState → Prop} :
    Gives (failInstead l cause) s Q := by
  unfold failInstead
  split <;> exact gives_failAt

@[simp] theorem gives_deeper {place : Place} {Q : Place → ParseState → Prop} :
    Gives (deeper p place) s Q ↔
      (place.depth < maxDepth place.inFunction → Q { place with depth := place.depth + 1 } s) := by
  simp only [deeper, Ensures.ite_iff, Ensures.pure_iff]
  split
  · next deep => exact ⟨fun _ h => absurd h (Nat.not_lt.mpr deep), fun _ => gives_failAt⟩
  · next shallow => exact ⟨fun h _ => h, fun h => h (Nat.not_le.mp shallow)⟩

@[simp] theorem gives_peek {Q : Lexeme → ParseState → Prop} : Gives peek s Q ↔ Q s.head s := Iff.rfl

@[simp] theorem gives_peekBehind {Q : Option Lexeme → ParseState → Prop} :
    Gives peekBehind s Q ↔ Q s.rest[1]? s := Iff.rfl

@[simp] theorem gives_next {Q : Lexeme → ParseState → Prop} : Gives next s Q ↔ Q s.head s.advance :=
  Iff.rfl

@[simp] theorem gives_accept {t : Token} {Q : Bool → ParseState → Prop} :
    Gives (accept t) s Q ↔ if s.head.token = t then Q true s.advance else Q false s := by
  simp [accept]

@[simp] theorem gives_acceptSign {Q : Bool → ParseState → Prop} :
    Gives (acceptSign sign) s Q ↔ if s.head.token = .symbol sign then Q true s.advance else Q false s :=
  gives_accept

@[simp] theorem isSign_iff {l : Lexeme} : isSign l sign = true ↔ l.token = .symbol sign := by
  simp [isSign]

@[simp] theorem opensCall_iff {l : Lexeme} :
    opensCall l = true ↔ l.token = .symbol "(" ∨ l.token = .symbol "()" := by
  simp [opensCall]

@[simp] theorem gives_expect {Q : Position → ParseState → Prop} :
    Gives (expect sign purpose) s Q ↔ (s.head.token = .symbol sign → Q s.head.position s.advance) := by
  simp only [expect, Ensures.bind_iff, gives_next, Ensures.ite_iff, Ensures.pure_iff, isSign_iff]
  split
  · next h => exact ⟨fun hq _ => hq, fun hq => hq h⟩
  · next h => exact ⟨fun _ hs => absurd hs h, fun _ => gives_failInstead⟩

@[simp] theorem gives_require {Q : Unit → ParseState → Prop} :
    Gives (require sign purpose) s Q ↔ (s.head.token = .symbol sign → Q () s.advance) := by
  simp only [require, Ensures.bind_iff, gives_peek, gives_acceptSign]
  split
  · next h => exact ⟨fun hq _ => hq, fun hq => hq h⟩
  · next h => exact ⟨fun _ hs => absurd hs h, fun _ => gives_failAt⟩

@[simp] theorem gives_variableName {Q : Ident → ParseState → Prop} :
    Gives variableName s Q ↔ ∀ w, s.head.token = .name w → Q ⟨w, s.head.position⟩ s.advance := by
  simp only [variableName, Ensures.bind_iff, gives_next]
  cases h : s.head.token with
  | name w => simp
  | reserved w =>
    simp only [Ensures.ite_iff, gives_failAt, ite_self, reduceCtorEq, false_implies, implies_true]
  | _ => simp

@[simp] theorem gives_inScope {step : Parse α} {Q : α → ParseState → Prop} :
    Gives (inScope step) s Q ↔ Gives step s fun a t =>
      Q a { t with scope := t.scope.drop (t.scope.length - s.scope.length), modules := s.modules } := by
  simp [inScope]

@[simp] theorem gives_declare {name : String} {isConstant : Bool} {Q : Unit → ParseState → Prop} :
    Gives (declare name isConstant) s Q ↔ Q () { s with scope := ⟨name, isConstant⟩ :: s.scope } :=
  Iff.rfl

end Steps

/-! ## 3. Balanced steps -/

/-- A step that leaves the braces as they were and gives what is `Good`. -/
def Balanced {α : Type} (M : Marks) (fs : List Function) (x : Parse α) (Good : α → Prop) : Prop :=
  ∀ {d : Nat} {s : ParseState}, Stands M fs d false s →
    Gives x s fun a t => Stands M fs d false t ∧ Good a

/-- A step that takes the brace which closes the innermost block. -/
def Closing {α : Type} (M : Marks) (fs : List Function) (x : Parse α) (Good : α → Prop) : Prop :=
  ∀ {d : Nat} {s : ParseState}, Stands M fs (d + 1) false s →
    Gives x s fun a t => Stands M fs d false t ∧ Good a

/-! ## 4. Steps that only look -/

theorem prefixedBy_obeys {sign : String} {e : Expr} {p : Position} (he : e.Obeys M) (hp : M.place p) :
    (prefixedBy sign e p).Obeys M := by
  unfold prefixedBy
  split
  · split <;> exact hp
  · exact hp
  · exact he
  · exact he
  · exact ⟨he, hp⟩

theorem gives_ensureKind {allowed : List PlainKind} {expected : String} {e : Expr}
    {Q : Expr → ParseState → Prop} (h : Q e s) : Gives (ensureKind allowed expected e) s Q := by
  unfold ensureKind
  split
  · split
    · exact h
    · exact gives_failAt
  · exact h

theorem isPlain_of_precedence {t : Token} (binds : 0 < precedence t) : t.isPlain = true := by
  unfold precedence at binds
  split at binds
  · split at binds <;> first | rfl | exact absurd binds (by decide)
  · rfl
  · exact absurd binds (by decide)

/-- The level of the next token is that of its sign, or none. -/
theorem gives_nextPrecedence {place : Place} {Q : Nat → ParseState → Prop}
    (h : ∀ level ≤ precedence s.head.token, Q level s) : Gives (nextPrecedence place) s Q := by
  simp only [nextPrecedence, Ensures.bind_iff, gives_peek]
  split
  · simp only [Ensures.pure_iff]
    split
    · exact h _ (Nat.zero_le _)
    · exact h _ (Nat.le_refl _)
  · simp only [Ensures.ite_iff, Ensures.pure_iff, gives_failAt]
    split
    · exact h _ (Nat.zero_le _)
    · trivial
  · exact h _ (Nat.le_refl _)

theorem gives_combine {sign : String} {left right : Expr} {p : Position}
    {Q : Expr → ParseState → Prop} (hl : left.Obeys M) (hr : right.Obeys M) (hp : M.place p)
    (h : ∀ e, e.Obeys M → Q e s) : Gives (combine sign left right p) s Q := by
  unfold combine
  simp only [ensureBoolean]
  split
  · simp only [Ensures.bind_iff]
    refine gives_ensureKind (gives_ensureKind ?_)
    split
    · refine h _ ⟨allObey_append.mpr ⟨hl.1, hr, trivial⟩, hl.2⟩
    · exact h _ ⟨⟨hl, hr, trivial⟩, hp⟩
  · simp only [Ensures.bind_iff]
    refine gives_ensureKind (gives_ensureKind ?_)
    split
    · refine h _ ⟨allObey_append.mpr ⟨hl.1, hr, trivial⟩, hl.2⟩
    · exact h _ ⟨⟨hl, hr, trivial⟩, hp⟩
  · split
    · exact h _ ⟨allObey_append.mpr ⟨hl.1, hr, trivial⟩, hl.2⟩
    · exact h _ ⟨⟨hl, hr, trivial⟩, hp⟩
  · exact h _ ⟨hr, hl, hp⟩
  · exact h _ ⟨⟨hr, hl, hp⟩, hp⟩
  · split
    · exact h _ ⟨hl, hr, hp⟩
    · exact gives_failAt

theorem obligatory_obeys {found : List Link} (h : LinksObey M found) :
    LinksObey M (obligatory found) := by
  unfold obligatory
  split <;> exact h

theorem gives_ensureModule {place : Place} {path : List Ident} {Q : Unit → ParseState → Prop}
    (h : Q () s) : Gives (ensureModule place path) s Q := by
  unfold ensureModule
  split
  · exact h
  · simp only [Ensures.bind_iff, Ensures.get_iff, Ensures.ite_iff, Ensures.pure_iff, gives_failAt]
    split
    · trivial
    · exact h

theorem isPlain_of_assigning {sign : String}
    (assigns : (sign == "=" || assigningSigns.contains sign) = true) :
    (Token.symbol sign).isPlain = true := by
  simp only [assigningSigns, Bool.or_eq_true, beq_iff_eq, List.contains_iff_mem, List.mem_cons,
    List.not_mem_nil, or_false] at assigns
  rcases assigns with rfl | rfl | rfl | rfl | rfl | rfl | rfl | rfl | rfl | rfl | rfl | rfl <;> rfl

theorem gives_assignment {target value : Expr} {op : Option Operator} {p : Position}
    {Q : Stmt → ParseState → Prop} (ht : target.Obeys M) (hv : value.Obeys M) (hp : M.place p)
    (h : ∀ r, r.Obeys M → Q r s) : Gives (assignment target op value p) s Q := by
  have assigned := h (.assign target op value p) ⟨ht, hv, hp⟩
  unfold assignment
  split
  · exact assigned
  · exact assigned
  · simp only [Ensures.bind_iff, Ensures.get_iff]
    split
    · simp only [Ensures.ite_iff, gives_failAt, Ensures.pure_iff]
      split
      · trivial
      · exact assigned
    · exact assigned
  · split
    · exact gives_failAt
    · split
      · exact assigned
      · exact assigned
      · exact gives_failAt
  all_goals
    simp only [Ensures.ite_iff, gives_failAt, ite_self]

theorem gives_pattern {e : Expr} {Q : Pattern → ParseState → Prop} (h : ∀ p, Q p s) :
    Gives (pattern e) s Q := by
  unfold pattern
  split
  · exact h _
  · exact h _
  · exact gives_failAt

theorem gives_patterns {ranged : Bool} {es : List Expr} {Q : List Pattern × Bool → ParseState → Prop}
    (h : ∀ r, Q r s) : Gives (patterns ranged es) s Q := by
  induction es generalizing ranged Q with
  | nil => exact h _
  | cons e es ih =>
    simp only [patterns, Ensures.bind_iff, Ensures.ite_iff, Ensures.pure_iff, gives_failAt]
    refine gives_pattern fun p => ?_
    split
    · trivial
    · exact ih fun r => h _

/-- The action of a case is its statement as an expression. -/
theorem action_obeys (r : Stmt) : r.Obeys M → Expr.Obeys M (match r with
    | .expr e => e
    | .block body p => .block body p
    | s => .block [s] s.position) := by
  intro hr
  split
  · exact hr
  · exact hr
  · exact ⟨⟨hr, trivial⟩, hr.position⟩

/-- What a closure holds on to is put down with its place. -/
theorem gives_ensureVariable {place : Place} {x : Ident} {Q : ParseState → Prop}
    (hs : Stands M fs d behind s) (hx : M.place x.position) (h : ∀ t, Stands M fs d behind t → Q t) :
    Gives (ensureVariable place x) s fun _ t => Q t := by
  simp only [ensureVariable, Ensures.bind_iff, Ensures.get_iff, Ensures.ite_iff, Ensures.pure_iff,
    Ensures.set_iff, gives_failAt]
  have more : ∀ y ∈ s.held ++ [x], M.place y.position := by
    intro y hy
    rcases List.mem_append.mp hy with hy | hy
    · exact hs.held y hy
    · exact List.mem_singleton.mp hy ▸ hx
  split
  · exact h s hs
  · split
    · split
      · exact h _ ⟨hs.enclosed, hs.functions, more⟩
      · exact h s hs
    · split
      · trivial
      · exact h s hs

theorem gives_ensureVariables {place : Place} {held : List Ident} {Q : ParseState → Prop}
    (hs : Stands M fs d behind s) (hh : ∀ x ∈ held, M.place x.position)
    (h : ∀ t, Stands M fs d behind t → Q t) :
    Gives (held.forM (ensureVariable place)) s fun _ t => Q t := by
  induction held generalizing s with
  | nil => exact h s hs
  | cons x held ih =>
    obtain ⟨hx, hh⟩ := List.forall_mem_cons.mp hh
    exact Ensures.bind_iff.mpr (gives_ensureVariable hs hx fun t ht => ih ht hh)

theorem gives_caseLiterals {isDefault : Bool} {step : Parse (List Expr)}
    {Q : List Expr → ParseState → Prop} (balanced : Balanced M fs step fun _ => True)
    (hs : Stands M fs d false s) (default : isDefault = true → s.head.token = .symbol "_")
    (h : ∀ es t, Stands M fs d false t → Q es t) : Gives (caseLiterals isDefault step) s Q := by
  simp only [caseLiterals, Ensures.ite_iff, Ensures.bind_iff, Ensures.discard_iff, Ensures.pure_iff,
    gives_next, gives_peek, gives_accept, gives_failAt]
  split
  · next isDefault =>
    split
    · trivial
    · exact h _ _ (hs.pass (default isDefault ▸ rfl))
  · exact (balanced hs).imp₂ fun es t ht _ => h es t ht

theorem gives_caseGuard {isDefault : Bool} {step : Parse Expr} {Q : Option Expr → ParseState → Prop}
    (balanced : Balanced M fs step (Expr.Obeys M)) (hs : Stands M fs d false s)
    (h : ∀ guard t, Stands M fs d false t → OptionObeys M guard → Q guard t) :
    Gives (caseGuard isDefault step) s Q := by
  simp only [caseGuard, Ensures.ite_iff, Ensures.bind_iff, Ensures.map_iff, Ensures.pure_iff, gives_accept]
  split
  · exact h _ _ hs trivial
  · split
    · next word =>
      exact (balanced (hs.pass (word ▸ rfl))).imp₂ fun e t ht he => h (some e) t ht he
    · exact h _ _ hs trivial

end Parse

end ScriptHost.Script
