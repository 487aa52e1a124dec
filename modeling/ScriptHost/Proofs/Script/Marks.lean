import ScriptHost.Script.Tree

/-!
# Marks — the places and the module paths in a tree

Every part of a tree keeps the place of a token, and a module path keeps its words.  What is asked of the
tokens of a script is asked of its tree in the same terms: something of every place, and something of the
word that each module path starts with.
-/

namespace ScriptHost.Script

open Text (Position)

/-- What is asked of places, and of the words at the root of module paths. -/
structure Marks where
  place : Position → Prop
  root : Ident → Prop

namespace Marks

/-- Every word of a module path is in place, and the first one is a root. -/
structure Path (M : Marks) (path : List Ident) : Prop where
  places : ∀ i ∈ path, M.place i.position
  root : ∀ i ∈ path.head?, M.root i

/-- The marks that ask for nothing. -/
def free : Marks := ⟨fun _ => True, fun _ => True⟩

/-- The marks `N` ask for no more than `M` does. -/
structure Weakens (M N : Marks) : Prop where
  place : ∀ p, M.place p → N.place p
  root : ∀ i, M.root i → N.root i

variable {M : Marks}

theorem Weakens.refl (M : Marks) : M.Weakens M := ⟨fun _ h => h, fun _ h => h⟩

theorem path_free {path : List Ident} : Marks.free.Path path := ⟨fun _ _ => trivial, fun _ _ => trivial⟩

theorem Path.append {path : List Ident} {i : Ident} (h : M.Path path) (hi : M.place i.position)
    (rooted : path ≠ []) : M.Path (path ++ [i]) := by
  constructor
  · intro j hj
    rcases List.mem_append.mp hj with hj | hj
    · exact h.places j hj
    · exact List.mem_singleton.mp hj ▸ hi
  · cases path with
    | nil => exact absurd rfl rooted
    | cons j path => exact h.root

theorem Path.dropLast {path : List Ident} (h : M.Path path) : M.Path path.dropLast := by
  constructor
  · exact fun i hi => h.places i (List.dropLast_subset _ hi)
  · intro i hi
    cases path with
    | nil => exact h.root i hi
    | cons j path =>
      cases path with
      | nil => exact nomatch hi
      | cons k path => exact h.root i hi

end Marks

/-! ## 1. Trees that obey -/

mutual

/-- Whether an expression obeys the marks throughout. -/
@[simp] def Expr.Obeys (M : Marks) : Expr → Prop
  | .constant _ p | .var _ p | .this p => M.place p
  | .template parts p | .array parts p | .and parts p | .or parts p | .coalesce parts p =>
    AllObey M parts ∧ M.place p
  | .map entries p => EntriesObey M entries ∧ M.place p
  | .prefixed _ e p => e.Obeys M ∧ M.place p
  | .binary _ a b p | .contains a b p => a.Obeys M ∧ b.Obeys M ∧ M.place p
  | .call _ args p => AllObey M args ∧ M.place p
  | .moduleCall path _ args p => M.Path path ∧ AllObey M args ∧ M.place p
  | .moduleVariable path _ p => M.Path path ∧ M.place p
  | .chain root links => root.Obeys M ∧ LinksObey M links
  | .block body p => BodyObeys M body ∧ M.place p
  | .closure _ captures body p =>
    (∀ c ∈ captures, M.place c.name.position) ∧ BodyObeys M body ∧ M.place p

@[simp] def AllObey (M : Marks) : List Expr → Prop
  | [] => True
  | e :: es => e.Obeys M ∧ AllObey M es

@[simp] def EntriesObey (M : Marks) : List (String × Expr) → Prop
  | [] => True
  | (_, e) :: es => e.Obeys M ∧ EntriesObey M es

@[simp] def OptionObeys (M : Marks) : Option Expr → Prop
  | none => True
  | some e => e.Obeys M

@[simp] def Link.Obeys (M : Marks) : Link → Prop
  | .property _ p joint => M.place p ∧ M.place joint.position
  | .method _ args p joint => AllObey M args ∧ M.place p ∧ M.place joint.position
  | .index key joint => key.Obeys M ∧ M.place joint.position

@[simp] def LinksObey (M : Marks) : List Link → Prop
  | [] => True
  | l :: ls => l.Obeys M ∧ LinksObey M ls

@[simp] def Stmt.Obeys (M : Marks) : Stmt → Prop
  | .skip p | .proceed p => M.place p
  | .expr e => e.Obeys M
  | .define _ _ value p | .leave value p | .ret value p | .throw value p =>
    OptionObeys M value ∧ M.place p
  | .assign target _ value p => target.Obeys M ∧ value.Obeys M ∧ M.place p
  | .block body p => BodyObeys M body ∧ M.place p
  | .branch guard yes no p => guard.Obeys M ∧ BodyObeys M yes ∧ BodyObeys M no ∧ M.place p
  | .select subject cases p => subject.Obeys M ∧ CasesObey M cases ∧ M.place p
  | .loop guard body q p => OptionObeys M guard ∧ BodyObeys M body ∧ M.place q ∧ M.place p
  | .loopThen body guard _ q p => BodyObeys M body ∧ guard.Obeys M ∧ M.place q ∧ M.place p
  | .each _ _ source body q p => source.Obeys M ∧ BodyObeys M body ∧ M.place q ∧ M.place p
  | .attempt body _ handler p => BodyObeys M body ∧ BodyObeys M handler ∧ M.place p
  | .obtain path p => path.Obeys M ∧ M.place p
  | .offer name p => M.place name.position ∧ M.place p

@[simp] def BodyObeys (M : Marks) : List Stmt → Prop
  | [] => True
  | s :: ss => s.Obeys M ∧ BodyObeys M ss

@[simp] def Case.Obeys (M : Marks) : Case → Prop
  | .mk _ guard action => OptionObeys M guard ∧ action.Obeys M

@[simp] def CasesObey (M : Marks) : List Case → Prop
  | [] => True
  | c :: cs => c.Obeys M ∧ CasesObey M cs

end

variable {M : Marks}

/-! ## 2. Lists of them -/

theorem allObey_iff {es : List Expr} : AllObey M es ↔ ∀ e ∈ es, e.Obeys M := by
  induction es with
  | nil => simp
  | cons e es ih => simp [ih]

theorem linksObey_iff {ls : List Link} : LinksObey M ls ↔ ∀ l ∈ ls, l.Obeys M := by
  induction ls with
  | nil => simp
  | cons l ls ih => simp [ih]

theorem bodyObeys_iff {ss : List Stmt} : BodyObeys M ss ↔ ∀ s ∈ ss, s.Obeys M := by
  induction ss with
  | nil => simp
  | cons s ss ih => simp [ih]

theorem casesObey_iff {cs : List Case} : CasesObey M cs ↔ ∀ c ∈ cs, c.Obeys M := by
  induction cs with
  | nil => simp
  | cons c cs ih => simp [ih]

theorem allObey_append {es fs : List Expr} : AllObey M (es ++ fs) ↔ AllObey M es ∧ AllObey M fs := by
  simp only [allObey_iff, List.forall_mem_append]

/-! ## 3. Marks that ask for nothing -/

mutual

theorem Expr.obeys_free : ∀ e : Expr, e.Obeys .free
  | .constant .. | .var .. | .this .. => trivial
  | .template parts _ | .array parts _ | .and parts _ | .or parts _ | .coalesce parts _ =>
    ⟨allObey_free parts, trivial⟩
  | .map entries _ => ⟨entriesObey_free entries, trivial⟩
  | .prefixed _ e _ => ⟨e.obeys_free, trivial⟩
  | .binary _ a b _ | .contains a b _ => ⟨a.obeys_free, b.obeys_free, trivial⟩
  | .call _ args _ => ⟨allObey_free args, trivial⟩
  | .moduleCall _ _ args _ => ⟨Marks.path_free, allObey_free args, trivial⟩
  | .moduleVariable .. => ⟨Marks.path_free, trivial⟩
  | .chain root links => ⟨root.obeys_free, linksObey_free links⟩
  | .block body _ => ⟨bodyObeys_free body, trivial⟩
  | .closure _ _ body _ => ⟨fun _ _ => trivial, bodyObeys_free body, trivial⟩

theorem allObey_free : ∀ es : List Expr, AllObey .free es
  | [] => trivial
  | e :: es => ⟨e.obeys_free, allObey_free es⟩

theorem entriesObey_free : ∀ es : List (String × Expr), EntriesObey .free es
  | [] => trivial
  | (_, e) :: es => ⟨e.obeys_free, entriesObey_free es⟩

theorem optionObeys_free : ∀ e : Option Expr, OptionObeys .free e
  | none => trivial
  | some e => e.obeys_free

theorem linksObey_free : ∀ ls : List Link, LinksObey .free ls
  | [] => trivial
  | .property .. :: ls => ⟨⟨trivial, trivial⟩, linksObey_free ls⟩
  | .method _ args _ _ :: ls => ⟨⟨allObey_free args, trivial, trivial⟩, linksObey_free ls⟩
  | .index key _ :: ls => ⟨⟨key.obeys_free, trivial⟩, linksObey_free ls⟩

theorem Stmt.obeys_free : ∀ s : Stmt, s.Obeys .free
  | .skip _ | .proceed _ => trivial
  | .expr e => e.obeys_free
  | .define _ _ value _ | .leave value _ | .ret value _ | .throw value _ => ⟨optionObeys_free value, trivial⟩
  | .assign target _ value _ => ⟨target.obeys_free, value.obeys_free, trivial⟩
  | .block body _ => ⟨bodyObeys_free body, trivial⟩
  | .branch guard yes no _ => ⟨guard.obeys_free, bodyObeys_free yes, bodyObeys_free no, trivial⟩
  | .select subject cases _ => ⟨subject.obeys_free, casesObey_free cases, trivial⟩
  | .loop guard body _ _ => ⟨optionObeys_free guard, bodyObeys_free body, trivial, trivial⟩
  | .loopThen body guard _ _ _ => ⟨bodyObeys_free body, guard.obeys_free, trivial, trivial⟩
  | .each _ _ source body _ _ => ⟨source.obeys_free, bodyObeys_free body, trivial, trivial⟩
  | .attempt body _ handler _ => ⟨bodyObeys_free body, bodyObeys_free handler, trivial⟩
  | .obtain path _ => ⟨path.obeys_free, trivial⟩
  | .offer .. => ⟨trivial, trivial⟩

theorem bodyObeys_free : ∀ ss : List Stmt, BodyObeys .free ss
  | [] => trivial
  | s :: ss => ⟨s.obeys_free, bodyObeys_free ss⟩

theorem casesObey_free : ∀ cs : List Case, CasesObey .free cs
  | [] => trivial
  | .mk _ guard action :: cs => ⟨⟨optionObeys_free guard, action.obeys_free⟩, casesObey_free cs⟩

end

/-! ## 4. Places of whole trees -/

theorem Marks.Path.headPosition {path : List Ident} {p : Position} (h : M.Path path) (hp : M.place p) :
    M.place ((path.head?.map Ident.position).getD p) := by
  cases path with
  | nil => exact hp
  | cons i path => exact h.places i List.mem_cons_self

theorem Link.Obeys.joint {l : Link} (h : l.Obeys M) : M.place l.joint.position := by
  cases l <;> simp only [Link.Obeys] at h <;> simp only [Link.joint, h]

/-- An expression is in place as a whole. -/
theorem Expr.Obeys.position {e : Expr} (h : e.Obeys M) : M.place e.position := by
  fun_induction Expr.position e with
  | case18 root links ih =>
    simp only [Expr.Obeys] at h
    cases links with
    | nil => exact ih h.1
    | cons l ls => exact Link.Obeys.joint h.2.1
  | _ => simp only [Expr.Obeys] at h; simp only [h]

mutual

/-- So is its first part. -/
theorem Expr.Obeys.startPosition {e : Expr} (h : e.Obeys M) : M.place e.startPosition := by
  cases e with
  | and parts p => exact AllObey.headPosition (p := p) h.1 h.2
  | or parts p => exact AllObey.headPosition (p := p) h.1 h.2
  | coalesce parts p => exact AllObey.headPosition (p := p) h.1 h.2
  | chain root links => exact Expr.Obeys.startPosition (e := root) h.1
  | moduleCall path _ _ p => exact h.1.headPosition h.2.2
  | moduleVariable path _ p => exact h.1.headPosition h.2
  | _ => exact Expr.Obeys.position h

theorem AllObey.headPosition {es : List Expr} {p : Position} (h : AllObey M es) (hp : M.place p) :
    M.place ((Expr.headPosition? es).getD p) := by
  cases es with
  | nil => exact hp
  | cons e es => exact Expr.Obeys.startPosition (e := e) h.1

end

theorem Link.Obeys.position {l : Link} (h : l.Obeys M) : M.place l.position := by
  cases l with
  | property name p joint => exact h.1
  | method name args p joint => exact h.2.1
  | index key joint => exact Expr.Obeys.position (e := key) h.1

theorem Stmt.Obeys.position {s : Stmt} (h : s.Obeys M) : M.place s.position := by
  cases s with
  | expr e => exact Expr.Obeys.position (e := e) h
  | _ => simp only [Stmt.Obeys] at h; simp only [Stmt.position, h]

end ScriptHost.Script
