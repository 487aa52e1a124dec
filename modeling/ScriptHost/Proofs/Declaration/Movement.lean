import ScriptHost.Proofs.Declaration.Grammar

/-!
# Movement — the same text at another place

Where a text stands tells nothing of how it is read.  When something is deleted in front of it, the same pieces are
read at the places they have moved to, and declare the same but for these places.
-/

namespace ScriptHost

/-! ## 1. Moving places -/

namespace Text.Position

/-- The place behind the deleted character at `q` that was at `p`: on its line one column to the left, elsewhere
    the same. -/
def without (q p : Position) : Position :=
  if p.line = q.line ∧ q.column < p.column then ⟨p.line, p.column - 1⟩ else p

/-- Where a text that began at `q` begins at `r`, the place in it that was at `p`. -/
def shift (q r p : Position) : Position :=
  if p.line = q.line then ⟨r.line, p.column - q.column + r.column⟩ else ⟨p.line - q.line + r.line, p.column⟩

theorem shift_self (q r : Position) : q.shift r q = r := by
  rw [shift, if_pos rfl, Nat.sub_self, Nat.zero_add]

end Text.Position

namespace Declaration

open Text (Position Remains)

/-- From `p` on the places move together. -/
def Moves (f : Position → Position) (p : Position) : Prop := ∀ taken, f (p.after taken) = (f p).after taken

variable {f : Position → Position} {p q : Position}

theorem Moves.after (h : Moves f p) (taken : List Char) : Moves f (p.after taken) := fun more => by
  rw [← Position.after_append, h, h, Position.after_append]

theorem Moves.remains {cs ds : List Char} (h : Moves f p) (there : Remains cs p ds q) : Moves f q := by
  obtain ⟨taken, -, rfl⟩ := there
  exact h.after taken

theorem Moves.step (h : Moves f p) (c : Char) : f (p.step c) = (f p).step c := h [c]

theorem Moves.behind (h : Moves f p) (c : Char) : Moves f (p.step c) := h.after [c]

/-- Places move together that do so character by character. -/
theorem moves_of_step (Behind : Position → Prop) (stays : ∀ p c, Behind p → Behind (p.step c))
    (once : ∀ p c, Behind p → f (p.step c) = (f p).step c) (h : Behind p) : Moves f p := by
  intro taken
  induction taken generalizing p with
  | nil => rfl
  | cons c cs ih =>
    rw [Position.after_cons, ih (stays p c h), once p c h]
    rfl

/-- What stands behind a deleted character moves together. -/
theorem moves_without (q : Position) {c : Char} (h : c ≠ '\n') : Moves q.without (q.step c) := by
  refine moves_of_step (fun p => p.line = q.line ∧ q.column < p.column ∨ q.line < p.line) ?_ ?_ (.inl ?_)
  · intro p d behind
    unfold Position.step
    split <;> dsimp only <;> omega
  · -- Further on the line the column counts one less; on a later line nothing changes.
    intro p d behind
    unfold Position.without Position.step
    by_cases newline : (d == '\n') = true
    · simp only [if_pos newline]
      rw [if_neg (by omega)]
      split <;> rfl
    · simp only [if_neg newline]
      rcases behind with ⟨line, column⟩ | line
      · rw [if_pos ⟨line, by omega⟩, if_pos ⟨line, column⟩]
        exact congrArg (Position.mk p.line) (show p.column + 1 - 1 = p.column - 1 + 1 by omega)
      · rw [if_neg (by omega), if_neg (by omega)]
  · rw [Position.step, if_neg (by simpa using h)]
    exact ⟨rfl, Nat.lt_succ_self _⟩

/-- A text that begins somewhere else moves together. -/
theorem moves_shift (q r : Position) : Moves (q.shift r) q := by
  refine moves_of_step (fun p => p.line = q.line ∧ q.column ≤ p.column ∨ q.line < p.line) ?_ ?_
    (.inl ⟨rfl, Nat.le_refl _⟩)
  · intro p c behind
    unfold Position.step
    split <;> dsimp only <;> omega
  · intro p c behind
    unfold Position.shift Position.step
    by_cases newline : (c == '\n') = true
    · simp only [if_pos newline]
      rw [if_neg (by omega)]
      split
      · next line => exact congrArg (Position.mk · 1) (show p.line + 1 - q.line + r.line = r.line + 1 by omega)
      · exact congrArg (Position.mk · 1) (show p.line + 1 - q.line + r.line = p.line - q.line + r.line + 1 by omega)
    · simp only [if_neg newline]
      split
      · exact congrArg (Position.mk r.line)
          (show p.column + 1 - q.column + r.column = p.column - q.column + r.column + 1 by omega)
      · rfl

theorem without_step (q : Position) {c : Char} (h : c ≠ '\n') : q.without (q.step c) = q := by
  rw [Position.step, if_neg (by simpa using h), Position.without, if_pos ⟨rfl, Nat.lt_succ_self _⟩]
  rfl

/-! ## 2. Moving what is read -/

def Lexeme.moved (f : Position → Position) (l : Lexeme) : Lexeme := ⟨l.token, f l.position⟩

def Cursor.moved (f : Position → Position) (c : Cursor) : Cursor := ⟨c.rest, f c.position, c.torn⟩

def ModuleRef.moved (f : Position → Position) (r : ModuleRef) : ModuleRef := ⟨r.name, f r.position⟩

def Body.moved (f : Position → Position) (b : Body) : Body := ⟨b.text, f b.position, b.refs.map (·.moved f)⟩

def UseDecl.moved (f : Position → Position) (u : UseDecl) : UseDecl := ⟨u.module, f u.position⟩

def FieldDecl.moved (f : Position → Position) (decl : FieldDecl) : FieldDecl :=
  { decl with position := f decl.position }

def FnDecl.moved (f : Position → Position) (decl : FnDecl) : FnDecl :=
  ⟨decl.name, decl.params, decl.body.moved f, f decl.position⟩

def TypeDecl.moved (f : Position → Position) (t : TypeDecl) : TypeDecl where
  name := t.name
  base := t.base.map fun (name, p) => (name, f p)
  isAbstract := t.isAbstract
  fields := t.fields.map (·.moved f)
  methods := t.methods.map (·.moved f)
  position := f t.position

/-- The member with all its places moved. -/
def Member.moved (f : Position → Position) : Member → Member
  | .field decl => .field (decl.moved f)
  | .method decl => .method (decl.moved f)

/-- The item with all its places moved. -/
def Item.moved (f : Position → Position) : Item → Item
  | .use decl => .use (decl.moved f)
  | .function decl => .function (decl.moved f)
  | .type decl => .type (decl.moved f)

def Piece.moved (f : Position → Position) : Piece → Piece
  | .token l => .token (l.moved f)
  | .body b => .body (b.moved f)

@[simp] theorem moved_tok (f : Position → Position) (t : Token) (p : Position) :
    (tok t p).moved f = tok t (f p) := rfl

@[simp] theorem moved_word (f : Position → Position) (w : String) (p : Position) :
    (word w p).moved f = word w (f p) := rfl

@[simp] theorem moved_body (f : Position → Position) (b : Body) :
    (Piece.body b).moved f = .body (b.moved f) := rfl

/-! ## 3. Reading it there -/

variable {c d : Cursor} {l : Lexeme} {t : Token} {b : Body} {ps : List Piece}

theorem Cursor.Takes.moved (h : c.Takes l d) (moves : Moves f c.position) :
    (c.moved f).Takes (l.moved f) (d.moved f) := by
  obtain ⟨gap, word, isGap, spelled, ends, split, place, behind, whole⟩ := h
  refine ⟨gap, word, isGap, spelled, ends, split, ?_, ?_, whole⟩
  · show f l.position = _
    rw [place, moves]
    rfl
  · show f d.position = (f l.position).after word
    rw [behind, place, moves.after]

/-- The scan with the places of its module paths moved. -/
def Scan.moved (f : Position → Position) (s : Scan) : Scan := { s with refs := s.refs.map (·.moved f) }

theorem Scan.enterWord_moved (s : Scan) (cs : List Char) (p : Position) :
    (s.moved f).enterWord cs (f p) = (s.enterWord cs p).moved f := by
  show Scan.mk _ _ _ (if _ then _ else _) = Scan.mk _ _ _ (List.map _ (if _ then _ else _))
  have same : (s.moved f).behindPath = s.behindPath := rfl
  rw [same]
  split <;> rfl

@[simp] theorem Scan.place_moved (s : Scan) : (s.moved f).place = s.place := rfl

@[simp] theorem Scan.depth_moved (s : Scan) : (s.moved f).depth = s.depth := rfl

@[simp] theorem Scan.outer_moved (s : Scan) : (s.moved f).outer = s.outer := rfl

/-- A scan goes on in the same way wherever the text stands. -/
theorem scanBlock_moved (s : Scan) (cs : List Char) (p : Position) (moves : Moves f p) :
    scanBlock (s.moved f) cs (f p) =
      (scanBlock s cs p).map fun (tail, q, refs) => (tail, f q, refs.map (·.moved f)) := by
  fun_induction scanBlock s cs p
  case case1 => rfl
  case case4 s p _ _ code cs outer depth =>
    rw [scanBlock.eq_def]
    simp only [Scan.place_moved, Scan.depth_moved, Scan.outer_moved, code, outer, depth]
    rfl
  case case13 ih =>
    rw [← ih (moves.behind _), moves.step, ← Scan.enterWord_moved, scanBlock.eq_def]
    simp only [Scan.place_moved, *]
    rfl
  case case21 ih =>
    rw [← ih (moves.behind _), moves.step, scanBlock.eq_def]
    simp only [Scan.place_moved, *]
    split <;> rfl
  -- What is left are steps over one character or over a run of them.
  all_goals
    rename_i ih
    first
    | rw [← ih (moves.behind _), moves.step]
    | rw [← ih (moves.after _), moves]
    rw [scanBlock.eq_def]
    simp only [Scan.place_moved, Scan.depth_moved, Scan.outer_moved, *]
    try rfl

theorem Cursor.Captures.moved (h : c.Captures b d) (moves : Moves f c.position) :
    (c.moved f).Captures (b.moved f) (d.moved f) := by
  obtain ⟨place, split, ⟨q, scan⟩, behind, whole⟩ := h
  refine ⟨congrArg f place, split, ⟨f q, ?_⟩, ?_, whole⟩
  · have again := scanBlock_moved .initial (b.text.toList ++ ['\x7d']) c.position moves
    rw [scan] at again
    show _ = some (['\x7d'], f q, (b.refs.map (·.moved f)).reverse)
    rw [← List.map_reverse]
    exact again
  · show f d.position = ((f c.position).after b.text.toList).step '\x7d'
    rw [behind, (moves.after _).step, moves]

theorem Reads.moved (h : Reads c ps d) (moves : Moves f c.position) :
    Reads (c.moved f) (ps.map (·.moved f)) (d.moved f) := by
  induction h with
  | nil => exact .nil
  | token takes _ ih => exact .token (takes.moved moves) (ih (moves.remains takes.remains))
  | body captures _ ih => exact .body (captures.moved moves) (ih (moves.remains captures.remains))

/-! ## 4. It declares the same -/

variable {m : Member} {ms : List Member} {i : Item} {is : List Item}

theorem Derives.moved {r : Phrase} (h : Derives r ps) : Derives r (ps.map (·.moved f)) := by
  induction h with
  | int => exact .int
  | negativeInt => exact .negativeInt
  | float => exact .float
  | negativeFloat => exact .negativeFloat
  | text => exact .text
  | true => exact .true
  | false => exact .false
  | vector arity _ ih => exact .vector arity ih
  | array _ ih => exact .array ih
  | map _ ih => exact .map ih
  | lastComponent _ isComponent ih =>
    rw [List.map_append]
    exact .lastComponent ih isComponent
  | component _ isComponent _ ih ih' =>
    rw [List.map_append]
    exact .component ih isComponent ih'
  | noItem => exact .noItem
  | lastItem _ ih =>
    rw [List.map_append]
    exact .lastItem ih
  | item _ _ ih ih' =>
    rw [List.map_append]
    exact .item ih ih'
  | noEntry => exact .noEntry
  | lastEntry isKey _ ih =>
    rw [List.map_cons, List.map_cons, List.map_append]
    exact .lastEntry isKey ih
  | entry isKey _ _ ih ih' =>
    rw [List.map_cons, List.map_cons, List.map_append]
    exact .entry isKey ih ih'

theorem IsParams.moved {xs : List String} (h : IsParams xs ps) : IsParams xs (ps.map (·.moved f)) := by
  induction h with
  | none => exact .none
  | last => exact .last
  | more _ ih => exact .more ih

theorem IsFunction.moved {decl : FnDecl} (h : IsFunction decl ps) :
    IsFunction (decl.moved f) (ps.map (·.moved f)) := by
  obtain @⟨name, xs, b, ps, p, q, r, s, rule, nodup⟩ := h
  have moved : IsFunction (FnDecl.moved f ⟨name, xs, b, q⟩) (word "fn" (f p) :: word name (f q) :: tok .lparen (f r) ::
    (ps.map (·.moved f) ++ [tok .lbrace (f s), .body (b.moved f)])) := .mk rule.moved nodup
  simpa using moved

theorem IsDefault.moved {default : Option Literal} (h : IsDefault default ps) :
    IsDefault default (ps.map (·.moved f)) := by
  cases h with
  | none => exact .none
  | some rule =>
    rw [List.map_cons, List.map_append]
    exact .some rule.moved

theorem IsField.moved {decl : FieldDecl} (h : IsField decl ps) : IsField (decl.moved f) (ps.map (·.moved f)) := by
  obtain ⟨isKeyword, known, rule⟩ := h
  exact .mk isKeyword known rule.moved

theorem IsMember.moved (h : IsMember m ps) : IsMember (m.moved f) (ps.map (·.moved f)) := by
  cases h with
  | field rule => exact .field rule.moved
  | method rule => exact .method rule.moved

theorem AreMembers.moved (h : AreMembers ms ps) : AreMembers (ms.map (·.moved f)) (ps.map (·.moved f)) := by
  induction h with
  | close => exact .close
  | more rule _ ih =>
    rw [List.map_append]
    exact .more rule.moved ih

theorem fields_moved (ms : List Member) :
    (ms.map (·.moved f)).filterMap Member.field? = (ms.filterMap Member.field?).map (·.moved f) := by
  rw [List.filterMap_map, List.map_filterMap]
  exact congrArg (List.filterMap · ms) (funext fun m => by cases m <;> rfl)

theorem methods_moved (ms : List Member) :
    (ms.map (·.moved f)).filterMap Member.method? = (ms.filterMap Member.method?).map (·.moved f) := by
  rw [List.filterMap_map, List.map_filterMap]
  exact congrArg (List.filterMap · ms) (funext fun m => by cases m <;> rfl)

theorem IsType.moved {t : TypeDecl} (h : IsType t ps) : IsType (t.moved f) (ps.map (·.moved f)) := by
  obtain @⟨name, base, isAbstract, ms, ps, bs, qs, p, q, r, isPrefix, isBase, rules⟩ := h
  have isPrefix : IsPrefix isAbstract (ps.map (·.moved f)) := by
    cases isPrefix with
    | abstract => exact .abstract
    | none => exact .none
  have isBase : IsBase (base.map fun (name, p) => (name, f p)) (bs.map (·.moved f)) := by
    cases isBase with
    | none => exact .none
    | some => exact .some
  have moved : IsType _ (ps.map (·.moved f) ++ word "type" (f p) :: word name (f q) ::
    (bs.map (·.moved f) ++ tok .lbrace (f r) :: qs.map (·.moved f))) := .mk isPrefix isBase rules.moved
  rw [fields_moved, methods_moved] at moved
  simp only [List.map_append, List.map_cons]
  exact moved

theorem IsItem.moved (h : IsItem i ps) : IsItem (i.moved f) (ps.map (·.moved f)) := by
  cases h with
  | use => exact .use
  | function rule => exact .function rule.moved
  | type rule => exact .type rule.moved

theorem AreItems.moved (h : AreItems is ps) : AreItems (is.map (·.moved f)) (ps.map (·.moved f)) := by
  induction h with
  | none => exact .none
  | more rule _ ih =>
    rw [List.map_append]
    exact .more rule.moved ih

/-! ## 5. In front of another text -/

/-- Whether a token ends in front of these characters does not depend on what is behind them. -/
def Fixed (cs : List Char) : Prop := ∀ ⦃t rest⦄ (other : List Char), Ends t (cs ++ rest) → Ends t (cs ++ other)

theorem fixed_of_head {x : Char} {xs : List Char} (point : x = '.' → xs ≠ []) : Fixed (x :: xs) := by
  intro t rest other ends
  cases t with
  | int n =>
    refine ⟨ends.digit, fun d ds same => ?_⟩
    obtain ⟨rfl, more⟩ := List.cons.inj same
    obtain ⟨y, ys, rfl⟩ := List.exists_cons_of_ne_nil (point rfl)
    obtain ⟨rfl, -⟩ := List.cons.inj more
    exact ends.point y (ys ++ rest) rfl
  | _ => exact ends

theorem Fixed.append {us : List Char} (h : Fixed us) (vs : List Char) : Fixed (us ++ vs) := by
  intro t rest other ends
  rw [List.append_assoc] at ends ⊢
  exact h _ ends

theorem fixed_of_spelled {gap word : List Char} (isGap : Gap gap) (spelled : Spelled t word) :
    Fixed (gap ++ word) := by
  cases isGap with
  | none =>
    obtain ⟨x, xs, rfl, begins⟩ := spelled.begins
    exact fixed_of_head fun point => absurd point begins.point
  | blank blank => exact fixed_of_head fun point => absurd (point ▸ blank) (by decide)
  | line | block => exact fixed_of_head fun point => absurd point (by decide)

theorem Cursor.Takes.fixed (h : c.Takes l d) : ∃ cs, c.rest = cs ++ d.rest ∧ Fixed cs ∧
    ∀ rest, Ends l.token rest → (Cursor.mk (cs ++ rest) c.position false).Takes l ⟨rest, d.position, false⟩ := by
  obtain ⟨gap, word, isGap, spelled, -, split, place, behind, -⟩ := h
  exact ⟨gap ++ word, by rw [split, List.append_assoc], fixed_of_spelled isGap spelled, fun rest ends =>
    ⟨gap, word, isGap, spelled, ends, List.append_assoc _ _ _, place, behind, rfl⟩⟩

theorem Cursor.Captures.fixed (h : c.Captures b d) : ∃ cs, c.rest = cs ++ d.rest ∧ Fixed cs ∧
    ∀ rest, (Cursor.mk (cs ++ rest) c.position false).Captures b ⟨rest, d.position, false⟩ := by
  refine ⟨b.text.toList ++ ['\x7d'], by rw [h.split]; simp, ?_, fun rest => ?_⟩
  · cases b.text.toList with
    | nil => exact fixed_of_head fun point => absurd point (by decide)
    | cons x xs => exact fixed_of_head fun _ => by simp
  · exact ⟨h.place, by simp, h.scan, h.behind, rfl⟩

/-- The last token ends where the reading does. -/
theorem Reads.ends (h : Reads c ps d) (last : ps.getLast? = some (.token l)) : Ends l.token d.rest := by
  induction h with
  | nil => exact nomatch last
  | @token c l' m ps d takes reads ih =>
    cases ps with
    | nil =>
      cases reads
      obtain rfl := Piece.token.inj (Option.some.inj last)
      obtain ⟨_, _, -, -, ends, -⟩ := takes
      exact ends
    | cons q ps => exact ih last
  | @body c b m ps d captures reads ih =>
    cases ps with
    | nil => exact nomatch last
    | cons q ps => exact ih last

/-- With another gap in front the same token is taken. -/
theorem Cursor.Takes.gap {gs : List Char} (h : c.Takes l d) (gap : Gap gs) (behind : c.position = p.after gs) :
    (Cursor.mk (gs ++ c.rest) p false).Takes l d := by
  obtain ⟨gap', word, isGap, spelled, ends, split, place, there⟩ := h
  refine ⟨gs ++ gap', word, gap.append isGap, spelled, ends, ?_, ?_, there⟩
  · rw [split, List.append_assoc]
  · rw [place, behind, Position.after_append]

/-- Up to here the text reads as it did, whatever stands behind, if only the last token ends there. -/
theorem Reads.fixed {rest : List Char} (h : Reads c ps d)
    (ends : ∀ l, ps.getLast? = some (.token l) → Ends l.token rest) :
    ∃ cs, c.rest = cs ++ d.rest ∧ (ps ≠ [] → Fixed cs) ∧
      Reads ⟨cs ++ rest, c.position, false⟩ ps ⟨rest, d.position, false⟩ := by
  induction h with
  | nil => exact ⟨[], rfl, absurd rfl, .nil⟩
  | @token c l m ps d takes reads ih =>
    obtain ⟨us, split, fixed, takes'⟩ := takes.fixed
    cases ps with
    | nil =>
      cases reads
      refine ⟨us, split, fun _ => fixed, .single (takes' rest (ends l rfl))⟩
    | cons q ps =>
      obtain ⟨vs, split', fixed', reads'⟩ := ih fun l last => ends l (by rw [← last]; rfl)
      have ends' : Ends l.token (vs ++ d.rest) := by
        obtain ⟨_, _, -, -, ends, -⟩ := takes
        exact split' ▸ ends
      have takes' := takes' (vs ++ rest) (fixed' (List.cons_ne_nil _ _) rest ends')
      refine ⟨us ++ vs, by rw [split, split', List.append_assoc], fun _ => fixed.append vs, ?_⟩
      rw [List.append_assoc]
      exact .token takes' reads'
  | @body c b m ps d captures reads ih =>
    obtain ⟨us, split, fixed, captures'⟩ := captures.fixed
    have ends' : ∀ l, ps.getLast? = some (.token l) → Ends l.token rest := by
      cases ps with
      | nil => exact fun l last => nomatch last
      | cons => exact ends
    obtain ⟨vs, split', -, reads'⟩ := ih ends'
    refine ⟨us ++ vs, by rw [split, split', List.append_assoc], fun _ => fixed.append vs, ?_⟩
    rw [List.append_assoc]
    exact .body (captures' _) reads'

theorem Reads.other {cs rest : List Char} (h : Reads c ps d) (split : c.rest = cs ++ d.rest)
    (ends : ∀ l, ps.getLast? = some (.token l) → Ends l.token rest) :
    Reads ⟨cs ++ rest, c.position, false⟩ ps ⟨rest, d.position, false⟩ := by
  obtain ⟨us, split', -, reads⟩ := h.fixed ends
  rwa [List.append_cancel_right (split.symm.trans split')]

theorem Reads.fixed_front {cs : List Char} (h : Reads c ps d) (some' : ps ≠ []) (split : c.rest = cs ++ d.rest) :
    Fixed cs := by
  obtain ⟨us, split', fixed, -⟩ := h.fixed fun l last => h.ends last
  obtain rfl := List.append_cancel_right (split.symm.trans split')
  exact fixed some'

end Declaration

end ScriptHost
