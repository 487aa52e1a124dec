import ScriptHost.Proofs.Declaration.Grammar
import ScriptHost.Proofs.Step

/-!
# Completeness — every sentence is read without a fault

A function of the parser that stands in front of the pieces of its rule reads them all and gives what the rule
says.  One token ahead tells which rule it is.  Every literal takes fuel for its pieces only, of which there are
no more than characters.
-/

namespace ScriptHost.Declaration

open Text (Position)

variable {c d e : Cursor} {l : Lexeme} {t : Token} {p : Position} {w : String}

namespace Parse

variable {α β : Type} {x : Parse α} {f : α → Parse β} {a : α} {b : β}

/-- From the one cursor the step gives the value and gets to the other cursor. -/
def Gives (x : Parse α) (c : Cursor) (a : α) (d : Cursor) : Prop := x.run.run c = (.ok a, d)

/-! ## 1. Steps one after the other -/

theorem gives_pure : Gives (pure a) c a c := rfl

theorem Gives.bind (hx : Gives x c a d) (hf : Gives (f a) d b e) : Gives (x >>= f) c b e := by
  unfold Gives at hx ⊢
  rw [ExceptT.run_bind, StateT.run_bind, hx]
  exact hf

theorem Gives.map {g : α → β} (hx : Gives x c a d) : Gives (g <$> x) c (g a) d := by
  rw [map_eq_pure_bind]
  exact hx.bind gives_pure

theorem gives_get : Gives (get : Parse Cursor) c c c := rfl

theorem Gives.discard (hx : Gives x c a d) : Gives (discard x) c () d := hx.map

/-- What holds of the value and of the cursor is ensured. -/
theorem Gives.ensures {Q : α → Cursor → Prop} {E : Fault → Cursor → Prop} (hx : Gives x c a d) (holds : Q a d) :
    Ensures x c Q E := by
  unfold Gives at hx
  unfold Ensures
  rw [hx]
  exact holds

/-! ## 2. Tokens -/

theorem gives_peek (whole : c.torn = false) (h : c.Takes l d) : Gives peek c l c := by
  show (Except.ok c.next.1, c) = _
  rw [h.next whole]

theorem gives_next (whole : c.torn = false) (h : c.Takes l d) : Gives next c l d := by
  show (Except.ok c.next.1, c.next.2) = _
  rw [h.next whole]

theorem gives_expect (whole : c.torn = false) (h : c.Takes ⟨t, p⟩ d) : Gives (expect t) c ⟨t, p⟩ d := by
  refine (gives_next whole h).bind ?_
  rw [if_pos (beq_self_eq_true t)]
  exact gives_pure

theorem gives_expectIdent {what : String} (whole : c.torn = false) (h : c.Takes ⟨.ident w, p⟩ d) :
    Gives (expectIdent what) c (w, p) d :=
  (gives_next whole h).bind gives_pure

theorem gives_expectKeyword (whole : c.torn = false) (h : c.Takes ⟨.ident w, p⟩ d) :
    Gives (expectKeyword w) c p d := by
  refine (gives_next whole h).bind ?_
  rw [if_pos (beq_self_eq_true (Token.ident w))]
  exact gives_pure

theorem gives_accept (whole : c.torn = false) (h : c.Takes ⟨t, p⟩ d) : Gives (accept t) c true d := by
  refine (gives_peek whole h).bind ?_
  rw [if_pos (beq_self_eq_true t)]
  exact (gives_next whole h).discard.bind gives_pure

/-- Another token is left where it is. -/
theorem gives_accept_other (whole : c.torn = false) (h : c.Takes l d) (other : l.token ≠ t) :
    Gives (accept t) c false c := by
  refine (gives_peek whole h).bind ?_
  rw [if_neg (by simpa using other)]
  exact gives_pure

/-! ## 3. Literals -/

/-- What the functions for literals give with so much fuel, where it is enough for the pieces.  Behind components
    the parenthesis is left. -/
structure GivesLiterals (fuel : Nat) : Prop where
  literal : ∀ ⦃v ps c d⦄, Derives (.literal v) ps → c.torn = false → Reads c ps d → 2 * ps.length ≤ fuel →
    Gives (literal fuel) c v d
  components : ∀ ⦃xs ps c d⦄ head, Derives (.components xs) ps → c.torn = false → Reads c ps d →
    2 * ps.length ≤ fuel → ∃ m p, Gives (components fuel head) c xs m ∧ m.torn = false ∧ m.Takes ⟨.rparen, p⟩ d
  items : ∀ ⦃vs ps c d⦄, Derives (.items vs) ps → c.torn = false → Reads c ps d → 2 * ps.length ≤ fuel →
    Gives (items fuel) c vs d
  entries : ∀ ⦃es ps c d⦄, Derives (.entries es) ps → c.torn = false → Reads c ps d → 2 * ps.length ≤ fuel →
    Gives (entries fuel) c es d

variable {ps : List Piece}

/-- A literal begins with a token that closes nothing. -/
theorem starts_of_literal {v : Literal} (h : Derives (.literal v) ps) :
    ∃ t p qs, ps = tok t p :: qs ∧ t ≠ .rbracket := by
  cases h
  all_goals exact ⟨_, _, _, rfl, nofun⟩

/-- In front of its bracket an array has no more items. -/
theorem gives_items_close {fuel : Nat} (whole : c.torn = false) (closes : c.Takes ⟨.rbracket, p⟩ d) :
    Gives (items (fuel + 1)) c [] d := by
  unfold items
  exact (gives_accept whole closes).bind gives_pure

/-- In front of its brace a map has no more entries. -/
theorem gives_entries_close {fuel : Nat} (whole : c.torn = false) (closes : c.Takes ⟨.rbrace, p⟩ d) :
    Gives (entries (fuel + 1)) c [] d := by
  unfold entries
  exact (gives_next whole closes).bind gives_pure

section Literals

variable {fuel : Nat} (ih : GivesLiterals fuel)
include ih

theorem gives_literal {v : Literal} (rule : Derives (.literal v) ps) (whole : c.torn = false)
    (reads : Reads c ps d) (enough : 2 * ps.length ≤ fuel + 1) : Gives (literal (fuel + 1)) c v d := by
  unfold literal
  cases rule with
  | int | float | text | true | false => exact (gives_next whole reads.single_inv).bind gives_pure
  | negativeInt | negativeFloat =>
    obtain ⟨e, minus, reads⟩ := reads.cons_inv
    exact (gives_next whole minus).bind ((gives_next minus.whole reads.single_inv).bind gives_pure)
  | @vector w xs ps p q hasArity rule =>
    obtain ⟨c₁, head, reads⟩ := reads.cons_inv
    obtain ⟨c₂, opens, reads⟩ := reads.cons_inv
    obtain ⟨m, r, given, whole', closes⟩ := ih.components p rule opens.whole reads (by simp at enough; omega)
    refine (gives_next whole head).bind ?_
    -- The word names a vector, so the branches of the other tokens and words are ruled out.
    split
    case h_7 w _ _ same =>
      obtain rfl := Token.ident.inj same
      rw [hasArity]
      refine (gives_expect head.whole opens).discard.bind (given.bind ?_)
      refine (gives_expect whole' closes).discard.bind ?_
      rw [if_pos (beq_self_eq_true xs.length)]
      exact gives_pure
    case h_5 same =>
      obtain rfl := Token.ident.inj same
      exact absurd hasArity nofun
    case h_6 same =>
      obtain rfl := Token.ident.inj same
      exact absurd hasArity nofun
    case h_10 other _ _ => exact absurd rfl (other w)
    all_goals
      rename_i same
      exact nomatch same
  | array rule =>
    obtain ⟨c₁, opens, reads⟩ := reads.cons_inv
    have given := ih.items rule opens.whole reads (by simp at enough; omega)
    exact (gives_next whole opens).bind (given.bind gives_pure)
  | map rule =>
    obtain ⟨c₁, hash, reads⟩ := reads.cons_inv
    obtain ⟨c₂, opens, reads⟩ := reads.cons_inv
    have given := ih.entries rule opens.whole reads (by simp at enough; omega)
    exact (gives_next whole hash).bind ((gives_expect hash.whole opens).discard.bind (given.bind gives_pure))

theorem gives_components {xs : List Float} (head : Position) (rule : Derives (.components xs) ps)
    (whole : c.torn = false) (reads : Reads c ps d) (enough : 2 * ps.length ≤ fuel + 1) :
    ∃ m p, Gives (components (fuel + 1) head) c xs m ∧ m.torn = false ∧ m.Takes ⟨.rparen, p⟩ d := by
  unfold components
  cases rule with
  | @lastComponent v x ps p rule isComponent =>
    obtain ⟨m, reads, closes⟩ := reads.split
    have whole' := reads.whole whole
    refine ⟨m, p, (ih.literal rule whole reads (by simp at enough; omega)).bind ?_, whole', closes.single_inv⟩
    rw [isComponent]
    exact (gives_accept_other (t := .comma) whole' closes.single_inv nofun).bind gives_pure
  | @component v x xs ps qs p rule isComponent rules =>
    obtain ⟨e, reads, reads'⟩ := reads.split
    obtain ⟨e', comma, reads'⟩ := reads'.cons_inv
    obtain ⟨m, r, given, whole', closes⟩ := ih.components head rules comma.whole reads' (by simp at enough; omega)
    refine ⟨m, r, (ih.literal rule whole reads (by simp at enough; omega)).bind ?_, whole', closes⟩
    rw [isComponent]
    exact (gives_accept (reads.whole whole) comma).bind (given.bind gives_pure)

theorem gives_items {vs : List Literal} (rule : Derives (.items vs) ps) (whole : c.torn = false)
    (reads : Reads c ps d) (enough : 2 * ps.length ≤ fuel + 1) : Gives (items (fuel + 1)) c vs d := by
  -- An item does not begin like the end of the array.
  have more {v : Literal} {qs : List Piece} {e : Cursor} (rule : Derives (.literal v) qs) (reads : Reads c qs e) :
      Gives (accept .rbracket) c false c := by
    obtain ⟨t, p, rest, rfl, other⟩ := starts_of_literal rule
    obtain ⟨_, takes, -⟩ := reads.cons_inv
    exact gives_accept_other whole takes other
  cases rule with
  | noItem => exact gives_items_close whole reads.single_inv
  | @lastItem v ps p rule =>
    obtain ⟨e, reads, closes⟩ := reads.split
    have whole' := reads.whole whole
    obtain ⟨n, rfl⟩ : ∃ n, fuel = n + 1 := Nat.exists_eq_add_one.mpr (by simp at enough; omega)
    unfold items
    refine (more rule reads).bind ((ih.literal rule whole reads (by simp at enough; omega)).bind ?_)
    refine (gives_peek whole' closes.single_inv).bind ?_
    exact (gives_items_close whole' closes.single_inv).bind gives_pure
  | @item v vs ps qs p rule rules =>
    obtain ⟨e, reads, reads'⟩ := reads.split
    obtain ⟨e', comma, reads'⟩ := reads'.cons_inv
    have whole' := reads.whole whole
    unfold items
    refine (more rule reads).bind ((ih.literal rule whole reads (by simp at enough; omega)).bind ?_)
    refine (gives_peek whole' comma).bind ((gives_next whole' comma).discard.bind ?_)
    exact (ih.items rules comma.whole reads' (by simp at enough; omega)).bind gives_pure

theorem gives_entries {es : List (String × Literal)} (rule : Derives (.entries es) ps) (whole : c.torn = false)
    (reads : Reads c ps d) (enough : 2 * ps.length ≤ fuel + 1) : Gives (entries (fuel + 1)) c es d := by
  cases rule with
  | noEntry => exact gives_entries_close whole reads.single_inv
  | @lastEntry t k v ps p q r isKey rule =>
    obtain ⟨c₁, key, behindKey⟩ := reads.cons_inv
    obtain ⟨c₂, colon, behindColon⟩ := behindKey.cons_inv
    obtain ⟨e, value, closes⟩ := behindColon.split
    have whole' := value.whole colon.whole
    obtain ⟨n, rfl⟩ : ∃ n, fuel = n + 1 := Nat.exists_eq_add_one.mpr (by simp at enough; omega)
    unfold entries
    refine (gives_next whole key).bind ?_
    cases isKey
    all_goals
      refine (gives_expect key.whole colon).discard.bind ?_
      refine (ih.literal rule colon.whole value (by simp at enough; omega)).bind ?_
      refine (gives_peek whole' closes.single_inv).bind ?_
      exact (gives_entries_close whole' closes.single_inv).bind gives_pure
  | @entry t k v es ps qs p q r isKey rule rules =>
    obtain ⟨c₁, key, behindKey⟩ := reads.cons_inv
    obtain ⟨c₂, colon, behindColon⟩ := behindKey.cons_inv
    obtain ⟨e, value, behindValue⟩ := behindColon.split
    obtain ⟨e', comma, more⟩ := behindValue.cons_inv
    have whole' := value.whole colon.whole
    unfold entries
    refine (gives_next whole key).bind ?_
    cases isKey
    all_goals
      refine (gives_expect key.whole colon).discard.bind ?_
      refine (ih.literal rule colon.whole value (by simp at enough; omega)).bind ?_
      refine (gives_peek whole' comma).bind ((gives_next whole' comma).discard.bind ?_)
      exact (ih.entries rules comma.whole more (by simp at enough; omega)).bind gives_pure

end Literals

theorem ne_nil_of_derives {r : Phrase} (h : Derives r ps) : ps ≠ [] := by
  cases h
  all_goals simp

theorem givesLiterals (fuel : Nat) : GivesLiterals fuel := by
  induction fuel with
  | zero =>
    have nothing {r : Phrase} {ps : List Piece} (rule : Derives r ps) (enough : 2 * ps.length ≤ 0) : False := by
      have := List.length_pos_iff.mpr (ne_nil_of_derives rule)
      omega
    exact ⟨fun _ _ _ _ rule _ _ enough => (nothing rule enough).elim,
      fun _ _ _ _ _ rule _ _ enough => (nothing rule enough).elim,
      fun _ _ _ _ rule _ _ enough => (nothing rule enough).elim,
      fun _ _ _ _ rule _ _ enough => (nothing rule enough).elim⟩
  | succ fuel ih =>
    exact ⟨fun _ _ _ _ => gives_literal ih, fun _ _ _ _ => gives_components ih, fun _ _ _ _ => gives_items ih,
      fun _ _ _ _ => gives_entries ih⟩

/-- The fuel for what is left is enough for a literal there. -/
theorem gives_literal_fuelOf {v : Literal} (rule : Derives (.literal v) ps) (whole : c.torn = false)
    (reads : Reads c ps d) : Gives (literal (fuelOf c)) c v d := by
  refine (givesLiterals _).literal rule whole reads ?_
  have := reads.length_le
  rw [fuelOf]
  omega

/-! ## 4. Functions and fields -/

theorem gives_use {decl : UseDecl} (rule : IsItem (.use decl) ps) (whole : c.torn = false) (reads : Reads c ps d) :
    Gives use c decl d := by
  cases rule with
  | use =>
    obtain ⟨c₁, keyword, reads⟩ := reads.cons_inv
    obtain ⟨c₂, named, reads⟩ := reads.cons_inv
    refine (gives_expectKeyword whole keyword).bind ((gives_expectIdent keyword.whole named).bind ?_)
    exact (gives_expect named.whole reads.single_inv).discard.bind gives_pure

/-- Behind the parameters the parenthesis is left. -/
theorem gives_params {x : String} {xs : List String} (seen : List String) (fuel : Nat)
    (rule : IsParams (x :: xs) ps) (nodup : (seen ++ x :: xs).Nodup) (whole : c.torn = false) (reads : Reads c ps d)
    (enough : ps.length ≤ fuel) :
    ∃ m p, Gives (params fuel seen) c (seen ++ x :: xs) m ∧ m.torn = false ∧ m.Takes ⟨.rparen, p⟩ d := by
  have fresh : ¬ seen.contains x = true := by
    intro old
    rw [List.contains_iff_mem] at old
    exact (List.nodup_append.mp nodup).2.2 x old x List.mem_cons_self rfl
  induction fuel generalizing x xs ps seen c with
  | zero =>
    cases rule
    all_goals simp at enough
  | succ fuel ih =>
    unfold params
    cases rule with
    | @last _ p q =>
      obtain ⟨m, named, closes⟩ := reads.cons_inv
      refine ⟨m, q, (gives_expectIdent whole named).bind ?_, named.whole, closes.single_inv⟩
      dsimp only
      rw [if_neg fresh]
      exact (gives_accept_other (t := .comma) named.whole closes.single_inv nofun).bind gives_pure
    | @more _ y ys ps p q rule =>
      obtain ⟨c₁, named, reads⟩ := reads.cons_inv
      obtain ⟨c₂, comma, reads⟩ := reads.cons_inv
      have split : seen ++ x :: y :: ys = (seen ++ [x]) ++ y :: ys := by simp
      rw [split] at nodup ⊢
      have fresh' : ¬ (seen ++ [x]).contains y = true := by
        intro old
        rw [List.contains_iff_mem] at old
        exact (List.nodup_append.mp nodup).2.2 y old y List.mem_cons_self rfl
      obtain ⟨m, r, given, whole', closes⟩ :=
        ih (seen ++ [x]) rule nodup comma.whole reads (by simp at enough; omega) fresh'
      refine ⟨m, r, (gives_expectIdent whole named).bind ?_, whole', closes⟩
      dsimp only
      rw [if_neg fresh]
      exact (gives_accept named.whole comma).bind given

theorem gives_body {b : Body} (whole : c.torn = false) (h : c.Captures b d) : Gives body c b d := by
  refine gives_get.bind ?_
  rw [(Cursor.captures_iff whole).mp h]
  exact gives_pure

theorem gives_function {decl : FnDecl} (rule : IsFunction decl ps) (whole : c.torn = false) (reads : Reads c ps d) :
    Gives function c decl d := by
  obtain @⟨name, xs, b, ps, p, q, r, s, rule, nodup⟩ := rule
  obtain ⟨c₁, keyword, reads⟩ := reads.cons_inv
  obtain ⟨c₂, named, reads⟩ := reads.cons_inv
  obtain ⟨c₃, opens, reads⟩ := reads.cons_inv
  obtain ⟨e, given, behind⟩ := reads.split
  obtain ⟨e', brace, captures⟩ := behind.cons_inv
  refine (gives_expectKeyword whole keyword).discard.bind ((gives_expectIdent keyword.whole named).bind ?_)
  refine (gives_expect named.whole opens).discard.bind ?_
  -- With the parameters given, the parenthesis and the body are left.
  have closing {m : Cursor} {t : Position} (whole' : m.torn = false) (closes : m.Takes ⟨.rparen, t⟩ e) :
      Gives (do
        discard (expect .rparen)
        discard (expect .lbrace)
        let body ← body
        return (⟨name, xs, body, q⟩ : FnDecl)) m ⟨name, xs, b, q⟩ d := by
    refine (gives_expect whole' closes).discard.bind ((gives_expect closes.whole brace).discard.bind ?_)
    cases captures with
    | body captures rest =>
      cases rest
      exact (gives_body brace.whole captures).bind gives_pure
  cases xs with
  | nil =>
    cases rule with
    | none => exact (gives_peek opens.whole given.single_inv).bind (closing opens.whole given.single_inv)
  | cons x xs =>
    have enough := given.length_le
    obtain ⟨m, t, given', whole', closes⟩ :=
      gives_params [] (fuelOf c₃) rule nodup opens.whole given (by rw [fuelOf]; omega)
    obtain ⟨u, v, takes⟩ : ∃ u v, c₃.Takes ⟨.ident x, u⟩ v := by
      cases rule with
      | last | more =>
        obtain ⟨v, takes, -⟩ := given.cons_inv
        exact ⟨_, v, takes⟩
    refine (gives_peek opens.whole takes).bind ?_
    show Gives (if _ then _ else _) c₃ _ _
    rw [if_neg (by simp)]
    exact gives_get.bind (given'.bind (closing whole' closes))

theorem gives_field {decl : FieldDecl} (rule : IsField decl ps) (whole : c.torn = false) (reads : Reads c ps d) :
    Gives field c decl d := by
  obtain ⟨isKeyword, known, isDefault⟩ := rule
  obtain ⟨c₁, first, reads⟩ := reads.cons_inv
  obtain ⟨c₂, named, reads⟩ := reads.cons_inv
  obtain ⟨c₃, colon, reads⟩ := reads.cons_inv
  obtain ⟨c₄, kinded, reads⟩ := reads.cons_inv
  refine (gives_expectIdent whole first).bind ((gives_expectIdent first.whole named).bind ?_)
  refine (gives_expect named.whole colon).discard.bind ((gives_expectIdent colon.whole kinded).bind ?_)
  dsimp only
  rw [known]
  cases isDefault with
  | none =>
    refine (gives_accept_other (t := .eq) kinded.whole reads.single_inv nofun).bind ?_
    exact (gives_expect kinded.whole reads.single_inv).discard.bind gives_pure
  | some rule =>
    obtain ⟨e, equals, reads⟩ := reads.cons_inv
    obtain ⟨f, value, semi⟩ := reads.split
    have given := gives_literal_fuelOf rule equals.whole value
    refine (gives_accept kinded.whole equals).bind (gives_get.bind (given.bind (gives_pure.bind ?_)))
    exact (gives_expect (value.whole equals.whole) semi.single_inv).discard.bind gives_pure

end Parse

/-! ## 5. Types -/

open Parse (Gives)

variable {ps qs : List Piece}

theorem Reads.starts (h : Reads c (word w p :: ps) d) (whole : c.torn = false) : c.next.1.token = .ident w := by
  obtain ⟨e, takes, -⟩ := h.cons_inv
  rw [takes.next whole]

/-- A member begins with the word that tells what it is. -/
theorem gives_member {m : Member} (rule : IsMember m ps) (whole : c.torn = false) (reads : Reads c ps d) :
    ∃ w, c.next.1.token = .ident w ∧ Gives (member (.ident w)) c m d := by
  cases rule with
  | field rule =>
    have given := Parse.gives_field rule whole reads
    obtain ⟨isKeyword, -, -⟩ := rule
    refine ⟨_, reads.starts whole, ?_⟩
    rcases isKeyword with rfl | rfl
    · exact given.bind Parse.gives_pure
    · exact given.bind Parse.gives_pure
  | method rule =>
    have given := Parse.gives_function rule whole reads
    obtain ⟨-, -⟩ := rule
    exact ⟨"fn", reads.starts whole, given.bind Parse.gives_pure⟩

theorem IsMember.ne_nil {m : Member} (h : IsMember m ps) : ps ≠ [] := by
  cases h with
  | field rule =>
    cases rule
    exact List.cons_ne_nil _ _
  | method rule =>
    cases rule
    exact List.cons_ne_nil _ _

/-- A member is read, and then the others. -/
theorem members_more {m : Member} (rule : IsMember m ps) (whole : c.torn = false) (reads : Reads c ps d) (n : Nat) :
    members (n + 1) c = { members n d with found := m :: (members n d).found } := by
  obtain ⟨w, starts, given⟩ := gives_member rule whole reads
  rw [members]
  dsimp only
  rw [starts]
  dsimp only
  rw [given]

/-- Members are all read, each of them with a piece at least. -/
theorem members_of_areMembers {ms : List Member} (fuel : Nat) (rules : AreMembers ms ps) (whole : c.torn = false)
    (reads : Reads c ps d) (enough : ps.length ≤ fuel) : members fuel c = ⟨ms, [], true, d⟩ := by
  induction rules generalizing fuel c with
  | close =>
    obtain ⟨n, rfl⟩ : ∃ n, fuel = n + 1 := Nat.exists_eq_add_one.mpr enough
    unfold members
    rw [reads.single_inv.next whole]
  | more rule _ ih =>
    have some' := List.length_pos_iff.mpr rule.ne_nil
    rw [List.length_append] at enough
    obtain ⟨n, rfl⟩ : ∃ n, fuel = n + 1 := Nat.exists_eq_add_one.mpr (by omega)
    obtain ⟨e, reads, reads'⟩ := reads.split
    rw [members_more rule whole reads, ih n (reads.whole whole) reads' (by omega)]

theorem gives_typeHead {head : TypeDecl} (rule : IsHead head ps) (whole : c.torn = false) (reads : Reads c ps d) :
    Gives typeHead c head d := by
  obtain @⟨name, base, isAbstract, ps, bs, p, q, r, isPrefix, isBase⟩ := rule
  obtain ⟨c₁, first, reads⟩ := reads.split
  obtain ⟨c₂, keyword, reads⟩ := reads.cons_inv
  obtain ⟨c₃, named, reads⟩ := reads.cons_inv
  obtain ⟨c₄, based, brace⟩ := reads.split
  have whole₁ := first.whole whole
  have abstract : Gives (Parse.accept (.ident "abstract")) c isAbstract c₁ := by
    cases isPrefix with
    | abstract => exact Parse.gives_accept whole first.single_inv
    | none =>
      cases first
      exact Parse.gives_accept_other whole keyword (by simp)
  refine abstract.bind ((Parse.gives_expectKeyword whole₁ keyword).discard.bind ?_)
  refine (Parse.gives_expectIdent keyword.whole named).bind ?_
  cases isBase with
  | none =>
    cases based
    refine (Parse.gives_accept_other (t := .colon) named.whole brace.single_inv nofun).bind ?_
    exact (Parse.gives_expect named.whole brace.single_inv).discard.bind Parse.gives_pure
  | some =>
    obtain ⟨c₅, colon, based⟩ := based.cons_inv
    refine (Parse.gives_accept named.whole colon).bind ?_
    refine (Parse.gives_expectIdent colon.whole based.single_inv).map.bind ?_
    exact (Parse.gives_expect based.single_inv.whole brace.single_inv).discard.bind Parse.gives_pure

/-- A type with its head and its closing brace is read with the members that are found, and with the faults. -/
theorem typeItem_of_members {head : TypeDecl} {ms : List Member} {faults : List Fault} (rule : IsHead head ps)
    (whole : c.torn = false) (reads : Reads c ps d)
    (found : members (Parse.fuelOf d) d = ⟨ms, faults, true, e⟩) :
    typeItem c = ⟨some (.type (head.withMembers ms)), faults, e⟩ := by
  unfold typeItem
  rw [gives_typeHead rule whole reads]
  dsimp only
  rw [found]
  rfl

theorem typeItem_of_isType {decl : TypeDecl} (rule : IsType decl ps) (whole : c.torn = false)
    (reads : Reads c ps d) : typeItem c = ⟨some (.type decl), [], d⟩ := by
  obtain ⟨head, ms, qs, rs, isHead, rules, rfl, rfl⟩ := isType_iff.mp rule
  obtain ⟨e, first, reads⟩ := reads.split
  have enough := reads.length_le
  exact typeItem_of_members isHead whole first
    (members_of_areMembers _ rules (first.whole whole) reads (by rw [Parse.fuelOf]; omega))

/-- A type begins with a word of its own. -/
theorem item_of_isHead {head : TypeDecl} (rule : IsHead head ps) (whole : c.torn = false) (reads : Reads c ps d) :
    ∃ w, c.peek.token = .ident w ∧ item (.ident w) c = typeItem c := by
  obtain ⟨isPrefix, -⟩ := rule
  cases isPrefix with
  | abstract => exact ⟨"abstract", reads.starts whole, rfl⟩
  | none => exact ⟨"type", reads.starts whole, rfl⟩

/-! ## 6. Modules -/

theorem ofParse_of_gives {α : Type} (make : α → Item) {x : Parse α} {a : α} (h : Gives x c a d) :
    ItemResult.ofParse make x c = ⟨some (make a), [], d⟩ := by
  unfold ItemResult.ofParse
  rw [h]

theorem IsItem.ne_nil {i : Item} (h : IsItem i ps) : ps ≠ [] := by
  cases h with
  | use => exact List.cons_ne_nil _ _
  | function rule =>
    cases rule
    exact List.cons_ne_nil _ _
  | type rule =>
    cases rule
    simp

/-- An item begins with the word that tells what it is. -/
theorem item_of_isItem {i : Item} (rule : IsItem i ps) (whole : c.torn = false) (reads : Reads c ps d) :
    ∃ w, c.peek.token = .ident w ∧ item (.ident w) c = ⟨some i, [], d⟩ := by
  cases rule with
  | use =>
    have given := ofParse_of_gives .use (Parse.gives_use .use whole reads)
    exact ⟨"use", reads.starts whole, given⟩
  | function rule =>
    have given := ofParse_of_gives .function (Parse.gives_function rule whole reads)
    obtain ⟨-, -⟩ := rule
    exact ⟨"fn", reads.starts whole, given⟩
  | type rule =>
    have given := typeItem_of_isType rule whole reads
    obtain ⟨head, ms, qs, rs, isHead, rules, rfl, rfl⟩ := isType_iff.mp rule
    obtain ⟨e, first, -⟩ := reads.split
    obtain ⟨w, starts, same⟩ := item_of_isHead isHead whole first
    exact ⟨w, starts, same.trans given⟩

/-- An item is read with its faults, and then the others. -/
theorem itemsFrom_more {i : Item} {faults : List Fault} (starts : c.peek.token = .ident w)
    (read : item (.ident w) c = ⟨some i, faults, d⟩) (n : Nat) :
    itemsFrom (n + 1) c = (i :: (itemsFrom n d).1, faults ++ (itemsFrom n d).2) := by
  rw [itemsFrom]
  dsimp only
  rw [starts, read]
  exact if_neg (by simp)

/-- Items are all read, and then what is behind them. -/
theorem itemsFrom_front {items : List Item} (rules : AreItems items ps) (whole : c.torn = false) (reads : Reads c ps d)
    (n : Nat) (enough : c.rest.length < n) :
    ∃ n', d.rest.length < n' ∧ itemsFrom n c = (items ++ (itemsFrom n' d).1, (itemsFrom n' d).2) := by
  induction rules generalizing n c with
  | none =>
    cases reads
    exact ⟨n, enough, rfl⟩
  | more rule _ ih =>
    have some' := List.length_pos_iff.mpr rule.ne_nil
    obtain ⟨e, reads, reads'⟩ := reads.split
    have length := reads.length_le
    obtain ⟨w, starts, read⟩ := item_of_isItem rule whole reads
    obtain ⟨n, rfl⟩ : ∃ k, n = k + 1 := Nat.exists_eq_add_one.mpr (by omega)
    obtain ⟨n', enough', front⟩ := ih (reads.whole whole) reads' n (by omega)
    exact ⟨n', enough', by rw [itemsFrom_more starts read, front]; rfl⟩

theorem itemsFrom_of_areItems {items : List Item} (fuel : Nat) (rules : AreItems items ps)
    (whole : c.torn = false) (reads : Reads c ps d) (final : Final d.rest) (enough : c.rest.length < fuel) :
    itemsFrom fuel c = (items, []) := by
  obtain ⟨n, enough', front⟩ := itemsFrom_front rules whole reads fuel enough
  obtain ⟨n, rfl⟩ : ∃ k, n = k + 1 := Nat.exists_eq_add_one.mpr (by omega)
  have last : d.peek.token = .eof := (Cursor.next_eof_iff (reads.whole whole)).mpr final
  have nothing : itemsFrom (n + 1) d = ([], []) := by
    rw [itemsFrom]
    dsimp only
    rw [last]
    rfl
  rw [front, nothing, List.append_nil]

/-- A sentence is read without a fault, as what it declares. -/
theorem parse_of_sentence {source : String} {tree : Tree} (h : Sentence Final source tree) :
    parse source = (tree, []) := by
  obtain ⟨items, ps, after, rules, reads, final, rfl⟩ := h
  have enough : (Cursor.ofString source).rest.length < source.length + 1 :=
    Nat.lt_succ_of_le (Nat.le_of_eq String.length_toList)
  unfold parse
  rw [itemsFrom_of_areItems _ rules rfl reads final enough]

end ScriptHost.Declaration
