import ScriptHost.Proofs.Declaration.Movement
import ScriptHost.Proofs.Declaration.Recovery

/-!
# Semicolon — a field that has lost its semicolon

In front of another member such a field is read as far as it goes, and then the first word of that member is passed
before it is found to be no semicolon.  Where the two run together they are one word, and that is passed.  In either
way recovery starts behind the first word of the next member.
-/

namespace ScriptHost.Declaration

open Text (Position)
open Parse (Fails Gives)

/-! ## 1. A field up to its semicolon -/

/-- The value after `=`, if there is one. -/
inductive IsValue : List Piece → Prop
  | none : IsValue []
  | some {v ps p} : Derives (.literal v) ps → IsValue (tok .eq p :: ps)

/-- `pub name: kind = literal` or the same with `let`. -/
inductive IsOpenField : List Piece → Prop
  | mk {keyword name w kind ps p q r s} : keyword = "pub" ∨ keyword = "let" → Field.Kind.ofKeyword? w = some kind →
      IsValue ps → IsOpenField (word keyword p :: word name q :: tok .colon r :: word w s :: ps)

variable {c d e : Cursor} {l : Lexeme} {t : Token} {p q : Position} {v w : String} {ps : List Piece}

theorem IsField.exists_open {f : FieldDecl} (h : IsField f ps) :
    ∃ qs q, ps = qs ++ [tok .semi q] ∧ IsOpenField qs := by
  obtain ⟨isKeyword, known, isDefault⟩ := h
  cases isDefault with
  | none => exact ⟨_, _, rfl, .mk isKeyword known .none⟩
  | some rule => exact ⟨_ :: _ :: _ :: _ :: _ :: _, _, rfl, .mk isKeyword known (.some rule)⟩

theorem IsOpenField.ne_nil (h : IsOpenField ps) : ps ≠ [] := by
  cases h
  exact List.cons_ne_nil _ _

/-- Another token in place of the semicolon is the fault, and is passed. -/
theorem IsOpenField.breaks (h : IsOpenField ps) (whole : c.torn = false) (reads : Reads c ps d) (takes : d.Takes l e)
    (semi : l.token ≠ .semi) (eq : l.token ≠ .eq) : c.Breaks l.position e := by
  obtain ⟨isKeyword, known, isValue⟩ := h
  refine breaks_field isKeyword (reads.starts whole)
    (?_ : Fails _ _ ⟨.expected Token.semi.describe l.token, l.position⟩ _)
  obtain ⟨c₁, first, reads⟩ := reads.cons_inv
  obtain ⟨c₂, named, reads⟩ := reads.cons_inv
  obtain ⟨c₃, colon, reads⟩ := reads.cons_inv
  obtain ⟨c₄, kinded, reads⟩ := reads.cons_inv
  refine (Parse.gives_expectIdent whole first).fails ((Parse.gives_expectIdent first.whole named).fails ?_)
  refine (Parse.gives_expect named.whole colon).discard.fails ((Parse.gives_expectIdent colon.whole kinded).fails ?_)
  dsimp only
  rw [known]
  cases isValue with
  | none =>
    cases reads
    refine (Parse.gives_accept_other kinded.whole takes eq).fails ?_
    exact (Parse.fails_expect kinded.whole takes semi).discard.bind
  | some rule =>
    obtain ⟨c₅, equals, value⟩ := reads.cons_inv
    have given := Parse.gives_literal_fuelOf rule equals.whole value
    refine (Parse.gives_accept kinded.whole equals).fails (Parse.gives_get.fails (given.fails ?_))
    exact Parse.gives_pure.fails (Parse.fails_expect (value.whole equals.whole) takes semi).discard.bind

/-! ## 2. A field run together with the next word -/

/-- A word that a phrase ends with is all of it, and a truth value. -/
theorem last_of_derives {r : Phrase} (h : Derives r ps) : ∃ qs t p, ps = qs ++ [tok t p] ∧
    ((∀ w, t ≠ .ident w) ∨ (∃ v, r = .literal v) ∧ qs = [] ∧ (t = .ident "true" ∨ t = .ident "false")) := by
  induction h with
  | int | float | text => exact ⟨[], _, _, rfl, .inl nofun⟩
  | negativeInt | negativeFloat => exact ⟨[_], _, _, rfl, .inl nofun⟩
  | true => exact ⟨[], _, _, rfl, .inr ⟨⟨_, rfl⟩, rfl, .inl rfl⟩⟩
  | false => exact ⟨[], _, _, rfl, .inr ⟨⟨_, rfl⟩, rfl, .inr rfl⟩⟩
  | noItem | noEntry => exact ⟨[], _, _, rfl, .inl nofun⟩
  | lastComponent | lastItem => exact ⟨_, _, _, rfl, .inl nofun⟩
  | lastEntry => exact ⟨_ :: _ :: _, _, _, rfl, .inl nofun⟩
  -- What remains ends as a shorter phrase does that is no literal.
  | vector _ _ ih | map _ ih =>
    obtain ⟨qs, t, p, rfl, sign | ⟨⟨v, same⟩, -⟩⟩ := ih
    · exact ⟨_ :: _ :: qs, t, p, rfl, .inl sign⟩
    · exact nomatch same
  | array _ ih =>
    obtain ⟨qs, t, p, rfl, sign | ⟨⟨v, same⟩, -⟩⟩ := ih
    · exact ⟨_ :: qs, t, p, rfl, .inl sign⟩
    · exact nomatch same
  | @component _ _ _ ps _ _ _ _ _ _ ih | @item _ _ ps _ _ _ _ _ ih =>
    obtain ⟨qs, t, p, rfl, sign | ⟨⟨v, same⟩, -⟩⟩ := ih
    · exact ⟨_, t, p, (List.append_assoc ps (_ :: qs) [tok t p]).symm, .inl sign⟩
    · exact nomatch same
  | @entry _ _ _ _ ps _ _ _ _ _ _ _ _ ih =>
    obtain ⟨qs, t, p, rfl, sign | ⟨⟨v, same⟩, -⟩⟩ := ih
    · exact ⟨_ :: _ :: (ps ++ _ :: qs), t, p, by rw [List.cons_append, List.cons_append, List.append_assoc]; rfl,
        .inl sign⟩
    · exact nomatch same

/-- A word made longer by one that members start with is no kind of a field. -/
theorem ofKeyword?_append {kind : Field.Kind} (known : Field.Kind.ofKeyword? v = some kind) (hw : w ∈ starters) :
    Field.Kind.ofKeyword? (v ++ w) = none := by
  obtain rfl := keyword_of_ofKeyword? known
  simp only [starters, List.mem_cons, List.not_mem_nil, or_false] at hw
  rcases hw with rfl | rfl | rfl <;> cases kind <;> rfl

/-- Nor is a truth value. -/
theorem fails_literal (hv : v = "true" ∨ v = "false") (hw : w ∈ starters) (whole : c.torn = false)
    (takes : c.Takes ⟨.ident (v ++ w), p⟩ d) (n : Nat) :
    Fails (Parse.literal (n + 1)) c ⟨.expected "a literal default value" (.ident (v ++ w)), p⟩ d := by
  simp only [starters, List.mem_cons, List.not_mem_nil, or_false] at hw
  unfold Parse.literal
  refine (Parse.gives_next whole takes).fails ?_
  rcases hv with rfl | rfl <;> rcases hw with rfl | rfl | rfl <;> rfl

/-- A field either ends with a sign, a number or a text, or with a word that the next one can make longer; then there is
    a fault at that word. -/
theorem IsOpenField.last (h : IsOpenField ps) : ∃ qs t q, ps = qs ++ [tok t q] ∧
    ((∀ v, t ≠ .ident v) ∨ ∃ v, t = .ident v ∧ ∀ ⦃w c d e⦄, w ∈ starters → c.torn = false → Reads c qs d →
      d.Takes ⟨.ident (v ++ w), q⟩ e → c.Breaks q e) := by
  obtain @⟨keyword, name, v, kind, ps, p₁, p₂, p₃, p₄, isKeyword, known, isValue⟩ := h
  cases isValue with
  -- The last word is the kind of the field.
  | none =>
    refine ⟨[_, _, _], _, _, rfl, .inr ⟨v, rfl, fun w c d e hw whole reads longer => ?_⟩⟩
    refine breaks_field isKeyword (reads.starts whole) (?_ : Fails _ _ ⟨.unknownKind (v ++ w), _⟩ _)
    obtain ⟨c₁, first, reads⟩ := reads.cons_inv
    obtain ⟨c₂, named, colon⟩ := reads.cons_inv
    have colon := colon.single_inv
    refine (Parse.gives_expectIdent whole first).fails ((Parse.gives_expectIdent first.whole named).fails ?_)
    refine (Parse.gives_expect named.whole colon).discard.fails ((Parse.gives_expectIdent colon.whole longer).fails ?_)
    dsimp only
    rw [ofKeyword?_append known hw]
    rfl
  | @some _ ps p₅ rule =>
    obtain ⟨qs, t, q, rfl, sign | ⟨-, rfl, truth⟩⟩ := last_of_derives rule
    · exact ⟨_ :: _ :: _ :: _ :: _ :: qs, t, q, rfl, .inl sign⟩
    -- The last word is a truth value, which is all that the field has for a default.
    · obtain ⟨u, hu, rfl⟩ : ∃ u, (u = "true" ∨ u = "false") ∧ t = .ident u := by
        rcases truth with rfl | rfl
        · exact ⟨_, .inl rfl, rfl⟩
        · exact ⟨_, .inr rfl, rfl⟩
      refine ⟨[_, _, _, _, _], _, _, rfl, .inr ⟨u, rfl, fun w c d e hw whole reads longer => ?_⟩⟩
      refine breaks_field isKeyword (reads.starts whole)
        (?_ : Fails _ _ ⟨.expected "a literal default value" (.ident (u ++ w)), _⟩ _)
      obtain ⟨c₁, first, reads⟩ := reads.cons_inv
      obtain ⟨c₂, named, reads⟩ := reads.cons_inv
      obtain ⟨c₃, colon, reads⟩ := reads.cons_inv
      obtain ⟨c₄, kinded, equals⟩ := reads.cons_inv
      have equals := equals.single_inv
      refine (Parse.gives_expectIdent whole first).fails ((Parse.gives_expectIdent first.whole named).fails ?_)
      refine (Parse.gives_expect named.whole colon).discard.fails ?_
      refine (Parse.gives_expectIdent colon.whole kinded).fails ?_
      dsimp only
      rw [known]
      refine (Parse.gives_accept kinded.whole equals).fails (Parse.gives_get.fails ?_)
      exact (fails_literal hu hw equals.whole longer _).bind

/-! ## 3. Without the semicolon -/

theorem ends_of_head {x : Char} {xs : List Char} (part : isWordPart x = false) (point : x ≠ '.') (t : Token) :
    Ends t (x :: xs) := by
  have digit : isDigitPart x = false := by
    simp only [isWordPart, Char.isAlphanum, Bool.or_eq_false_iff] at part
    simp [isDigitPart, part]
  have letter : goesOn x = false := by
    rw [goesOn, digit, Bool.false_or, Bool.or_eq_false_iff, beq_eq_false_iff_ne, beq_eq_false_iff_ne]
    constructor
    all_goals
      rintro rfl
      exact absurd part (by decide)
  cases t with
  | ident => exact part
  | int => exact ⟨digit, fun d ds same => absurd (List.cons.inj same).1 point⟩
  | float => exact letter
  | _ => trivial

theorem ends_gap {gs : List Char} (gap : Gap gs) (some' : gs ≠ []) (t : Token) (rest : List Char) :
    Ends t (gs ++ rest) := by
  cases gap with
  | none => exact absurd rfl some'
  | @blank x gs blank =>
    have begins {k : Char} (solid : isBlank k = false) : x ≠ k := by
      rintro rfl
      exact Bool.false_ne_true (solid.symm.trans blank)
    have part : isWordPart x = false := Bool.eq_false_iff.mpr fun part =>
      Bool.false_ne_true ((begins_of_isWordPart part).solid.symm.trans blank)
    exact ends_of_head part (begins rfl) t
  | line | block => exact ends_of_head rfl (by decide) t

/-- Nothing but a word runs together with a word that members start with. -/
theorem ends_starter (hw : w ∈ starters) (other : ∀ v, t ≠ .ident v) (rest : List Char) :
    Ends t (w.toList ++ rest) := by
  simp only [starters, List.mem_cons, List.not_mem_nil, or_false] at hw
  cases t with
  | ident v => exact absurd rfl (other v)
  | int => rcases hw with rfl | rfl | rfl <;> exact ⟨rfl, fun d ds same => nomatch same⟩
  | float => rcases hw with rfl | rfl | rfl <;> rfl
  | _ => trivial

theorem IsWord.append (h : IsWord v) (h' : IsWord w) : IsWord (v ++ w) where
  starts := by
    obtain ⟨x, xs, split, starts⟩ := h.exists_cons
    rw [String.toList_append, split]
    exact starts
  parts x hx := by
    rw [String.toList_append] at hx
    exact (List.mem_append.mp hx).elim (h.parts x) (h'.parts x)

/-- Two words without a gap between them are one. -/
theorem takes_together {rest : List Char} (h : c.Takes ⟨.ident v, p⟩ d) (isWord : IsWord w)
    (ends : rest.head?.any isWordPart = false) : ∃ cs, c.rest = cs ++ d.rest ∧ Fixed cs ∧
      (Cursor.mk (cs ++ (w.toList ++ rest)) c.position false).Takes ⟨.ident (v ++ w), p⟩
        ⟨rest, d.position.after w.toList, false⟩ := by
  obtain ⟨gap, word, isGap, spelled, -, split, place, behind, -⟩ := h
  refine ⟨gap ++ word, by rw [split, List.append_assoc], fixed_of_spelled isGap spelled, ?_⟩
  obtain ⟨isWord', rfl⟩ := spelled.of_ident
  refine ⟨gap, (v ++ w).toList, isGap, .word (isWord'.append isWord), ends, ?_, place, ?_, rfl⟩
  · simp
  · rw [String.toList_append, Position.after_append, behind]

/-- A field up to its semicolon in front of a word that members start with is broken, and recovery starts behind that
    word. -/
theorem IsOpenField.breaks_in_front {us rest : List Char} (h : IsOpenField ps) (reads : Reads c ps d)
    (front : c.rest = us ++ d.rest) (hw : w ∈ starters)
    (start : (Cursor.mk rest d.position false).Takes ⟨.ident w, p⟩ e) :
    ∃ r, (Cursor.mk (us ++ rest) c.position false).Breaks r e ∧ ¬r.Before c.position ∧ r.Before e.position := by
  -- Where it ends in front of the word as well, the field reads as it did, and the word is the fault.
  have apart (ends : ∀ l, ps.getLast? = some (.token l) → Ends l.token rest) :
      ∃ r, (Cursor.mk (us ++ rest) c.position false).Breaks r e ∧ ¬r.Before c.position ∧ r.Before e.position := by
    obtain ⟨low, high⟩ := start.place
    exact ⟨p, h.breaks rfl (reads.other front ends) start nofun nofun,
      Position.not_before_trans reads.remains.not_before low, high⟩
  obtain ⟨gap, word, isGap, spelled, ends, split, place, behind, whole⟩ := start
  obtain ⟨isWord, rfl⟩ := spelled.of_ident
  dsimp only at split place behind
  by_cases close : gap = []
  · subst close
    obtain rfl : p = d.position := place
    obtain ⟨qs, t, s, rfl, sign | ⟨v, rfl, together⟩⟩ := h.last
    · refine apart fun l last => ?_
      obtain ⟨rfl⟩ : Lexeme.mk t s = l := by simpa [tok] using last
      exact split ▸ ends_starter hw sign _
    · -- The two words run together, and the longer one is the fault.
      obtain ⟨m, head, last⟩ := reads.split
      have last := last.single_inv
      obtain ⟨vs, cut, fixed, longer⟩ := takes_together last isWord ends
      obtain ⟨us', front', -, again⟩ := head.fixed fun l h => fixed rest (cut ▸ head.ends h)
      obtain rfl : us' ++ vs = us := by
        rw [front', cut, ← List.append_assoc] at front
        exact List.append_cancel_right front
      have target : e = ⟨e.rest, d.position.after w.toList, false⟩ := by rw [← behind, ← whole]
      have split : rest = w.toList ++ e.rest := split
      rw [← split, ← target] at longer
      rw [List.append_assoc]
      obtain ⟨low, high⟩ := longer.place
      exact ⟨s, together hw rfl again longer, Position.not_before_trans head.remains.not_before low, high⟩
  · exact apart fun l _ => split ▸ ends_gap isGap close _ _

/-- The semicolon of a field, told by what stands around it: the field is open up to `m`, and without the semicolon what
    stands behind it is taken from there. -/
theorem exists_semicolon {f : FieldDecl} (rule : IsField f ps) (reads : Reads c ps d) :
    ∃ us gap qs m, IsOpenField qs ∧ Reads c qs m ∧ c.rest = us ++ m.rest ∧ Gap gap ∧ m.rest = gap ++ ';' :: d.rest ∧
      d.position = (c.position.after (us ++ gap)).step ';' ∧
      ∀ ⦃l e⦄, d.Takes l e → (Cursor.mk (gap ++ d.rest) m.position false).Takes
        (l.moved (c.position.after (us ++ gap)).without) (e.moved (c.position.after (us ++ gap)).without) := by
  obtain ⟨qs, q, rfl, isOpen⟩ := rule.exists_open
  obtain ⟨m, field, semi⟩ := reads.split
  obtain ⟨gap, sign, isGap, spelled, -, split, place, behind, -⟩ := semi.single_inv
  obtain rfl := spelled.of_sign (x := ';') rfl
  obtain ⟨us, front, there⟩ := field.remains
  have gone : c.position.after (us ++ gap) = q := by rw [Position.after_append, ← there]; exact place.symm
  have behind : d.position = q.step ';' := behind
  have moves : Moves q.without d.position := behind ▸ moves_without q (by decide)
  have stays : q.without d.position = q := behind ▸ without_step q (by decide)
  refine ⟨us, gap, qs, m, isOpen, field, front, isGap, split, gone ▸ behind, fun l e takes => ?_⟩
  rw [gone]
  exact (takes.moved moves).gap isGap (stays.trans place)

/-- Without its semicolon a field in front of another member is broken, and recovery starts behind the first word of
    that member. -/
theorem breaks_without_semicolon {f : FieldDecl} (rule : IsField f ps) (reads : Reads c ps d) (hw : w ∈ starters)
    (start : d.Takes ⟨.ident w, p⟩ e) :
    ∃ us, c.rest = us ++ ';' :: d.rest ∧ d.position = (c.position.after us).step ';' ∧ Fixed us ∧
      ∃ r, (Cursor.mk (us ++ d.rest) c.position false).Breaks r (e.moved (c.position.after us).without) ∧
        ¬r.Before c.position ∧ r.Before ((c.position.after us).without e.position) := by
  obtain ⟨us, gap, qs, m, isOpen, field, front, isGap, split, place, takes⟩ := exists_semicolon rule reads
  have fixed : Fixed us := field.fixed_front isOpen.ne_nil front
  refine ⟨us ++ gap, by rw [front, split, List.append_assoc], place, fixed.append gap, ?_⟩
  rw [List.append_assoc]
  exact isOpen.breaks_in_front field front hw (takes start)

/-- Without its semicolon a field in front of the brace that closes its type is broken at this brace, and recovery
    starts behind the brace. -/
theorem brace_passed_without_semicolon {f : FieldDecl} (rule : IsField f ps) (reads : Reads c ps d)
    (closes : d.Takes ⟨.rbrace, p⟩ e) :
    ∃ us, c.rest = us ++ ';' :: d.rest ∧ d.position = (c.position.after us).step ';' ∧
      (Cursor.mk (us ++ d.rest) c.position false).Breaks ((c.position.after us).without p)
        (e.moved (c.position.after us).without) := by
  obtain ⟨us, gap, qs, m, isOpen, field, front, isGap, split, place, takes⟩ := exists_semicolon rule reads
  refine ⟨us ++ gap, by rw [front, split, List.append_assoc], place, ?_⟩
  rw [List.append_assoc]
  refine isOpen.breaks rfl (field.other front fun l _ => ?_) (takes closes) nofun nofun
  obtain ⟨gap', sign, isGap', spelled, -, behind, -⟩ := closes
  obtain rfl := spelled.of_sign (x := '\x7d') rfl
  rw [behind, ← List.append_assoc]
  -- Neither a gap nor the brace makes a token longer.
  by_cases close : gap ++ gap' = []
  · rw [close]
    exact ends_of_head rfl (by decide) _
  · exact ends_gap (isGap.append isGap') close _ _

end ScriptHost.Declaration
