import ScriptHost.Proofs.Declaration.Semicolon
import ScriptHost.Proofs.Declaration.Soundness

/-!
# Locality — a missing semicolon costs two members

The field and the member behind it are lost.  All that stands in front of them is read as before, and so is all that
stands behind them, from places that have moved.  The two exceptions: a method behind the field whose body, read as
tokens of declarations, has braces that do not pair, and a field in front of the brace that closes its type.
-/

namespace ScriptHost.Declaration

open Text (Position Remains)

/-! ## 1. Types in parts -/

/-- Members in front of others. -/
inductive AreFirst : List Member → List Piece → Prop
  | none : AreFirst [] []
  | more {m ms ps qs} : IsMember m ps → AreFirst ms qs → AreFirst (m :: ms) (ps ++ qs)

variable {c d e : Cursor} {p : Position} {w : String} {ps qs : List Piece} {ms : List Member} {m : Member} {n : Nat}

theorem AreFirst.append {ms' : List Member} (h : AreFirst ms ps) (h' : AreMembers ms' qs) :
    AreMembers (ms ++ ms') (ps ++ qs) := by
  induction h with
  | none => exact h'
  | more rule _ ih =>
    rw [List.append_assoc]
    exact .more rule ih

theorem AreItems.append {is js : List Item} (h : AreItems is ps) (h' : AreItems js qs) :
    AreItems (is ++ js) (ps ++ qs) := by
  induction h with
  | none => exact h'
  | more rule _ ih =>
    rw [List.append_assoc]
    exact .more rule ih

theorem AreItems.split {is js : List Item} (h : AreItems (is ++ js) ps) :
    ∃ qs rs, AreItems is qs ∧ AreItems js rs ∧ ps = qs ++ rs := by
  induction is generalizing ps with
  | nil => exact ⟨[], ps, .none, h, rfl⟩
  | cons i is ih =>
    cases h with
    | @more _ _ us vs rule rules =>
      obtain ⟨qs, rs, first, second, rfl⟩ := ih rules
      exact ⟨us ++ qs, rs, .more rule first, second, (List.append_assoc us qs rs).symm⟩

theorem AreMembers.split {ms' : List Member} (h : AreMembers (ms ++ ms') ps) :
    ∃ qs rs, AreFirst ms qs ∧ AreMembers ms' rs ∧ ps = qs ++ rs := by
  induction ms generalizing ps with
  | nil => exact ⟨[], ps, .none, h, rfl⟩
  | cons m ms ih =>
    cases h with
    | @more _ _ us vs rule rules =>
      obtain ⟨qs, rs, first, second, rfl⟩ := ih rules
      exact ⟨us ++ qs, rs, .more rule first, second, (List.append_assoc us qs rs).symm⟩

/-- A member begins with a word that members start with. -/
theorem IsMember.starts (h : IsMember m ps) : ∃ w p qs, ps = word w p :: qs ∧ w ∈ starters := by
  cases h with
  | field rule =>
    obtain ⟨isKeyword, -, -⟩ := rule
    refine ⟨_, _, _, rfl, ?_⟩
    rcases isKeyword with rfl | rfl <;> decide
  | method rule =>
    obtain ⟨-, -⟩ := rule
    exact ⟨_, _, _, rfl, by decide⟩

/-- Behind a member there is another one, or the brace that closes the type. -/
theorem AreMembers.boundary (h : AreMembers ms ps) (whole : c.torn = false) (reads : Reads c ps d) :
    c.next.1.token.IsBoundary := by
  cases h with
  | close =>
    rw [reads.single_inv.next whole]
    exact .inl rfl
  | more rule _ =>
    obtain ⟨w, p, qs, rfl, hw⟩ := rule.starts
    exact .inr ⟨w, hw, reads.starts whole⟩

/-! ## 2. The site of a field -/

/-- From the one cursor to the other the text is a phrase of this rule. -/
def Cursor.Spells (c : Cursor) (rule : List Piece → Prop) (d : Cursor) : Prop := ∃ ps, rule ps ∧ Reads c ps d

/-- What a function of the parser reads is a phrase of its rule. -/
theorem spells_of_follows {α : Type} {x : Parse α} {rule : α → List Piece → Prop} {a : α}
    (follows : Parse.Follows x rule c) (given : Parse.Gives x c a d) : c.Spells (rule a) d := by
  unfold Parse.Follows Ensures at follows
  unfold Parse.Gives at given
  rw [given] at follows
  obtain ⟨ps, -, rule, reads⟩ := follows
  exact ⟨ps, rule, reads⟩

/-- A field in a type of a module without a fault, with the member behind it, and the cursors between these parts. -/
structure Site (source : String) where
  before : List Item
  head : TypeDecl
  first : List Member
  field : FieldDecl
  next : Member
  others : List Member
  behind : List Item
  atType : Cursor
  atFirst : Cursor
  atField : Cursor
  atNext : Cursor
  atOthers : Cursor
  atBehind : Cursor
  atEnd : Cursor
  spellsBefore : (Cursor.ofString source).Spells (AreItems before) atType
  spellsHead : atType.Spells (IsHead head) atFirst
  spellsFirst : atFirst.Spells (AreFirst first) atField
  spellsField : atField.Spells (IsField field) atNext
  spellsNext : atNext.Spells (IsMember next) atOthers
  spellsOthers : atOthers.Spells (AreMembers others) atBehind
  spellsBehind : atBehind.Spells (AreItems behind) atEnd
  final : Final atEnd.rest

namespace Site

variable {source : String} (s : Site source)

/-- The type that the field is in. -/
def type : TypeDecl := s.head.withMembers (s.first ++ .field s.field :: s.next :: s.others)

/-- The whole module. -/
def items : List Item := s.before ++ .type s.type :: s.behind

theorem sentence : Sentence Final source (Tree.ofItems s.items) := by
  obtain ⟨ps₀, before, reads₀⟩ := s.spellsBefore
  obtain ⟨ps₁, head, reads₁⟩ := s.spellsHead
  obtain ⟨ps₂, first, reads₂⟩ := s.spellsFirst
  obtain ⟨ps₃, field, reads₃⟩ := s.spellsField
  obtain ⟨ps₄, next, reads₄⟩ := s.spellsNext
  obtain ⟨ps₅, others, reads₅⟩ := s.spellsOthers
  obtain ⟨ps₆, behind, reads₆⟩ := s.spellsBehind
  have type := isType_iff.mpr ⟨_, _, _, _, head, first.append (.more (.field field) (.more next others)), rfl, rfl⟩
  refine ⟨_, _, s.atEnd, before.append (.more (.type type) behind), ?_, s.final, rfl⟩
  exact reads₀.append ((reads₁.append (reads₂.append (reads₃.append (reads₄.append reads₅)))).append reads₆)

end Site

/-- Around every field of a module without a fault the text is read part by part. -/
theorem spells_around {source : String} {tree : Tree} {t : TypeDecl} {f : FieldDecl} (clean : parse source = (tree, []))
    (ht : t ∈ tree.types) (hf : f ∈ t.fields) : ∃ is head ms ms' js c₁ c₂ c₃ c₄ c₅ c₆,
      (Cursor.ofString source).Spells (AreItems is) c₁ ∧ c₁.Spells (IsHead head) c₂ ∧ c₂.Spells (AreFirst ms) c₃ ∧
      c₃.Spells (IsField f) c₄ ∧ c₄.Spells (AreMembers ms') c₅ ∧ c₅.Spells (AreItems js) c₆ ∧ Final c₆.rest ∧
      t = head.withMembers (ms ++ .field f :: ms') ∧ tree = .ofItems (is ++ .type t :: js) := by
  have sentence := sentence_of_parse (congrArg Prod.snd clean)
  rw [clean] at sentence
  obtain ⟨items, ps, last, rules, reads, final, rfl⟩ := sentence
  -- The pieces are cut around the type, its heading and the field; the reading is cut along with them.
  obtain ⟨i, hi, same⟩ := List.mem_filterMap.mp ht
  obtain rfl : i = .type t := by
    cases i with
    | type decl => exact congrArg Item.type (Option.some.inj same)
    | use | function => exact nomatch same
  obtain ⟨before, behind, rfl⟩ := List.append_of_mem hi
  obtain ⟨ps₀, _, isBefore, here, rfl⟩ := rules.split
  cases here with
  | more isItem isBehind =>
  cases isItem with
  | type isType =>
  obtain ⟨head, ms, ps₁, _, isHead, members, rfl, rfl⟩ := isType_iff.mp isType
  obtain ⟨m, hm, same⟩ := List.mem_filterMap.mp hf
  obtain rfl : m = .field f := by
    cases m with
    | field decl => exact congrArg Member.field (Option.some.inj same)
    | method => exact nomatch same
  obtain ⟨first, others, rfl⟩ := List.append_of_mem hm
  obtain ⟨ps₂, _, isFirst, there, rfl⟩ := members.split
  cases there with
  | more isMember isOthers =>
  cases isMember with
  | field isField =>
  obtain ⟨c₁, reads₁, reads⟩ := reads.split
  obtain ⟨c₅, reads, reads₆⟩ := reads.split
  obtain ⟨c₂, reads₂, reads⟩ := reads.split
  obtain ⟨c₃, reads₃, reads⟩ := reads.split
  obtain ⟨c₄, reads₄, reads₅⟩ := reads.split
  exact ⟨before, head, first, others, behind, c₁, c₂, c₃, c₄, c₅, last, ⟨_, isBefore, reads₁⟩, ⟨_, isHead, reads₂⟩,
    ⟨_, isFirst, reads₃⟩, ⟨_, isField, reads₄⟩, ⟨_, isOthers, reads₅⟩, ⟨_, isBehind, reads₆⟩, final, rfl, rfl⟩

theorem Cursor.Spells.remains {rule : List Piece → Prop} (h : c.Spells rule d) :
    Remains c.rest c.position d.rest d.position := by
  obtain ⟨ps, -, reads⟩ := h
  exact reads.remains

theorem Cursor.Spells.whole {rule : List Piece → Prop} (h : c.Spells rule d) (whole : c.torn = false) :
    d.torn = false := by
  obtain ⟨ps, -, reads⟩ := h
  exact reads.whole whole

/-- Every field of a module without a fault is at a site, or stands in front of the brace that closes its type. -/
theorem exists_site {source : String} {tree : Tree} {t : TypeDecl} {f : FieldDecl} (clean : parse source = (tree, []))
    (ht : t ∈ tree.types) (hf : f ∈ t.fields) :
    (∃ s : Site source, s.field = f ∧ s.type = t ∧ Tree.ofItems s.items = tree) ∨
      ∃ (c d e : Cursor) (p : Position), Remains source.toList .start c.rest c.position ∧ c.Spells (IsField f) d ∧
        d.Takes ⟨.rbrace, p⟩ e := by
  obtain ⟨before, head, first, more, behind, c₁, c₂, c₃, c₄, c₅, c₆, isBefore, isHead, isFirst, isField,
    ⟨ps, isMore, reads⟩, isBehind, final, rfl, rfl⟩ := spells_around clean ht hf
  cases isMore with
  | close =>
    exact .inr ⟨c₃, c₄, _, _, isBefore.remains.trans (isHead.remains.trans isFirst.remains), isField, reads.single_inv⟩
  | more isNext isOthers =>
    obtain ⟨d, reads, reads'⟩ := reads.split
    exact .inl ⟨⟨before, head, first, f, _, _, behind, c₁, c₂, c₃, c₄, d, c₅, c₆, isBefore, isHead, isFirst, isField,
      ⟨_, isNext, reads⟩, ⟨_, isOthers, reads'⟩, isBehind, final⟩, rfl, rfl, rfl⟩

/-! ## 3. Reading around a broken member -/

/-- Members are all read, and then what is behind them. -/
theorem members_front (rules : AreFirst ms ps) (whole : c.torn = false) (reads : Reads c ps d) (n : Nat)
    (enough : c.rest.length < n) :
    ∃ n', d.rest.length < n' ∧ members n c = { members n' d with found := ms ++ (members n' d).found } := by
  induction rules generalizing n c with
  | none =>
    cases reads
    exact ⟨n, enough, rfl⟩
  | more rule _ ih =>
    have some' := List.length_pos_iff.mpr rule.ne_nil
    obtain ⟨e, reads, reads'⟩ := reads.split
    have length := reads.length_le
    obtain ⟨n, rfl⟩ : ∃ k, n = k + 1 := Nat.exists_eq_add_one.mpr (by omega)
    obtain ⟨n', enough', front⟩ := ih (reads.whole whole) reads' n (by omega)
    exact ⟨n', enough', by rw [members_more rule whole reads, front]; rfl⟩

/-- What recovery can go over in front of this text: a field, or a method whose braces pair. -/
def Member.Pairs (rest : List Char) : Member → Prop
  | .field _ => True
  | .method decl => decl.body.Pairs rest

theorem Member.Pairs.moved {rest : List Char} {f : Position → Position} (h : m.Pairs rest) :
    (m.moved f).Pairs rest := by
  cases m <;> exact h

/-- Behind its first word a member is gone over, if its braces pair. -/
theorem resumes_member (rule : IsMember m (word w p :: ps)) (whole : c.torn = false) (reads : Reads c ps d)
    (pairs : m.Pairs d.rest) (boundary : d.next.1.token.IsBoundary) : Resumes c d := by
  cases rule with
  | field rule => exact resumes_field rule whole reads
  | method rule => exact resumes_function rule whole reads pairs boundary

/-- Around a broken member the others are found. -/
theorem members_around {x y z : Cursor} {r : Position} {ms' : List Member} (first : AreFirst ms ps)
    (whole : x.torn = false) (reads : Reads x ps y) (breaks : y.Breaks r e) (shorter : e.rest.length < y.rest.length)
    (resumes : Resumes e z) (others : AreMembers ms' qs) (whole' : z.torn = false) (reads' : Reads z qs d)
    (n : Nat) (enough : x.rest.length < n) :
    ∃ cause faults, (∀ fault ∈ faults, fault.Between e z) ∧
      members n x = ⟨ms ++ ms', ⟨cause, r⟩ :: faults, true, d⟩ := by
  obtain ⟨n, enough, front⟩ := members_front first whole reads n enough
  obtain ⟨n, rfl⟩ : ∃ k, n = k + 1 := Nat.exists_eq_add_one.mpr (by omega)
  obtain ⟨cause, broken⟩ := members_broken breaks
  obtain ⟨faults, k, enough, between, on⟩ :=
    resumes.run n (Parse.fuelOf e) (by omega) (by rw [Parse.fuelOf]; omega)
  have length := reads'.length_le
  refine ⟨cause, faults, between, ?_⟩
  rw [front, broken, on, members_of_areMembers k others whole' reads' (by omega)]
  simp [Members.behind]

/-- A member that fails in front of a semicolon is left out, and nothing else. -/
theorem members_past {x y z : Cursor} {fault : Fault} {ms' : List Member} (first : AreFirst ms ps)
    (whole : x.torn = false) (reads : Reads x ps y) (starts : y.next.1.token = .ident w)
    (fails : Parse.Fails (member (.ident w)) y fault d) (further : d.rest.length ≤ y.rest.length)
    (whole' : d.torn = false) (semi : d.Takes ⟨.semi, p⟩ z) (others : AreMembers ms' qs) (reads' : Reads z qs e)
    (n : Nat) (enough : x.rest.length < n) : members n x = ⟨ms ++ ms', [fault], true, e⟩ := by
  obtain ⟨n, enough, front⟩ := members_front first whole reads n enough
  obtain ⟨n, rfl⟩ : ∃ k, n = k + 1 := Nat.exists_eq_add_one.mpr (by omega)
  have next := semi.next whole'
  have shorter := semi.shorter
  have length := reads'.length_le
  have on : recoverMember (Parse.fuelOf d) 0 d = z := by
    rw [Parse.fuelOf, recoverMember_semi (by rw [next]), next]
  rw [front, members_fails starts fails, on, members_of_areMembers n others semi.whole reads' (by omega)]
  simp [Members.behind]

theorem IsHead.ne_nil {t : TypeDecl} (h : IsHead t ps) : ps ≠ [] := by
  obtain ⟨-, -⟩ := h
  exact List.append_ne_nil_of_right_ne_nil _ (List.cons_ne_nil _ _)

/-- A module is read with the faults of one type, if all else in it is whole. -/
theorem parse_of_members {source : String} {t : TypeDecl} {is js : List Item} {faults : List Fault}
    {x₁ x₂ d' : Cursor} (before : (Cursor.ofString source).Spells (AreItems is) x₁)
    (head : x₁.Spells (IsHead t) x₂) (found : members (Parse.fuelOf x₂) x₂ = ⟨ms, faults, true, d⟩)
    (further : d.rest.length ≤ x₂.rest.length) (whole : d.torn = false) (behind : d.Spells (AreItems js) d')
    (final : Final d'.rest) : parse source = (Tree.ofItems (is ++ .type (t.withMembers ms) :: js), faults) := by
  obtain ⟨ps₀, before, reads₀⟩ := before
  obtain ⟨ps₁, head, reads₁⟩ := head
  obtain ⟨ps₄, behind, reads₄⟩ := behind
  have whole₁ := reads₀.whole rfl
  have type := typeItem_of_members head whole₁ reads₁ found
  obtain ⟨w, starts, same⟩ := item_of_isHead head whole₁ reads₁
  -- What fuel the items in front leave is enough for those behind, which begin further on.
  have enough : (Cursor.ofString source).rest.length < source.length + 1 :=
    Nat.lt_succ_of_le (Nat.le_of_eq String.length_toList)
  obtain ⟨n, enough, front⟩ := itemsFrom_front before rfl reads₀ _ enough
  obtain ⟨n, rfl⟩ : ∃ k, n = k + 1 := Nat.exists_eq_add_one.mpr (by omega)
  have some' := List.length_pos_iff.mpr head.ne_nil
  have length₁ := reads₁.length_le
  have last := itemsFrom_of_areItems n behind whole reads₄ final (by omega)
  unfold parse
  rw [front, itemsFrom_more starts (same.trans type), last]
  simp

/-- Around a broken member everything is read that a module without it consists of. -/
theorem parse_around {source : String} {t : TypeDecl} {is js : List Item} {ms' : List Member} {r : Position}
    {x₁ x₂ y z d' : Cursor} (before : (Cursor.ofString source).Spells (AreItems is) x₁)
    (head : x₁.Spells (IsHead t) x₂) (first : x₂.Spells (AreFirst ms) y) (breaks : y.Breaks r e)
    (shorter : e.rest.length < y.rest.length) (resumes : Resumes e z) (further : z.rest.length ≤ e.rest.length)
    (whole : z.torn = false) (others : z.Spells (AreMembers ms') d) (behind : d.Spells (AreItems js) d')
    (final : Final d'.rest) :
    ∃ cause faults, (∀ fault ∈ faults, fault.Between e z) ∧
      parse source = (Tree.ofItems (is ++ .type (t.withMembers (ms ++ ms')) :: js), ⟨cause, r⟩ :: faults) := by
  obtain ⟨ps₂, first, reads₂⟩ := first
  obtain ⟨ps₃, others, reads₃⟩ := others
  have whole₂ := head.whole (before.whole rfl)
  obtain ⟨cause, faults, between, found⟩ := members_around first whole₂ reads₂ breaks shorter resumes others whole
    reads₃ (Parse.fuelOf x₂) (by rw [Parse.fuelOf]; omega)
  have length₂ := reads₂.length_le
  have length₃ := reads₃.length_le
  exact ⟨cause, faults, between,
    parse_of_members before head found (by omega) (reads₃.whole whole) behind final⟩

/-! ## 4. Without a semicolon -/

namespace Site

variable {source : String} (s : Site source)

/-- In front of the field the text reads as it did, whatever stands behind, if it begins like the field. -/
theorem spells_front {us rest : List Char} (split : s.atField.rest = us ++ rest) (fixed : Fixed us)
    (rest' : List Char) :
    ∃ cs x₁ x₂, source.toList = cs ++ s.atField.rest ∧ s.atField.position = Position.start.after cs ∧
      (Cursor.mk (cs ++ (us ++ rest')) .start false).Spells (AreItems s.before) x₁ ∧ x₁.Spells (IsHead s.head) x₂ ∧
      x₂.Spells (AreFirst s.first) ⟨us ++ rest', s.atField.position, false⟩ := by
  obtain ⟨ps₀, before, reads₀⟩ := s.spellsBefore
  obtain ⟨ps₁, head, reads₁⟩ := s.spellsHead
  obtain ⟨ps₂, first, reads₂⟩ := s.spellsFirst
  have reads := reads₀.append (reads₁.append reads₂)
  obtain ⟨cs, cut, -, again⟩ := reads.fixed fun l last => fixed rest' (split ▸ reads.ends last)
  obtain ⟨cs', cut', there⟩ := reads.remains
  obtain rfl := List.append_cancel_right (cut.symm.trans cut')
  obtain ⟨x₁, again₀, again⟩ := again.split
  obtain ⟨x₂, again₁, again₂⟩ := again.split
  exact ⟨cs, x₁, x₂, cut, there, ⟨_, before, again₀⟩, ⟨_, head, again₁⟩, ⟨_, first, again₂⟩⟩

/-- Without the semicolon of the field the module loses the field and the member behind it.  All else is read as before,
    from the places that it has moved to, and every fault stands in the text of these two members. -/
theorem recovery_is_local (pairs : s.next.Pairs s.atOthers.rest) :
    parse source = (Tree.ofItems s.items, []) ∧
      ∃ front, source.toList = front ++ ';' :: s.atNext.rest ∧
        let moved := (Position.start.after front).without
        ∃ faults, parse (String.ofList (front ++ s.atNext.rest)) =
            (Tree.ofItems (s.before ++ .type (s.head.withMembers (s.first ++ s.others.map (·.moved moved))) ::
              s.behind.map (·.moved moved)), faults) ∧
          faults ≠ [] ∧
          ∀ fault ∈ faults, ¬fault.position.Before s.atField.position ∧
            fault.position.Before (moved s.atOthers.position) := by
  refine ⟨parse_of_sentence s.sentence, ?_⟩
  obtain ⟨ps₃, field, reads₃⟩ := s.spellsField
  obtain ⟨ps₄, next, reads₄⟩ := s.spellsNext
  obtain ⟨ps₅, others, reads₅⟩ := s.spellsOthers
  obtain ⟨ps₆, behind, reads₆⟩ := s.spellsBehind
  obtain ⟨w, p, ps₄, rfl, hw⟩ := next.starts
  obtain ⟨e, start, reads₄⟩ := reads₄.cons_inv
  obtain ⟨us, split, place, fixed, r, breaks, low, high⟩ := breaks_without_semicolon field reads₃ hw start
  obtain ⟨cs, x₁, x₂, cut, there, before, head, first⟩ := s.spells_front split fixed s.atNext.rest
  refine ⟨cs ++ us, by rw [List.append_assoc, ← split]; exact cut, ?_⟩
  rw [Position.after_append, ← there, List.append_assoc]
  generalize s.atField.position.after us = q at *
  -- Behind the semicolon all that is read has moved.
  have moves : Moves q.without s.atNext.position := place ▸ moves_without q (by decide)
  have moves₄ := moves.remains start.remains
  have moves₅ := moves₄.remains reads₄.remains
  have moved₄ := reads₄.moved moves₄
  have moved₅ := reads₅.moved moves₅
  have moved₆ := reads₆.moved (moves₅.remains reads₅.remains)
  have whole₄ : (e.moved q.without).torn = false := start.whole
  have whole := moved₄.whole whole₄
  have resumes := resumes_member next.moved whole₄ moved₄ pairs.moved (others.moved.boundary whole moved₅)
  have before : (Cursor.ofString (String.ofList (cs ++ (us ++ s.atNext.rest)))).Spells (AreItems s.before) x₁ := by
    rw [Cursor.ofString, String.toList_ofList]
    exact before
  have shorter : e.rest.length < (us ++ s.atNext.rest).length := by
    have := start.shorter
    rw [List.length_append]
    omega
  obtain ⟨cause, faults, between, read⟩ := parse_around before head first breaks shorter resumes
    (by have := moved₄.length_le; omega) whole ⟨_, others.moved, moved₅⟩ ⟨_, behind.moved, moved₆⟩ s.final
  refine ⟨_, read, List.cons_ne_nil _ _, List.forall_mem_cons.mpr ⟨?_, fun fault hf => ?_⟩⟩
  · exact ⟨low, high.trans_not resumes.further⟩
  · obtain ⟨low', high'⟩ := between fault hf
    exact ⟨fun front => low' ((front.trans_not low).trans high), high'⟩

end Site

/-- A lamp in front of a door. -/
def lampAndDoor : String :=
  "type Lamp \x7b pub lit: bool; fn stop() \x7b lit \x7b \x7d \x7d \x7d type Door \x7b \x7d"

/-- The cursor behind so many characters. -/
def lampAndDoorAt (k : Nat) : Cursor := ⟨lampAndDoor.toList.drop k, ⟨1, k + 1⟩, false⟩

/-- The field of the lamp, with a method behind it. -/
def lampSite : Site lampAndDoor where
  before := []
  head := ⟨"Lamp", none, false, [], [], ⟨1, 6⟩⟩
  first := []
  field := ⟨"lit", .bool, true, none, ⟨1, 17⟩⟩
  next := .method ⟨"stop", [], ⟨" lit \x7b \x7d ", ⟨1, 39⟩, []⟩, ⟨1, 31⟩⟩
  others := []
  behind := [.type ⟨"Door", none, false, [], [], ⟨1, 57⟩⟩]
  atType := lampAndDoorAt 0
  atFirst := lampAndDoorAt 11
  atField := lampAndDoorAt 11
  atNext := lampAndDoorAt 26
  atOthers := lampAndDoorAt 48
  atBehind := lampAndDoorAt 50
  atEnd := lampAndDoorAt 64
  spellsBefore := ⟨[], .none, .nil⟩
  spellsHead := spells_of_follows (follows_typeHead rfl) rfl
  spellsFirst := ⟨[], .none, .nil⟩
  spellsField := spells_of_follows (Parse.follows_field rfl rfl (.inl rfl)) rfl
  spellsNext := spells_of_follows (follows_member rfl) rfl
  spellsOthers := ⟨_, .close, .single ((Cursor.takes_iff rfl).mpr ⟨rfl, rfl⟩)⟩
  spellsBehind := by
    obtain ⟨i, ps, found, -, rule, reads⟩ := follows_item (.ident "type") (c := lampAndDoorAt 50) rfl rfl
    obtain rfl := Option.some.inj found
    exact ⟨_, .more rule .none, reads.append .nil⟩
  final := .inl (.gap .none)

theorem lampSite_pairs : lampSite.next.Pairs lampSite.atOthers.rest := fun _ =>
  .passes (Token.isIdle_of_isNeutral rfl 1) (.opens rfl (.closes rfl (.closes rfl .stay)))

/-- Without the semicolon of the lamp its field and its method are lost, and the door is read one column further
    left. -/
theorem door_read_behind_lamp : lampSite.next.Pairs lampSite.atOthers.rest ∧
    ∃ faults, parse (String.ofList (lampAndDoor.toList.eraseIdx 25)) =
        (⟨[], [], [⟨"Lamp", none, false, [], [], ⟨1, 6⟩⟩, ⟨"Door", none, false, [], [], ⟨1, 56⟩⟩]⟩, faults) ∧
      faults ≠ [] ∧ ∀ fault ∈ faults, ¬fault.position.Before ⟨1, 12⟩ ∧ fault.position.Before ⟨1, 48⟩ := by
  refine ⟨lampSite_pairs, ?_⟩
  obtain ⟨-, front, split, faults, read, found, between⟩ := Site.recovery_is_local lampSite lampSite_pairs
  obtain rfl : front = lampAndDoor.toList.take 25 :=
    List.append_cancel_right (split.symm.trans (rfl : _ = lampAndDoor.toList.take 25 ++ _))
  exact ⟨faults, read, found, between⟩

/-- In front of the brace that closes its type a field takes this brace with it, and with it the types behind. -/
theorem closing_brace_skipped :
    let front := "type A : Behaviour \x7b pub x: int = 1"
    let behind := " \x7d\ntype B : Behaviour \x7b fn update(ctx, dt) \x7b \x7d \x7d\n"
    (parse (front ++ ";" ++ behind)).1.types.map (·.name) = ["A", "B"] ∧ (parse (front ++ ";" ++ behind)).2 = [] ∧
      (parse (front ++ behind)).1.types = [] ∧ (parse (front ++ behind)).2.map (·.position) = [⟨1, 37⟩, ⟨3, 1⟩] := by
  decide +kernel

-- Nor are types behind it found where recovery takes a character of the next method for a brace.
example : (parse "type A : Behaviour \x7b pub x: int = 1 fn f() \x7b '\x7b' \x7d \x7d type B : Behaviour \x7b \x7d").1.types =
    [] := by
  decide +kernel

end ScriptHost.Declaration
