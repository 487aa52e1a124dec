import Mathlib.Algebra.Group.Int.Defs
import ScriptHost.Proofs.Declaration.Locality
import ScriptHost.Proofs.Json.Numeral

/-!
# Integer — the whole numbers that a field can start with

The lexer bounds the digits of an integer, and the parser puts the minus in front of what is bounded.  So an integer
is read where both it and its negation fit into 64 bits with a sign; any other one breaks the field that it stands in,
and only this field.  All other declarations are read as before, from the places that they have moved to.
-/

namespace ScriptHost.Declaration

open Decimal (natOfDigits)
open Text (Position)
open Parse (Fails Gives)

/-! ## 1. Integers as they are written -/

/-- An integer as it is written: nothing or a minus with a gap behind it, and digits with underscores among them. -/
inductive Written : Int → (sign digits : List Char) → Prop
  | plain {ws} : IsRun ws → Written (natOfDigits (digitsOf ws)) [] ws
  | negative {gap ws} : Gap gap → IsRun ws → Written (-natOfDigits (digitsOf ws)) ('-' :: gap) ws

theorem digitsOf_toDigits (k : Nat) : digitsOf (Nat.toDigits 10 k) = Nat.toDigits 10 k := by
  refine List.filter_eq_self.mpr fun c hc => bne_iff_ne.mpr ?_
  rintro rfl
  exact absurd (Json.Numeral.isDigit_of_mem_digits hc) (by decide)

theorem isRun_toDigits (k : Nat) : IsRun (Nat.toDigits 10 k) := by
  refine ⟨?_, fun c hc => by rw [isDigitPart, Json.Numeral.isDigit_of_mem_digits hc, Bool.true_or]⟩
  obtain ⟨d, ds, split⟩ := List.exists_cons_of_ne_nil (Nat.toDigits_ne_nil (n := k) (b := 10))
  rw [split]
  exact Json.Numeral.isDigit_of_mem_digits (split ▸ List.mem_cons_self)

theorem natOfDigits_digitsOf_toDigits (k : Nat) : natOfDigits (digitsOf (Nat.toDigits 10 k)) = k := by
  rw [digitsOf_toDigits, Json.Numeral.natOfDigits_toDigits]

/-- Every integer is written with its decimal digits. -/
theorem written_toDigits (n : Int) : Written n (if n < 0 then ['-'] else []) (Nat.toDigits 10 n.natAbs) := by
  split
  · have written := Written.negative .none (isRun_toDigits n.natAbs)
    rw [natOfDigits_digitsOf_toDigits] at written
    rwa [show -(n.natAbs : Int) = n by omega] at written
  · have written := Written.plain (isRun_toDigits n.natAbs)
    rw [natOfDigits_digitsOf_toDigits] at written
    rwa [show (n.natAbs : Int) = n by omega] at written

theorem numeral_toDigits {k : Nat} (small : k < 1 <<< 63) : Numeral (Nat.toDigits 10 k) (.int k) := by
  have numeral := Numeral.int (isRun_toDigits k)
  rw [natOfDigits_digitsOf_toDigits] at numeral
  exact numeral small

variable {c d e : Cursor} {p q : Position} {l : Lexeme} {ps qs : List Piece} {n : Int} {gs sign ws rest : List Char}

/-- The next token has the digits that are not too many. -/
theorem takes_digits (run : IsRun ws) (small : natOfDigits (digitsOf ws) < 1 <<< 63) (isGap : Gap gs)
    (ends : EndsInt rest) (p : Position) :
    (Cursor.mk (gs ++ (ws ++ rest)) p false).Takes ⟨.int (natOfDigits (digitsOf ws)), p.after gs⟩
      ⟨rest, (p.after gs).after ws, false⟩ :=
  ⟨gs, ws, isGap, .number (.int run small), ends, rfl, rfl, rfl, rfl⟩

/-- Too many digits are passed all the same, with a complaint. -/
theorem next_tooLarge (run : IsRun ws) (large : ¬ natOfDigits (digitsOf ws) < 1 <<< 63) (isGap : Gap gs)
    (ends : EndsInt rest) (p : Position) :
    (Cursor.mk (gs ++ (ws ++ rest)) p false).next =
      (⟨tooLarge ws, p.after gs⟩, ⟨rest, (p.after gs).after ws, false⟩) := by
  have starts := run.starts
  obtain ⟨w, us, rfl⟩ := List.exists_cons_of_ne_nil run.ne_nil
  have digit : w.isDigit = true := starts
  have part := isWordPart_of_isDigit digit
  -- All digits are taken, however many there are; only then are they found to be too many.
  have span : spanNumber false (w :: (us ++ rest)) = (w :: us, rest) := by
    rw [← List.cons_append, spanNumber_parts run.parts, spanNumber_int ends, List.append_nil]
  rw [Cursor.next_gap isGap, List.cons_append, Cursor.next_bare _ ((begins_of_isWordPart part).isBare _),
    ofSign?_of_isWordPart part, span]
  dsimp only
  rw [digit, if_pos rfl, numberToken_tooLarge run.parts large]

/-- The token of an integer is written with a run of digits, and has not too many of them. -/
theorem Spelled.of_int {k : Nat} (h : Spelled (.int k) ws) :
    IsRun ws ∧ natOfDigits (digitsOf ws) = k ∧ k < 1 <<< 63 := by
  cases h with
  | sign sign =>
    unfold Token.ofSign? at sign
    split at sign <;> exact nomatch sign
  | number numeral =>
    cases numeral with
    | int run small => exact ⟨run, rfl, small⟩

/-- No integer that the lexer hands out is too large, wherever it stands. -/
theorem Cursor.next_int {k : Nat} (h : c.next.1.token = .int k) : k < 1 <<< 63 := by
  cases torn : c.torn with
  | false =>
    have sound : c.next.1.token.isSound = true := by rw [h]; rfl
    have takes : c.Takes c.next.1 c.next.2 := Cursor.takes_of_next torn rfl sound
    obtain ⟨_, ws, -, spelled, -⟩ := takes
    rw [h] at spelled
    exact spelled.of_int.2.2
  | true =>
    -- What is left of a character that has been torn is no integer.
    unfold Cursor.next Cursor.skipBlank at h
    rw [torn, if_pos rfl] at h
    dsimp only at h
    split at h
    · exact nomatch h
    · rw [torn, if_pos rfl] at h
      exact nomatch h

/-- So its negation fits into 64 bits as well. -/
theorem Cursor.neg_next_int {k : Nat} (h : c.next.1.token = .int k) : (-Int64.ofNat k).toInt = -(k : Int) := by
  have small : k < 2 ^ 63 := Cursor.next_int h
  rw [Int64.toInt_neg, Int64.toInt_ofNat_of_lt small, Int.bmod]
  omega

/-! ## 2. Reading them -/

/-- A negative integer keeps its sign apart from its digits. -/
theorem takes_minus (isGap : Gap gs) (rest : List Char) (p : Position) :
    (Cursor.mk (gs ++ '-' :: rest) p false).Takes ⟨.minus, p.after gs⟩ ⟨rest, (p.after gs).step '-', false⟩ :=
  ⟨gs, ['-'], isGap, .sign rfl, trivial, rfl, rfl, rfl, rfl⟩

/-- An integer that fits is read as a literal, whatever stands behind it that no number goes on with. -/
theorem Written.reads (h : Written n sign ws) (fits : -2 ^ 63 < n ∧ n < 2 ^ 63) (isGap : Gap gs) (ends : EndsInt rest)
    (p : Position) : ∃ ps, Derives (.literal (.int n)) ps ∧
      Reads ⟨gs ++ (sign ++ (ws ++ rest)), p, false⟩ ps ⟨rest, p.after (gs ++ (sign ++ ws)), false⟩ := by
  rw [Position.after_append, Position.after_append]
  cases h with
  | plain run =>
    have small : natOfDigits (digitsOf ws) < 1 <<< 63 := by
      show _ < 2 ^ 63
      omega
    exact ⟨_, .int, .single (takes_digits run small isGap ends p)⟩
  | negative isGap' run =>
    have small : natOfDigits (digitsOf ws) < 1 <<< 63 := by
      show _ < 2 ^ 63
      omega
    exact ⟨_, .negativeInt, .token (takes_minus isGap _ p) (.single (takes_digits run small isGap' ends _))⟩

theorem Parse.gives_of_next (h : c.next = (l, d)) : Gives Parse.next c l d := by
  show (Except.ok c.next.1, c.next.2) = _
  rw [h]

/-- What a message says is missing where the digits stand. -/
def wanted (sign : List Char) : String := if sign.isEmpty then "a literal default value" else "a number after `-`"

/-- Any other integer is passed without being one. -/
theorem Written.fails (h : Written n sign ws) (unfit : ¬ (-2 ^ 63 < n ∧ n < 2 ^ 63)) (isGap : Gap gs)
    (ends : EndsInt rest) (p : Position) (k : Nat) :
    Fails (Parse.literal (k + 1)) ⟨gs ++ (sign ++ (ws ++ rest)), p, false⟩
      ⟨.expected (wanted sign) (tooLarge ws), p.after (gs ++ sign)⟩ ⟨rest, p.after (gs ++ (sign ++ ws)), false⟩ := by
  rw [Position.after_append, Position.after_append, Position.after_append]
  unfold Parse.literal
  cases h with
  | plain run =>
    have large : ¬ natOfDigits (digitsOf ws) < 1 <<< 63 := by
      show ¬ _ < 2 ^ 63
      omega
    refine (Parse.gives_of_next (next_tooLarge run large isGap ends p)).fails ?_
    rfl
  | negative isGap' run =>
    have large : ¬ natOfDigits (digitsOf ws) < 1 <<< 63 := by
      show ¬ _ < 2 ^ 63
      omega
    refine (Parse.gives_next rfl (takes_minus isGap _ p)).fails ?_
    refine (Parse.gives_of_next (next_tooLarge run large isGap' ends _)).fails ?_
    rfl

/-- An integer of a module that is read is written so. -/
theorem exists_written (h : Derives (.literal (.int n)) ps) (reads : Reads c ps d) : ∃ gs sign ws, Gap gs ∧
    Written n sign ws ∧ c.rest = gs ++ (sign ++ (ws ++ d.rest)) ∧ d.position = c.position.after (gs ++ (sign ++ ws)) ∧
      EndsInt d.rest := by
  cases h with
  | int =>
    obtain ⟨gs, ws, isGap, spelled, ends, split, place, behind, -⟩ := reads.single_inv
    obtain ⟨run, rfl, -⟩ := spelled.of_int
    exact ⟨gs, [], ws, isGap, .plain run, split, by rw [behind, place, Position.after_append]; rfl, ends⟩
  | negativeInt =>
    obtain ⟨e, minus, digits⟩ := reads.cons_inv
    obtain ⟨gs, sign, isGap, spelled, -, split, place, behind, -⟩ := minus
    obtain rfl := spelled.of_sign (x := '-') rfl
    obtain ⟨gs', ws, isGap', spelled', ends, split', place', behind', -⟩ := digits.single_inv
    obtain ⟨run, rfl, -⟩ := spelled'.of_int
    refine ⟨gs, '-' :: gs', ws, isGap, .negative isGap' run, ?_, ?_, ends⟩
    · rw [split, split']
      simp
    · rw [behind', place', behind, place]
      simp

/-! ## 3. A field up to its value -/

variable {f : FieldDecl} {v : Literal}

/-- `pub name: kind =` or the same with `let`. -/
inductive IsFieldHead : FieldDecl → List Piece → Prop
  | mk {keyword name w kind default p q r s u} : keyword = "pub" ∨ keyword = "let" →
      Field.Kind.ofKeyword? w = some kind → IsFieldHead ⟨name, kind, keyword == "pub", default, q⟩
        [word keyword p, word name q, tok .colon r, word w s, tok .eq u]

theorem IsField.exists_head (h : IsField f ps) (written : f.default = some v) :
    ∃ hs vs q, ps = hs ++ (vs ++ [tok .semi q]) ∧ IsFieldHead f hs ∧ Derives (.literal v) vs := by
  obtain ⟨isKeyword, known, isDefault⟩ := h
  change _ = some v at written
  subst written
  cases isDefault with
  | some rule => exact ⟨_, _, _, rfl, .mk isKeyword known, rule⟩

theorem IsFieldHead.field {hs vs : List Piece} (h : IsFieldHead f hs) (rule : Derives (.literal v) vs) (q : Position) :
    IsField { f with default := some v } (hs ++ (vs ++ [tok .semi q])) := by
  obtain ⟨isKeyword, known⟩ := h
  exact .mk isKeyword known (.some rule)

/-- A value that is no literal is the fault of its field. -/
theorem IsFieldHead.fails {hs : List Piece} {fault : Fault} (h : IsFieldHead f hs) (whole : c.torn = false)
    (reads : Reads c hs d) (fails : ∀ k, Fails (Parse.literal (k + 1)) d fault e) :
    ∃ w, c.next.1.token = .ident w ∧ Fails (member (.ident w)) c fault e := by
  obtain ⟨isKeyword, known⟩ := h
  refine ⟨_, reads.starts whole, fails_member isKeyword ?_⟩
  obtain ⟨c₁, first, reads⟩ := reads.cons_inv
  obtain ⟨c₂, named, reads⟩ := reads.cons_inv
  obtain ⟨c₃, colon, reads⟩ := reads.cons_inv
  obtain ⟨c₄, kinded, equals⟩ := reads.cons_inv
  have equals := equals.single_inv
  refine (Parse.gives_expectIdent whole first).fails ((Parse.gives_expectIdent first.whole named).fails ?_)
  refine (Parse.gives_expect named.whole colon).discard.fails ((Parse.gives_expectIdent colon.whole kinded).fails ?_)
  dsimp only
  rw [known]
  exact (Parse.gives_accept kinded.whole equals).fails (Parse.gives_get.fails (fails _).bind)

/-! ## 4. Where an integer stands -/

/-- The place of an integer that a field starts with, in a module without a fault: the text around it, and what is
    declared there besides the field. -/
structure Slot (f : FieldDecl) where
  front : List Char
  rest : List Char
  before : List Item
  head : TypeDecl
  first : List Member
  others : List Member
  behind : List Item
  /-- Where the rest stood. -/
  place : Position
  /-- In front of the integer the text is read so, whatever comes there. -/
  opens : ∀ tail, ∃ x₁ x₂ x₃ hs gap p, (Cursor.mk (front ++ tail) .start false).Spells (AreItems before) x₁ ∧
    x₁.Spells (IsHead head) x₂ ∧ x₂.Spells (AreFirst first) x₃ ∧ IsFieldHead f hs ∧
      Reads x₃ hs ⟨gap ++ tail, p, false⟩ ∧ Gap gap ∧ p.after gap = Position.start.after front
  ends : EndsInt rest
  /-- Behind it the text was read so. -/
  closes : ∃ p a b l, (Cursor.mk rest place false).Takes ⟨.semi, p⟩ a ∧ a.Spells (AreMembers others) b ∧
    b.Spells (AreItems behind) l ∧ Final l.rest

namespace Slot

variable (s : Slot f)

/-- The text with an integer in its place. -/
def text (sign ws : List Char) : String := String.ofList (s.front ++ (sign ++ (ws ++ s.rest)))

/-- Where what stands behind the integer has moved to. -/
def moved (sign ws : List Char) : Position → Position :=
  s.place.shift (Position.start.after (s.front ++ (sign ++ ws)))

/-- The type of the field, with these members behind the first ones. -/
def type (ms : List Member) : TypeDecl := s.head.withMembers (s.first ++ ms)

/-- The module with these members behind the first ones of the type, and these items behind the type. -/
def tree (ms : List Member) (items : List Item) : Tree := .ofItems (s.before ++ .type (s.type ms) :: items)

theorem type_mem_tree (ms : List Member) (items : List Item) : s.type ms ∈ (s.tree ms items).types :=
  List.mem_filterMap.mpr ⟨_, List.mem_append_right _ List.mem_cons_self, rfl⟩

theorem field_mem_type (f : FieldDecl) (ms : List Member) : f ∈ (s.type (.field f :: ms)).fields :=
  List.mem_filterMap.mpr ⟨_, List.mem_append_right _ List.mem_cons_self, rfl⟩

/-- From wherever it begins the rest is read as it was. -/
theorem closes_moved (q : Position) : ∃ p a b l, (Cursor.mk s.rest q false).Takes ⟨.semi, p⟩ a ∧
    a.Spells (AreMembers (s.others.map (·.moved (s.place.shift q)))) b ∧
      b.Spells (AreItems (s.behind.map (·.moved (s.place.shift q)))) l ∧ Final l.rest := by
  obtain ⟨p, a, b, l, semi, ⟨ps, others, reads⟩, ⟨qs, behind, reads'⟩, final⟩ := s.closes
  have moves := moves_shift s.place q
  have movesA := moves.remains semi.remains
  have semi := semi.moved moves
  rw [Cursor.moved, Position.shift_self] at semi
  exact ⟨_, _, _, _, semi, ⟨_, others.moved, reads.moved movesA⟩,
    ⟨_, behind.moved, reads'.moved (movesA.remains reads.remains)⟩, final⟩

/-- With an integer that fits the field starts with it, and all else is read as before. -/
theorem parse_fits (h : Written n sign ws) (fits : -2 ^ 63 < n ∧ n < 2 ^ 63) :
    parse (s.text sign ws) = (s.tree (.field { f with default := some (.int n) } ::
      s.others.map (·.moved (s.moved sign ws))) (s.behind.map (·.moved (s.moved sign ws))), []) := by
  obtain ⟨x₁, x₂, x₃, hs, gap, p, ⟨ps₀, before, reads₀⟩, ⟨ps₁, head, reads₁⟩, ⟨ps₂, first, reads₂⟩, field, reads₃,
    isGap, here⟩ := s.opens (sign ++ (ws ++ s.rest))
  obtain ⟨vs, rule, value⟩ := h.reads fits isGap s.ends p
  have there : p.after (gap ++ (sign ++ ws)) = Position.start.after (s.front ++ (sign ++ ws)) := by
    rw [Position.after_append, here, Position.after_append _ s.front]
  rw [there] at value
  obtain ⟨q, a, b, l, semi, ⟨ps₄, others, reads₄⟩, ⟨ps₅, behind, reads₅⟩, final⟩ :=
    s.closes_moved (Position.start.after (s.front ++ (sign ++ ws)))
  have members := first.append (.more (.field (field.field rule q)) others)
  have type := isType_iff.mpr ⟨_, _, _, _, head, members, rfl, rfl⟩
  refine parse_of_sentence ⟨_, _, l, before.append (.more (.type type) behind), ?_, final, rfl⟩
  rw [Cursor.ofString, text, String.toList_ofList]
  have field := reads₃.append (value.append (.single semi))
  exact reads₀.append ((reads₁.append (reads₂.append (field.append reads₄))).append reads₅)

/-- With any other integer the field is lost, with one fault where the digits begin; all else is read as before. -/
theorem parse_unfit (h : Written n sign ws) (unfit : ¬ (-2 ^ 63 < n ∧ n < 2 ^ 63)) :
    parse (s.text sign ws) =
      (s.tree (s.others.map (·.moved (s.moved sign ws))) (s.behind.map (·.moved (s.moved sign ws))),
        [⟨.expected (wanted sign) (tooLarge ws), Position.start.after (s.front ++ sign)⟩]) := by
  obtain ⟨x₁, x₂, x₃, hs, gap, p, before, head, ⟨ps₂, first, reads₂⟩, field, reads₃, isGap, here⟩ :=
    s.opens (sign ++ (ws ++ s.rest))
  have fails := h.fails unfit isGap s.ends p
  have there : p.after (gap ++ (sign ++ ws)) = Position.start.after (s.front ++ (sign ++ ws)) := by
    rw [Position.after_append, here, Position.after_append _ s.front]
  have digits : p.after (gap ++ sign) = Position.start.after (s.front ++ sign) := by
    rw [Position.after_append, here, Position.after_append _ s.front]
  rw [there, digits] at fails
  obtain ⟨q, a, b, l, semi, ⟨ps₄, others, reads₄⟩, behind, final⟩ :=
    s.closes_moved (Position.start.after (s.front ++ (sign ++ ws)))
  have whole₂ := head.whole (before.whole rfl)
  have whole₃ := reads₂.whole whole₂
  obtain ⟨w, starts, fails⟩ := field.fails whole₃ reads₃ fails
  have length₂ := reads₂.length_le
  have length₃ := reads₃.length_le
  simp only [List.length_append] at length₃
  -- The field is passed up to its semicolon, and the members behind it are read on from there.
  have found := members_past first whole₂ reads₂ starts fails (by dsimp only; omega) rfl semi others reads₄
    (Parse.fuelOf x₂) (by rw [Parse.fuelOf]; omega)
  have shorter := semi.shorter
  have length₄ := reads₄.length_le
  dsimp only at shorter
  have start : Cursor.ofString (s.text sign ws) = ⟨s.front ++ (sign ++ (ws ++ s.rest)), .start, false⟩ := by
    rw [Cursor.ofString, text, String.toList_ofList]
  exact parse_of_members (start ▸ before) head found (by omega) (reads₄.whole semi.whole) behind final

end Slot

/-- Every integer that a field starts with stands in such a place. -/
theorem exists_slot {source : String} {tree : Tree} {t : TypeDecl} {m : Int} (clean : parse source = (tree, []))
    (ht : t ∈ tree.types) (hf : f ∈ t.fields) (written : f.default = some (.int m)) :
    ∃ (s : Slot f) (sign ws : List Char), Written m sign ws ∧ source = s.text sign ws ∧
      t = s.type (.field f :: s.others) ∧ tree = s.tree (.field f :: s.others) s.behind := by
  obtain ⟨before, head, first, others, behind, c₁, c₂, c₃, c₄, c₅, c₆, ⟨ps₀, isBefore, reads₀⟩, ⟨ps₁, isHead, reads₁⟩,
    ⟨ps₂, isFirst, reads₂⟩, ⟨ps₃, isField, reads₃⟩, isOthers, isBehind, final, rfl, rfl⟩ := spells_around clean ht hf
  obtain ⟨hs, vs, q, rfl, field, rule⟩ := isField.exists_head written
  obtain ⟨d, reads₃, reads⟩ := reads₃.split
  obtain ⟨e, value, semi⟩ := reads.split
  obtain ⟨gap, sign, ws, isGap, isWritten, split, place, ends⟩ := exists_written rule value
  have reads := reads₀.append (reads₁.append (reads₂.append reads₃))
  obtain ⟨cs, cut, there⟩ := reads.remains
  -- What stands in front of the integer ends with a sign, behind which anything may come.
  have opens (tail : List Char) : Reads ⟨cs ++ gap ++ tail, .start, false⟩ (ps₀ ++ (ps₁ ++ (ps₂ ++ hs)))
      ⟨gap ++ tail, d.position, false⟩ := by
    rw [List.append_assoc]
    refine reads.other cut fun l last => ?_
    obtain ⟨-, -⟩ := field
    obtain rfl : Lexeme.mk .eq _ = l := by simpa [tok] using last
    trivial
  refine ⟨⟨cs ++ gap, e.rest, before, head, first, others, behind, e.position, fun tail => ?_, ends, ?_⟩, sign, ws,
    isWritten, ?_, rfl, rfl⟩
  · obtain ⟨x₁, again₀, again⟩ := (opens tail).split
    obtain ⟨x₂, again₁, again⟩ := again.split
    obtain ⟨x₃, again₂, again₃⟩ := again.split
    refine ⟨x₁, x₂, x₃, hs, gap, d.position, ⟨_, isBefore, again₀⟩, ⟨_, isHead, again₁⟩, ⟨_, isFirst, again₂⟩, field,
      again₃, isGap, ?_⟩
    rw [Position.after_append, there]
    rfl
  · have start : e = ⟨e.rest, e.position, false⟩ := by
      rw [← value.whole (reads.whole rfl)]
    exact ⟨q, c₄, c₅, c₆, start ▸ semi.single_inv, isOthers, isBehind, final⟩
  · have cut : source.toList = cs ++ d.rest := cut
    rw [Slot.text, List.append_assoc, ← split, ← cut, String.ofList_toList]

end ScriptHost.Declaration
