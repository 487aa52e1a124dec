import ScriptHost.Proofs.Declaration.Parser
import ScriptHost.Proofs.Text.Places

/-!
# Stretches — what is read covers the text

The lexer is called for a token or for a body, one call behind the other.  Every call reads a stretch of bytes that
begins where the one before ended, a gap and then the bytes of what it gives, and tells the place of the first of
these.  A cursor may stand inside of a character, behind its first byte; then the bytes that are left of the character
are read by themselves.
-/

namespace ScriptHost.Declaration

open Text (Position Encoded begins encode encode_append encode_cons encode_nil encode_toList exists_encoded
  utf8Size_eq_one_iff_lt)

/-! ## 1. Calls -/

/-- A call of the lexer: for the next token, or for the body whose opening brace has been passed. -/
inductive Call where
  | token
  | body

/-- What a call gives; a body that no brace closes is complained of. -/
inductive Reading where
  | token (l : Lexeme)
  | body (b : Body)
  | unclosed (p : Position)

/-- The place that a reading tells. -/
def Reading.position : Reading → Position
  | .token l => l.position
  | .body b => b.position
  | .unclosed p => p

/-- The module paths that a reading tells. -/
def Reading.refs : Reading → List ModuleRef
  | .body b => b.refs
  | .token _ | .unclosed _ => []

def Cursor.call (c : Cursor) : Call → Reading × Cursor
  | .token => (.token c.next.1, c.next.2)
  | .body =>
    match c.capture? with
    | some (b, after) => (.body b, after)
    | none => (.unclosed c.position, c.finish)

/-- What the calls give one behind the other, and the cursor behind the last. -/
def Cursor.calls (c : Cursor) : List Call → List Reading × Cursor
  | [] => ([], c)
  | call :: calls =>
    let (reading, after) := c.call call
    let (readings, last) := after.calls calls
    (reading :: readings, last)

/-- The bytes that are left.  Of a torn character the first is passed. -/
def Cursor.left (c : Cursor) : List UInt8 := if c.torn then (encode c.rest).tail else encode c.rest

/-! ## 2. Stretches -/

/-- A character that can be in a number. -/
def inNumber (c : Char) : Bool := c.isDigit || c == '_' || c == '.' || c == 'e' || c == 'E' || c == '+' || c == '-'

/-- The complaint about an escape that names no character. -/
def unknownEscape (c : Char) : Token := .invalid ("unknown escape `\\" ++ String.singleton (leadByte c) ++ "`")

/-- Bytes that form no token, and the complaint about them. -/
inductive Broken : Token → List UInt8 → (left : List UInt8) → Prop
  | character {x left} : Token.ofSign? x = none → x.isDigit = false → x ≠ '"' → isWordStart x = false →
      Broken (unexpected x) (encode [x]) left
  /-- What is left of a torn character. -/
  | remnant {more left} : more ≠ [] → (∀ b ∈ more, begins b = false) → Broken (unexpected '\uFFFD') more left
  | number {x xs left} : x.isDigit = true → (∀ c ∈ xs, inNumber c = true) → (numberToken (x :: xs)).isSound = false →
      Broken (numberToken (x :: xs)) (encode (x :: xs)) left
  | line {us vs left} : Quoted us vs → Broken unterminated (encode ('"' :: (us ++ ['\n']))) left
  | ended {us vs} : Quoted us vs → Broken unterminated (encode ('"' :: us)) []
  | backslash {us vs} : Quoted us vs → Broken unterminated (encode ('"' :: (us ++ ['\\']))) []
  /-- Of the character behind the backslash only the first byte is read. -/
  | escape {us vs c first more left} : Quoted us vs → escape? c = none → Encoded c first more →
      Broken (unknownEscape c) (encode ('"' :: (us ++ ['\\'])) ++ [first]) left

/-- The bytes of a reading, and those that are skipped in front of them. -/
structure Stretch where
  gap : List UInt8
  own : List UInt8

def Stretch.bytes (s : Stretch) : List UInt8 := s.gap ++ s.own

/-- How a reading is written: behind blanks and comments a token, the end or what is no token; a body with its closing
    brace, behind what was left of a torn character; or all that is left, when no brace closes it. -/
inductive Reading.Written : Reading → Stretch → (left : List UInt8) → Prop
  | token {gap word t p left} : Gap gap → Spelled t word → Written (.token ⟨t, p⟩) ⟨encode gap, encode word⟩ left
  | last {gap p} : Final gap → Written (.token ⟨.eof, p⟩) ⟨encode gap, []⟩ []
  | broken {gap own t p left} : Gap gap → Broken t own left → Written (.token ⟨t, p⟩) ⟨encode gap, own⟩ left
  | body {more text p refs left} : (∀ b ∈ more, begins b = false) →
      Written (.body ⟨String.ofList (List.replicate more.length '\uFFFD' ++ text), p, refs⟩)
        ⟨[], more ++ encode text ++ encode ['\x7d']⟩ left
  | unclosed {own p} : Written (.unclosed p) ⟨[], own⟩ []

/-- A reading is that of a stretch behind the bytes `passed`: it tells the place of the first byte of its own, and
    every module path that of the first byte of its name. -/
structure Reading.Covers (passed : List UInt8) (r : Reading) (s : Stretch) (left : List UInt8) : Prop where
  written : r.Written s left
  place : r.position = .behindBytes (passed ++ s.gap)
  refs : ∀ m ∈ r.refs, ∃ before behind, s.own = before ++ utf8 m.name ++ encode [':', ':'] ++ behind ∧
    m.position = .behindBytes (passed ++ s.gap ++ before)

/-- Readings one behind the other, each of a stretch that begins where the one before ends. -/
inductive Cover : (passed : List UInt8) → List Reading → List Stretch → (left : List UInt8) → Prop
  | nil {passed left} : Cover passed [] [] left
  | cons {passed r s rs ss left} : r.Covers passed s (ss.flatMap Stretch.bytes ++ left) →
      Cover (passed ++ s.bytes) rs ss left → Cover passed (r :: rs) (s :: ss) left

variable {source passed : List UInt8} {c after : Cursor} {x : Char} {cs us xs : List Char} {p : Position}

/-! ## 3. Where a cursor stands -/

/-- The cursor stands behind the bytes `passed`, and tells the place there. -/
structure Cursor.Stands (source passed : List UInt8) (c : Cursor) : Prop where
  split : source = passed ++ c.left
  place : c.position = .behindBytes passed
  torn : c.torn = true → ∃ x xs, c.rest = x :: xs ∧ x.utf8Size ≠ 1

namespace Cursor

theorem left_of_whole (whole : c.torn = false) : c.left = encode c.rest := by
  rw [left, whole, if_neg Bool.false_ne_true]

theorem stands_ofString (s : String) : (ofString s).Stands (utf8 s) [] := by
  refine ⟨?_, rfl, fun torn => absurd torn Bool.false_ne_true⟩
  rw [left_of_whole rfl, List.nil_append]
  exact (encode_toList s).symm

/-- Behind characters the cursor stands behind their bytes. -/
theorem Stands.move (h : c.Stands source passed) (whole : c.torn = false) (split : c.rest = us ++ after.rest)
    (place : after.position = c.position.after us) (whole' : after.torn = false) :
    after.Stands source (passed ++ encode us) := by
  refine ⟨?_, ?_, fun torn => absurd (whole'.symm.trans torn) Bool.false_ne_true⟩
  · have bytes := h.split
    rw [left_of_whole whole, split, encode_append, ← List.append_assoc] at bytes
    rw [left_of_whole whole', bytes]
  · rw [place, h.place, Position.behindBytes_encode]

/-- Behind the first byte of a longer character the cursor is torn. -/
theorem Stands.tear {first : UInt8} {more : List UInt8} (h : c.Stands source passed) (whole : c.torn = false)
    (rest : c.rest = x :: xs) (coded : Encoded x first more) (long : x.utf8Size ≠ 1) :
    (Cursor.mk (x :: xs) (c.position.step x) true).Stands source (passed ++ [first]) := by
  refine ⟨?_, ?_, fun _ => ⟨x, xs, rfl, long⟩⟩
  · have left : (Cursor.mk (x :: xs) (c.position.step x) true).left = more ++ encode xs := by
      show (encode (x :: xs)).tail = _
      rw [encode_cons, coded.bytes]
      rfl
    have bytes := h.split
    rw [left_of_whole whole, rest, encode_cons, coded.bytes] at bytes
    rw [bytes, left, List.append_assoc]
    rfl
  · rw [Position.behindBytes_first coded, ← h.place]

theorem mend_whole (c : Cursor) : c.mend.torn = false := by
  unfold mend
  split
  · rfl
  · next whole => exact Bool.eq_false_iff.mpr whole

/-- What is left of a torn character are bytes that do not move the place. -/
theorem Stands.mend (h : c.Stands source passed) : ∃ more, (∀ b ∈ more, begins b = false) ∧
    c.remnant = List.replicate more.length '\uFFFD' ∧ (c.torn = true → more ≠ []) ∧
      c.mend.Stands source (passed ++ more) := by
  cases torn : c.torn with
  | false =>
    refine ⟨[], List.forall_mem_nil _, remnant_of_whole torn, fun same => absurd same Bool.false_ne_true, ?_⟩
    rw [List.append_nil, mend_of_whole torn]
    exact h
  | true =>
    obtain ⟨x, xs, rest, long⟩ := h.torn torn
    obtain ⟨first, more, coded⟩ := exists_encoded x
    have mended : c.mend = ⟨xs, c.position, false⟩ := by
      rw [Cursor.mend, torn, rest]
      rfl
    refine ⟨more, coded.others, ?_, fun _ none => long (by rw [coded.size, none]; rfl), ?_, ?_, ?_⟩
    · rw [remnant, torn, rest]
      exact congrArg (List.replicate · _) (congrArg (· - 1) coded.size)
    · have bytes := h.split
      rw [left, torn, if_pos rfl, rest, encode_cons, coded.bytes] at bytes
      rw [bytes, mended, left_of_whole rfl, List.append_assoc]
      rfl
    · rw [mended, Position.behindBytes_append_others _ coded.others]
      exact h.place
    · rw [mended]
      exact fun torn => absurd torn Bool.false_ne_true

end Cursor

/-! ## 4. A token -/

theorem inNumber_of_mem (fractional : Bool) (cs : List Char) :
    ∀ c ∈ (spanNumber fractional cs).1, inNumber c = true := by
  fun_induction spanNumber fractional cs <;> grind [inNumber]

/-- Behind `passed` there are bytes that form no token, and the cursor `after` stands behind them. -/
def Errs (source passed : List UInt8) (t : Token) (after : Cursor) : Prop :=
  ∃ own, Broken t own after.left ∧ after.Stands source (passed ++ own)

/-- Behind `passed` there is the stretch of a reading, and the cursor `after` stands behind it. -/
def Leads (source passed : List UInt8) (r : Reading) (after : Cursor) : Prop :=
  ∃ s, r.Covers passed s after.left ∧ after.Stands source (passed ++ s.bytes)

namespace Cursor.Stands

/-- A string literal that breaks off. -/
theorem literal (h : c.Stands source passed) (whole : c.torn = false) (split : c.rest = '"' :: xs)
    (unsound : (readString [] xs (c.position.step '"')).1.isSound = false) :
    Errs source passed (readString [] xs (c.position.step '"')).1 (readString [] xs (c.position.step '"')).2 := by
  obtain ⟨us, vs, rest, quoted, halts, rfl⟩ := exists_halt xs
  rw [readString_append quoted] at unsound ⊢
  cases halts with
  | quote =>
    rw [readString] at unsound
    exact absurd unsound Bool.true_eq_false.mp
  | ended => exact ⟨_, .ended quoted, h.move whole split rfl rfl⟩
  | newline =>
    refine ⟨_, .line quoted, h.move whole ?_ ?_ rfl⟩
    · rw [split]
      simp [readString]
    · simp [readString]
  | backslash =>
    refine ⟨_, .backslash quoted, h.move whole ?_ ?_ rfl⟩
    · rw [split]
      simp [readString]
    · simp [readString]
  | @escape x rest unknown =>
    obtain ⟨first, more, coded⟩ := exists_encoded x
    have behind : (Cursor.mk (x :: rest) (c.position.after ('"' :: (us ++ ['\\']))) false).Stands source
        (passed ++ encode ('"' :: (us ++ ['\\']))) := by
      refine h.move whole ?_ rfl rfl
      rw [split]
      simp
    rw [readString, unknown]
    dsimp only
    split
    · next short =>
      -- The first byte is the whole character.
      refine ⟨_, .escape quoted unknown coded, ?_⟩
      have last : more = [] := List.length_eq_zero_iff.mp <| Nat.succ.inj <|
        coded.size.symm.trans (utf8Size_eq_one_iff_lt.mpr short)
      have bytes : encode [x] = [first] := by
        rw [encode_cons, coded.bytes, last, encode_nil]
        rfl
      rw [← List.append_assoc, ← bytes]
      exact behind.move rfl rfl (by simp) rfl
    · next long =>
      refine ⟨_, .escape quoted unknown coded, ?_⟩
      rw [← List.append_assoc]
      have torn := behind.tear rfl rfl coded fun size => long (utf8Size_eq_one_iff_lt.mp size)
      simpa using torn

/-- What forms no token, without a gap in front of it. -/
theorem next_broken (h : (Cursor.mk (x :: xs) p false).Stands source passed) (bare : IsBare (x :: xs))
    (unsound : (Cursor.mk (x :: xs) p false).next.1.token.isSound = false) :
    (Cursor.mk (x :: xs) p false).next.1.position = p ∧
      Errs source passed (Cursor.mk (x :: xs) p false).next.1.token (Cursor.mk (x :: xs) p false).next.2 := by
  rw [next_bare p bare] at unsound ⊢
  split
  · next t sign =>
    rw [sign] at unsound
    exact absurd ((Spelled.sign sign).isSound.symm.trans unsound) Bool.true_eq_false.mp
  next noSign =>
  rw [noSign] at unsound
  split
  · next digit =>
    rw [if_pos digit] at unsound
    -- A number that tells no value has at least the digit that it begins with.
    have first : (spanNumber false (x :: xs)).1 = x :: (spanNumber false xs).1 := by
      have part : ∀ c ∈ [x], isDigitPart c = true := by
        rw [List.forall_mem_singleton, isDigitPart, digit]
        rfl
      exact congrArg Prod.fst (spanNumber_parts part)
    have taken := (spanNumber_append false (x :: xs)).symm
    refine ⟨rfl, encode (spanNumber false (x :: xs)).1, ?_, h.move rfl taken rfl rfl⟩
    dsimp only at unsound ⊢
    rw [first] at unsound ⊢
    exact .number digit (inNumber_of_mem false xs) unsound
  next noDigit =>
  rw [if_neg noDigit] at unsound
  split
  · next quote =>
    rw [if_pos quote] at unsound
    obtain rfl := eq_of_beq quote
    exact ⟨rfl, h.literal rfl rfl unsound⟩
  next noQuote =>
  rw [if_neg noQuote] at unsound
  split
  · next starts =>
    rw [if_pos starts] at unsound
    exact absurd unsound Bool.true_eq_false.mp
  · next noWord =>
    refine ⟨rfl, _, .character noSign (Bool.eq_false_iff.mpr noDigit) ?_ (Bool.eq_false_iff.mpr noWord), ?_⟩
    · exact fun same => noQuote (beq_iff_eq.mpr same)
    · exact h.move rfl rfl rfl rfl

/-- What is left of a torn character is complained of. -/
theorem next_torn (h : c.Stands source passed) (torn : c.torn = true) :
    Leads source passed (.token c.next.1) c.next.2 := by
  obtain ⟨x, xs, rest, -⟩ := h.torn torn
  obtain ⟨more, others, -, some', stands⟩ := h.mend
  have next : c.next = (⟨unexpected '\uFFFD', c.position⟩, c.mend) := by
    rw [Cursor.next, skipBlank, Cursor.mend, torn, if_pos rfl, if_pos rfl, rest]
    dsimp only
    rw [torn, if_pos rfl]
    rfl
  rw [next]
  refine ⟨⟨[], more⟩, ⟨.broken .none (.remnant (some' torn) others), ?_, List.forall_mem_nil _⟩, stands⟩
  rw [List.append_nil]
  exact h.place

/-- A token is spelled behind a gap. -/
theorem next_sound (h : c.Stands source passed) (whole : c.torn = false) (sound : c.next.1.token.isSound = true) :
    Leads source passed (.token c.next.1) c.next.2 := by
  have takes : c.Takes c.next.1 c.next.2 := takes_of_next whole rfl sound
  obtain ⟨gap, word, isGap, spelled, -, split, place, behind, whole'⟩ := takes
  refine ⟨⟨encode gap, encode word⟩, ⟨.token isGap spelled, ?_, List.forall_mem_nil _⟩, ?_⟩
  · rw [Position.behindBytes_encode, ← h.place]
    exact place
  · rw [Stretch.bytes, ← encode_append]
    refine h.move whole ?_ ?_ whole'
    · rw [split, List.append_assoc]
    · rw [behind, place, Position.after_append]

/-- Behind a gap there is the end, or what forms no token. -/
theorem next_unsound (h : (Cursor.mk cs p false).Stands source passed)
    (unsound : (Cursor.mk cs p false).next.1.token.isSound = false) :
    Leads source passed (.token (Cursor.mk cs p false).next.1) (Cursor.mk cs p false).next.2 := by
  rcases final_or_gap cs with final | ⟨gap, bare, isGap, isBare, some', rfl⟩
  · rw [next_of_final final]
    refine ⟨⟨encode cs, []⟩, ⟨.last final, ?_, List.forall_mem_nil _⟩, ?_⟩
    · rw [Position.behindBytes_encode, ← h.place]
      rfl
    · rw [Stretch.bytes, List.append_nil]
      exact h.move rfl (List.append_nil cs).symm rfl rfl
  · obtain ⟨x, xs, rfl⟩ := List.exists_cons_of_ne_nil some'
    have inFront : (Cursor.mk (x :: xs) (p.after gap) false).Stands source (passed ++ encode gap) :=
      h.move rfl rfl rfl rfl
    rw [next_gap isGap] at unsound ⊢
    obtain ⟨place, own, broken, stands⟩ := inFront.next_broken isBare unsound
    refine ⟨⟨encode gap, own⟩, ⟨.broken isGap broken, ?_, List.forall_mem_nil _⟩, ?_⟩
    · exact place.trans inFront.place
    · rw [Stretch.bytes, ← List.append_assoc]
      exact stands

/-- The next token is that of a stretch. -/
theorem next (h : c.Stands source passed) : Leads source passed (.token c.next.1) c.next.2 := by
  cases whole : c.torn with
  | true => exact h.next_torn whole
  | false =>
    cases sound : c.next.1.token.isSound with
    | true => exact h.next_sound whole sound
    | false =>
      obtain ⟨rest, p, torn⟩ := c
      obtain rfl : torn = false := whole
      exact h.next_unsound sound

end Cursor.Stands

/-! ## 5. A body -/

/-- Behind a body and its brace. -/
theorem Body.Captured.position {cs : List Char} {b : Body} (h : b.Captured cs p after) :
    after.position = p.after (b.text.toList ++ ['\x7d']) := by
  obtain ⟨taken, split, place⟩ := h.within.remains h.whole
  have text : b.text.toList ++ ['\x7d'] ++ after.rest = taken ++ after.rest := by
    rw [← split, h.split, List.append_assoc]
    rfl
  rw [List.append_cancel_right text]
  exact place

namespace Cursor

/-- What is left of a torn character is captured with the body behind it. -/
theorem capture?_mend (c : Cursor) : c.capture? =
    c.mend.capture?.map fun (b, after) => ({ b with text := String.ofList (c.remnant ++ b.text.toList) }, after) := by
  have position : c.mend.position = c.position := by
    unfold Cursor.mend
    split <;> rfl
  unfold capture?
  rw [mend_of_whole c.mend_whole, remnant_of_whole c.mend_whole]
  dsimp only
  rw [position]
  cases scanBlock .initial c.mend.rest c.position with
  | none => rfl
  | some found => simp

/-- The body up to the next brace is that of a stretch, or all that is left is. -/
theorem Stands.body (h : c.Stands source passed) : Leads source passed (c.call .body).1 (c.call .body).2 := by
  obtain ⟨more, others, remnant, -, mended⟩ := h.mend
  have place : c.mend.position = .behindBytes (passed ++ more) := mended.place
  cases found : c.mend.capture? with
  | none =>
    have call : c.call .body = (.unclosed c.position, c.finish) := by
      rw [call, capture?_mend, found]
      rfl
    rw [call]
    refine ⟨⟨[], more ++ encode c.mend.rest⟩, ⟨.unclosed, ?_, List.forall_mem_nil _⟩, ?_⟩
    · rw [List.append_nil]
      exact h.place
    · rw [Stretch.bytes, List.nil_append, ← List.append_assoc]
      exact mended.move c.mend_whole (List.append_nil _).symm rfl rfl
  | some captured =>
    obtain ⟨b, after⟩ := captured
    have call : c.call .body = (.body { b with text := String.ofList (c.remnant ++ b.text.toList) }, after) := by
      rw [call, capture?_mend, found]
      rfl
    have captured := captured_of_capture? c.mend_whole found
    rw [call, remnant]
    refine ⟨⟨[], more ++ encode b.text.toList ++ encode ['\x7d']⟩, ⟨.body others, ?_, fun r hr => ?_⟩, ?_⟩
    · show b.position = _
      rw [captured.place, place, List.append_nil, Position.behindBytes_append_others _ others]
    -- The place of a path counts the bytes up to it, those of a torn character among them.
    · obtain ⟨-, us, vs, split, there⟩ := captured.refs r hr
      refine ⟨more ++ encode us, encode vs, ?_, ?_⟩
      · have path : encode (':' :: ':' :: vs) = encode [':', ':'] ++ encode vs := encode_append [':', ':'] vs
        rw [List.append_assoc, ← encode_append, split, encode_append, encode_append, encode_toList, path]
        simp only [List.append_assoc]
      · rw [there, place, List.append_nil, ← List.append_assoc, Position.behindBytes_encode]
    · rw [Stretch.bytes, List.nil_append, List.append_assoc, ← encode_append, ← List.append_assoc]
      refine mended.move c.mend_whole ?_ captured.position captured.whole
      rw [captured.split, List.append_assoc]
      rfl

/-! ## 6. All calls -/

/-- What a call reads is a stretch, and the cursor then stands behind it. -/
theorem Stands.call (h : c.Stands source passed) (call : Call) :
    Leads source passed (c.call call).1 (c.call call).2 := by
  cases call with
  | token => exact h.next
  | body => exact h.body

/-- The calls read stretches one behind the other, and the cursor then stands behind them all. -/
theorem Stands.calls (h : c.Stands source passed) (calls : List Call) : ∃ ss,
    Cover passed (c.calls calls).1 ss (c.calls calls).2.left ∧
      (c.calls calls).2.Stands source (passed ++ ss.flatMap Stretch.bytes) := by
  -- On the calls, from any cursor: what one leaves over is where the next begins.
  induction calls generalizing c passed with
  | nil =>
    refine ⟨[], .nil, ?_⟩
    rw [List.flatMap_nil, List.append_nil]
    exact h
  | cons call calls ih =>
    obtain ⟨s, covers, stands⟩ := h.call call
    obtain ⟨ss, cover, last⟩ := ih stands
    have left : (c.call call).2.left = ss.flatMap Stretch.bytes ++ ((c.call call).2.calls calls).2.left := by
      have split := stands.split.symm.trans last.split
      rw [List.append_assoc _ (ss.flatMap Stretch.bytes)] at split
      exact List.append_cancel_left split
    refine ⟨s :: ss, .cons (left ▸ covers) cover, ?_⟩
    rw [List.flatMap_cons, ← List.append_assoc]
    exact last

end Cursor

/-! ## 7. Places of a module -/

/-- What stands at a place of the text stands there in its bytes. -/
theorem StandsAt.bytes {text w : String} (h : StandsAt text.toList .start w p) :
    ∃ before behind, utf8 text = before ++ utf8 w ++ behind ∧ p = .behindBytes before := by
  obtain ⟨ds, taken, split, rfl⟩ := h
  refine ⟨encode taken, encode ds, ?_, Position.start_after_eq taken⟩
  rw [← encode_toList, split, encode_append, encode_append, encode_toList, List.append_assoc]

theorem IsPlace.bytes {text : String} (h : IsPlace text.toList .start p) :
    ∃ before behind, utf8 text = before ++ behind ∧ p = .behindBytes before := by
  obtain ⟨ds, taken, split, rfl⟩ := h
  refine ⟨encode taken, encode ds, ?_, Position.start_after_eq taken⟩
  rw [← encode_toList, split, encode_append]

/-- The places that are told are those of the bytes.  Whatever is asked of the lexer, its place is that behind the bytes
    it has passed; what it gives stands one behind the other in these, with nothing between but blanks and comments, and
    tells the place of the first byte.  What a module declares tells the place where it is written, and every complaint
    one of the text. -/
theorem places_are_true (source : String) (calls : List Call) :
    (∃ stretches,
      Cover [] ((Cursor.ofString source).calls calls).1 stretches ((Cursor.ofString source).calls calls).2.left ∧
        utf8 source = stretches.flatMap Stretch.bytes ++ ((Cursor.ofString source).calls calls).2.left ∧
          ((Cursor.ofString source).calls calls).2.position = .behindBytes (stretches.flatMap Stretch.bytes)) ∧
      (∀ w ∈ (parse source).1.told, ∃ before behind,
        utf8 source = before ++ utf8 w.1 ++ behind ∧ w.2 = .behindBytes before) ∧
      ∀ fault ∈ (parse source).2, ∃ before behind,
        utf8 source = before ++ behind ∧ fault.position = .behindBytes before := by
  obtain ⟨stretches, cover, stands⟩ := (Cursor.stands_ofString source).calls calls
  obtain ⟨declared, faults⟩ := tree_of_parse source
  refine ⟨⟨stretches, cover, stands.split, stands.place⟩, fun w hw => ?_, fun fault hf => ?_⟩
  · exact (declared.standsAt w hw).bytes
  · exact (faults fault hf).bytes

/-- An unknown escape tears the character that it names: what is left of it is told the place behind it. -/
example : ((Cursor.ofString "\"\\é \x7d").calls [.token, .token, .body]).1.map Reading.position =
    [⟨1, 1⟩, ⟨1, 4⟩, ⟨1, 4⟩] := by
  rfl

end ScriptHost.Declaration
