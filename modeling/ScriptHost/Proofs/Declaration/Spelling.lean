import ScriptHost.Proofs.Declaration.Cursor
import ScriptHost.Proofs.Declaration.Gap
import ScriptHost.Proofs.Declaration.Numeral

/-!
# Spelling — how tokens are written

A token is a sign, a word, a numeral or a string literal, each as long as it can be, with a gap in front of it.
`Cursor.next` takes exactly that.
-/

namespace ScriptHost.Declaration

open Text (Position takeWhile_stops)

/-! ## 1. Tokens in a text -/

/-- What stands between the quotes of a string literal, and what it means. -/
inductive Quoted : List Char → List Char → Prop
  | nil : Quoted [] []
  | plain {c cs vs} : c ≠ '"' → c ≠ '\\' → c ≠ '\n' → Quoted cs vs → Quoted (c :: cs) (c :: vs)
  | escape {c d cs vs} : escape? c = some d → Quoted cs vs → Quoted ('\\' :: c :: cs) (d :: vs)

/-- Where a string literal goes no further: at its quote, or where it breaks off. -/
inductive Halts : List Char → Prop
  | quote {rest} : Halts ('"' :: rest)
  | ended : Halts []
  | newline {rest} : Halts ('\n' :: rest)
  | backslash : Halts ['\\']
  | escape {c rest} : escape? c = none → Halts ('\\' :: c :: rest)

/-- A token and the characters that it is written with. -/
inductive Spelled : Token → List Char → Prop
  | sign {x t} : Token.ofSign? x = some t → Spelled t [x]
  | word {w} : IsWord w → Spelled (.ident w) w.toList
  | number {t cs} : Numeral cs t → Spelled t cs
  | text {cs vs} : Quoted cs vs → Spelled (.str (String.ofList vs)) ('"' :: (cs ++ ['"']))

/-- The token ends in front of these characters: they do not make a longer one of it. -/
def Ends (t : Token) (cs : List Char) : Prop :=
  match t with
  | .ident _ => cs.head?.any isWordPart = false
  | .int _ | .float _ => EndsNumber t cs
  | _ => True

/-- Behind a gap the cursor takes a token, and gets to `after`. -/
def Cursor.Takes (c : Cursor) (l : Lexeme) (after : Cursor) : Prop :=
  ∃ gap word, Gap gap ∧ Spelled l.token word ∧ Ends l.token after.rest ∧
    c.rest = gap ++ (word ++ after.rest) ∧ l.position = c.position.after gap ∧
      after.position = l.position.after word ∧ after.torn = false

variable {t : Token} {cs vs rest : List Char} {p : Position} {c after : Cursor} {l : Lexeme} {x : Char}

/-! ## 2. String literals -/

/-- What stands between quotes is read character by character. -/
theorem readString_append (h : Quoted cs vs) (sofar : List Char) :
    readString sofar (cs ++ rest) p = readString (vs.reverse ++ sofar) rest (p.after cs) := by
  induction h generalizing sofar p with
  | nil => rfl
  | plain quote escape newline _ ih =>
    rw [List.cons_append, readString, if_neg (by simpa using newline), ih]
    · simp
    · exact quote
    · exact fun same => absurd same escape
    · exact fun _ _ same => absurd same escape
  | escape meant _ ih =>
    rw [List.cons_append, List.cons_append, readString, meant]
    dsimp only
    rw [ih]
    simp

theorem readString_quoted (h : Quoted cs vs) (sofar : List Char) :
    readString sofar (cs ++ '"' :: rest) p =
      (.str (String.ofList (sofar.reverse ++ vs)), ⟨rest, p.after (cs ++ ['"']), false⟩) := by
  rw [readString_append h, readString, List.reverse_append, List.reverse_reverse, Position.after_append]
  rfl

/-- Every text begins with what can stand between quotes, up to where a literal halts. -/
theorem exists_halt (cs : List Char) : ∃ us vs rest, Quoted us vs ∧ Halts rest ∧ cs = us ++ rest := by
  -- A literal goes on by one character, or by an escape of two.
  induction cs using List.twoStepInduction with
  | nil => exact ⟨[], [], [], .nil, .ended, rfl⟩
  | singleton c =>
    by_cases quote : c = '"'
    · exact ⟨[], [], [c], .nil, quote ▸ .quote, rfl⟩
    by_cases newline : c = '\n'
    · exact ⟨[], [], [c], .nil, newline ▸ .newline, rfl⟩
    by_cases escape : c = '\\'
    · exact ⟨[], [], [c], .nil, escape ▸ .backslash, rfl⟩
    · exact ⟨[c], [c], [], .plain quote escape newline .nil, .ended, rfl⟩
  | cons_cons c d cs behind next =>
    by_cases quote : c = '"'
    · exact ⟨[], [], _, .nil, quote ▸ .quote, rfl⟩
    by_cases newline : c = '\n'
    · exact ⟨[], [], _, .nil, newline ▸ .newline, rfl⟩
    by_cases escape : c = '\\'
    · obtain rfl := escape
      cases meant : escape? d with
      | none => exact ⟨[], [], _, .nil, .escape meant, rfl⟩
      | some v =>
        obtain ⟨us, vs, rest, quoted, halts, rfl⟩ := behind
        exact ⟨_, _, rest, .escape meant quoted, halts, rfl⟩
    · obtain ⟨us, vs, rest, quoted, halts, split⟩ := next d
      exact ⟨_, _, rest, .plain quote escape newline quoted, halts, congrArg (c :: ·) split⟩

/-- A literal that is read ends at its quote. -/
theorem exists_quoted (sofar : List Char) (sound : (readString sofar cs p).1.isSound = true) :
    ∃ us vs rest, Quoted us vs ∧ cs = us ++ '"' :: rest := by
  obtain ⟨us, vs, rest, quoted, halts, rfl⟩ := exists_halt cs
  rw [readString_append quoted] at sound
  cases halts with
  | @quote rest => exact ⟨us, vs, rest, quoted, rfl⟩
  | ended | newline | backslash => exact absurd sound Bool.false_ne_true
  | escape unknown =>
    rw [readString, unknown] at sound
    dsimp only at sound
    split at sound <;> exact absurd sound Bool.false_ne_true

/-! ## 3. The first character of a token -/

theorem ofSign?_of_isWordPart (part : isWordPart x = true) : Token.ofSign? x = none := by
  unfold Token.ofSign?
  split
  case h_13 => rfl
  all_goals exact absurd part (by decide)

theorem isWordPart_of_isDigit (digit : x.isDigit = true) : isWordPart x = true := by
  rw [isWordPart, Char.isAlphanum, digit, Bool.or_true, Bool.true_or]

/-- A token begins with a character that no gap begins with. -/
structure Begins (x : Char) : Prop where
  solid : isBlank x = false
  slash : x ≠ '/'
  point : x ≠ '.'

theorem Begins.isBare (h : Begins x) (cs : List Char) : IsBare (x :: cs) where
  blank := by
    rintro _ ⟨⟩
    exact h.solid
  line _ same := h.slash (List.cons.inj same).1
  block _ same := h.slash (List.cons.inj same).1

theorem begins_of_isWordPart (part : isWordPart x = true) : Begins x := by
  have other {k : Char} (sign : isWordPart k = false) : x ≠ k := by
    rintro rfl
    exact Bool.false_ne_true (sign.symm.trans part)
  refine ⟨?_, other rfl, other rfl⟩
  simp only [isBlank, Bool.or_eq_false_iff, beq_eq_false_iff_ne]
  exact ⟨⟨⟨other rfl, other rfl⟩, other rfl⟩, other rfl⟩

theorem begins_of_ofSign? (h : Token.ofSign? x = some t) : Begins x := by
  unfold Token.ofSign? at h
  split at h
  case h_13 => exact nomatch h
  all_goals exact ⟨by decide, by decide, by decide⟩

theorem ends_of_ofSign? (h : Token.ofSign? x = some t) : Ends t rest := by
  unfold Token.ofSign? at h
  split at h
  case h_13 => exact nomatch h
  all_goals
    obtain rfl := Option.some.inj h
    exact trivial

theorem Numeral.run (h : Numeral cs t) : ∃ ws rest, IsRun ws ∧ cs = ws ++ rest := by
  cases h with
  | int run => exact ⟨_, [], run, (List.append_nil _).symm⟩
  | fraction run | power run => exact ⟨_, _, run, rfl⟩

theorem Numeral.ends_iff (h : Numeral cs t) : Ends t rest ↔ EndsNumber t rest := by
  cases h <;> exact Iff.rfl

theorem Numeral.starts (h : Numeral cs t) : ∃ x xs, cs = x :: xs ∧ x.isDigit = true := by
  obtain ⟨ws, rest, run, rfl⟩ := h.run
  have starts := run.starts
  obtain ⟨w, ws, rfl⟩ := List.exists_cons_of_ne_nil run.ne_nil
  exact ⟨w, ws ++ rest, rfl, starts⟩

theorem IsWord.exists_cons {w : String} (h : IsWord w) :
    ∃ x xs, w.toList = x :: xs ∧ isWordStart x = true := by
  obtain ⟨x, hx, starts⟩ := (Option.any_eq_true _ _).mp h.starts
  obtain ⟨xs, split⟩ := List.head?_eq_some_iff.mp hx
  exact ⟨x, xs, split, starts⟩

theorem Spelled.begins (h : Spelled t cs) : ∃ x xs, cs = x :: xs ∧ Begins x := by
  cases h with
  | sign sign => exact ⟨_, [], rfl, begins_of_ofSign? sign⟩
  | word word =>
    obtain ⟨x, xs, split, starts⟩ := word.exists_cons
    exact ⟨x, xs, split, begins_of_isWordPart (isWordPart_of_isWordStart starts)⟩
  | number numeral =>
    obtain ⟨x, xs, split, digit⟩ := numeral.starts
    exact ⟨x, xs, split, begins_of_isWordPart (isWordPart_of_isDigit digit)⟩
  | text => exact ⟨'"', _, rfl, by decide, by decide, by decide⟩

/-! ## 4. The next token -/

/-- The lexer passes a gap. -/
theorem Cursor.next_gap {gs : List Char} (gap : Gap gs) :
    (Cursor.mk (gs ++ cs) p false).next = (Cursor.mk cs (p.after gs) false).next := by
  have same : (Cursor.mk (gs ++ cs) p false).skipBlank = (Cursor.mk cs (p.after gs) false).skipBlank := by
    show skip .blank (gs ++ cs) p = skip .blank cs (p.after gs)
    exact skip_gap gap
  rw [Cursor.next, Cursor.next, same]

/-- Without a gap the token is told by its first character. -/
theorem Cursor.next_bare {xs : List Char} (p : Position) (bare : IsBare (x :: xs)) :
    (Cursor.mk (x :: xs) p false).next =
    match Token.ofSign? x with
    | some t => (⟨t, p⟩, ⟨xs, p.step x, false⟩)
    | none =>
      if x.isDigit then
        (⟨numberToken (spanNumber false (x :: xs)).1, p⟩,
          ⟨(spanNumber false (x :: xs)).2, p.after (spanNumber false (x :: xs)).1, false⟩)
      else if x == '"' then
        (⟨(readString [] xs (p.step x)).1, p⟩, (readString [] xs (p.step x)).2)
      else if isWordStart x then
        (⟨.ident (String.ofList ((x :: xs).takeWhile isWordPart)), p⟩,
          ⟨(x :: xs).dropWhile isWordPart, p.after ((x :: xs).takeWhile isWordPart), false⟩)
      else (⟨unexpected x, p⟩, ⟨xs, p.step x, false⟩) := by
  have whole : (Cursor.mk (x :: xs) p false).skipBlank = ⟨x :: xs, p, false⟩ := by
    show skip .blank (x :: xs) p = _
    exact skip_bare bare
  rw [Cursor.next, whole]
  rfl

/-- A token that is spelled in front of its end is the next one. -/
theorem Spelled.next (h : Spelled t cs) (ends : Ends t rest) :
    (Cursor.mk (cs ++ rest) p false).next = (⟨t, p⟩, ⟨rest, p.after cs, false⟩) := by
  obtain ⟨x, xs, split, begins⟩ := h.begins
  have first := Cursor.next_bare p (begins.isBare (xs ++ rest))
  rw [← List.cons_append, ← split] at first
  rw [first]
  -- The first character decides what is read, and none that begins one sort of token begins another.
  cases h with
  | sign sign =>
    obtain ⟨rfl, rfl⟩ := List.cons.inj split
    rw [sign]
    rfl
  | @word w word =>
    obtain ⟨y, ys, split', starts⟩ := word.exists_cons
    obtain ⟨rfl, rfl⟩ := List.cons.inj (split'.symm.trans split)
    obtain ⟨taken, behind⟩ := takeWhile_stops rest word.parts ends
    rw [ofSign?_of_isWordPart (isWordPart_of_isWordStart starts), taken, behind, String.ofList_toList]
    dsimp only
    rw [isDigit_of_isWordStart starts, if_neg Bool.false_ne_true, starts, if_pos rfl, if_neg]
    intro quote
    rw [eq_of_beq quote] at starts
    exact absurd starts (by decide)
  | number numeral =>
    obtain ⟨y, ys, split', digit⟩ := numeral.starts
    obtain ⟨rfl, rfl⟩ := List.cons.inj (split'.symm.trans split)
    obtain ⟨taken, token⟩ := numeral.taken (numeral.ends_iff.mp ends)
    rw [ofSign?_of_isWordPart (isWordPart_of_isDigit digit), taken]
    dsimp only
    rw [digit, if_pos rfl, token]
  | @text cs vs quoted =>
    obtain ⟨rfl, rfl⟩ := List.cons.inj split
    show ((⟨(readString [] (cs ++ ['"'] ++ rest) (p.step '"')).1, p⟩,
      (readString [] (cs ++ ['"'] ++ rest) (p.step '"')).2) : Lexeme × Cursor) = _
    rw [List.append_assoc, List.singleton_append, readString_quoted quoted]
    rfl

/-- The token that a cursor takes is the next one. -/
theorem Cursor.Takes.next (h : c.Takes l after) (whole : c.torn = false) : c.next = (l, after) := by
  obtain ⟨gap, word, isGap, spelled, ends, split, place, place', whole'⟩ := h
  obtain ⟨rest, position, torn⟩ := c
  obtain ⟨rest', position', torn'⟩ := after
  obtain ⟨token, position''⟩ := l
  dsimp only at *
  obtain rfl := whole
  obtain rfl := whole'
  rw [split, Cursor.next_gap isGap, spelled.next ends, place', place]

/-- Behind the last token there is only the end. -/
theorem Cursor.next_of_final (final : Final cs) :
    (Cursor.mk cs p false).next = (⟨.eof, p.after cs⟩, ⟨[], p.after cs, false⟩) := by
  obtain ⟨within, whole⟩ := within_skip .blank cs p
  have nothing := skip_final (p := p) final
  have skipped : (Cursor.mk cs p false).skipBlank = ⟨[], p.after cs, false⟩ := by
    show skip .blank cs p = _
    obtain ⟨taken, split, place⟩ := within.remains whole
    rw [nothing, List.append_nil] at split
    obtain rfl := split
    generalize skip .blank cs p = c at *
    obtain ⟨rest, position, torn⟩ := c
    obtain rfl : rest = [] := nothing
    obtain rfl : torn = false := whole
    exact congrArg (Cursor.mk [] · false) place
  rw [Cursor.next, skipped]

theorem Cursor.next_final (final : Final cs) : (Cursor.mk cs p false).next.1.token = .eof := by
  rw [Cursor.next_of_final final]

/-- What is taken as the next token is spelled so, if it is sound. -/
theorem Cursor.takes_of_next (whole : c.torn = false) (h : c.next = (l, after)) (sound : l.token.isSound = true) :
    c.Takes l after := by
  obtain ⟨rest, position, torn⟩ := c
  obtain rfl := whole
  rcases final_or_gap rest with final | ⟨gap, bare, isGap, isBare, some', rfl⟩
  · have last := Cursor.next_final (p := position) final
    rw [h] at last
    rw [last] at sound
    exact absurd sound Bool.false_ne_true
  · obtain ⟨x, xs, rfl⟩ := List.exists_cons_of_ne_nil some'
    rw [Cursor.next_gap isGap, Cursor.next_bare _ isBare] at h
    -- It is left to say what was spelled behind the gap.
    have takes {t : Token} {word rest : List Char} {q : Position}
        (same : ((⟨t, position.after gap⟩, ⟨rest, q, false⟩) : Lexeme × Cursor) = (l, after))
        (spelled : Spelled t word) (ends : Ends t rest) (split : x :: xs = word ++ rest)
        (place : q = (position.after gap).after word) :
        (Cursor.mk (gap ++ x :: xs) position false).Takes l after := by
      obtain ⟨rfl, rfl⟩ := Prod.mk.inj same
      exact ⟨gap, word, isGap, spelled, ends, congrArg (gap ++ ·) split, rfl, place, rfl⟩
    split at h
    · next t sign => exact takes h (.sign sign) (ends_of_ofSign? sign) rfl rfl
    split at h
    · next digit =>
      have sound : (numberToken (spanNumber false (x :: xs)).1).isSound = true := by
        obtain ⟨rfl, -⟩ := Prod.mk.inj h
        exact sound
      obtain ⟨numeral, ends⟩ := numeral_of_span digit rfl sound
      exact takes h (.number numeral) (numeral.ends_iff.mpr ends) (spanNumber_append false (x :: xs)).symm rfl
    split at h
    · next quote =>
      obtain rfl := eq_of_beq quote
      have sound : (readString [] xs ((position.after gap).step '"')).1.isSound = true := by
        obtain ⟨rfl, -⟩ := Prod.mk.inj h
        exact sound
      obtain ⟨us, vs, rest, quoted, rfl⟩ := exists_quoted [] sound
      rw [readString_quoted quoted] at h
      exact takes h (.text quoted) trivial (by simp) rfl
    split at h
    · next starts =>
      have spelled := Spelled.word (isWord_takeWhile xs starts)
      rw [String.toList_ofList] at spelled
      refine takes h spelled ?_ List.takeWhile_append_dropWhile.symm rfl
      show ((x :: xs).dropWhile isWordPart).head?.any isWordPart = false
      cases behind : (x :: xs).dropWhile isWordPart with
      | nil => rfl
      | cons y ys =>
        have stops := List.head?_dropWhile_not isWordPart (x :: xs)
        rw [behind] at stops
        exact stops
    · obtain ⟨rfl, -⟩ := Prod.mk.inj h
      exact absurd sound Bool.false_ne_true

theorem Spelled.isSound (h : Spelled t cs) : t.isSound = true := by
  cases h with
  | @sign x _ sign =>
    unfold Token.ofSign? at sign
    split at sign
    case h_13 => exact nomatch sign
    all_goals
      obtain rfl := Option.some.inj sign
      rfl
  | word => rfl
  | number numeral => cases numeral <;> rfl
  | text => rfl

theorem ofSign?_injective {y : Char} (h : Token.ofSign? x = some t) (h' : Token.ofSign? y = some t) : x = y := by
  unfold Token.ofSign? at h
  split at h
  case h_13 => exact nomatch h
  all_goals
    obtain rfl := Option.some.inj h
    unfold Token.ofSign? at h'
    split at h' <;> first | rfl | exact nomatch h'

/-- A sign is written with its one character. -/
theorem Spelled.of_sign (h : Spelled t cs) (sign : Token.ofSign? x = some t) : cs = [x] := by
  cases h with
  | sign sign' => rw [ofSign?_injective sign' sign]
  | word => exact absurd rfl (ofSign?_ne_ident sign _)
  | number numeral =>
    unfold Token.ofSign? at sign
    cases numeral <;> split at sign <;> exact nomatch sign
  | text =>
    unfold Token.ofSign? at sign
    split at sign <;> exact nomatch sign

theorem Spelled.of_ident {w : String} (h : Spelled (.ident w) cs) : IsWord w ∧ cs = w.toList := by
  cases h with
  | sign sign => exact absurd rfl (ofSign?_ne_ident sign w)
  | word word => exact ⟨word, rfl⟩
  | number numeral => nomatch numeral

/-- A cursor takes the next token, if it is sound, and no other. -/
theorem Cursor.takes_iff (whole : c.torn = false) :
    c.Takes l after ↔ c.next = (l, after) ∧ l.token.isSound = true := by
  constructor
  · intro takes
    obtain ⟨_, _, _, spelled, -⟩ := id takes
    exact ⟨takes.next whole, spelled.isSound⟩
  · rintro ⟨next, sound⟩
    exact Cursor.takes_of_next whole next sound

theorem numberToken_ne_eof (taken : List Char) : numberToken taken ≠ .eof := by
  unfold numberToken
  dsimp only
  repeat' split
  all_goals exact nofun

theorem readString_ne_eof (sofar cs : List Char) (p : Position) : (readString sofar cs p).1 ≠ .eof := by
  fun_induction readString sofar cs p
  case case4 ih => exact ih
  case case8 ih => exact ih
  all_goals
    intro same
    cases same

/-- The next token is the end where there are only gaps, a comment left open among them. -/
theorem Cursor.next_eof_iff (whole : c.torn = false) : c.next.1.token = .eof ↔ Final c.rest := by
  obtain ⟨rest, position, torn⟩ := c
  obtain rfl := whole
  constructor
  · intro last
    rcases final_or_gap rest with final | ⟨gap, bare, isGap, isBare, some', rfl⟩
    · exact final
    · obtain ⟨x, xs, rfl⟩ := List.exists_cons_of_ne_nil some'
      rw [Cursor.next_gap isGap, Cursor.next_bare _ isBare] at last
      split at last
      · next t sign =>
        obtain rfl : t = .eof := last
        exact absurd (Spelled.sign sign).isSound Bool.false_ne_true
      split at last
      · exact absurd last (numberToken_ne_eof _)
      split at last
      · exact absurd last (readString_ne_eof _ _ _)
      split at last
      · exact nomatch last
      · exact nomatch last
  · exact Cursor.next_final

/-- Every token takes a character, a complaint too. -/
theorem Cursor.next_shorter (c : Cursor) (more : c.next.1.token ≠ .eof) :
    c.next.2.rest.length < c.rest.length := by
  have skipped : c.skipBlank.rest.length ≤ c.rest.length := by
    unfold Cursor.skipBlank
    split
    · exact Nat.le_refl _
    · exact (within_skip .blank c.rest c.position).1.suffix.length_le
  -- Blanks only shorten what is left, so it is enough to look behind them.
  refine Nat.lt_of_lt_of_le ?_ skipped
  unfold Cursor.next at more ⊢
  dsimp only at more ⊢
  generalize c.skipBlank = c at more ⊢
  cases split : c.rest with
  | nil =>
    rw [split] at more
    exact absurd rfl more
  | cons x xs =>
    dsimp only
    split
    · exact Nat.lt_succ_self _
    split
    · exact Nat.lt_succ_self _
    split
    -- The run of a numeral has the first digit at least.
    · next digit =>
      obtain ⟨us, rest, cut, run, -⟩ := exists_run xs digit
      have number := congrArg List.length (spanNumber_append false (x :: xs))
      have taken : 0 < (spanNumber false (x :: xs)).1.length := by
        rw [cut, spanNumber_parts run.parts, List.length_append]
        have := List.length_pos_iff.mpr run.ne_nil
        omega
      rw [List.length_append] at number
      show (spanNumber false (x :: xs)).2.length < _
      omega
    split
    · exact Nat.lt_succ_of_le (passes_readString [] xs (c.position.step x)).1.within.suffix.length_le
    split
    · next starts =>
      show ((x :: xs).dropWhile isWordPart).length < _
      rw [List.dropWhile_cons_of_pos (isWordPart_of_isWordStart starts)]
      exact Nat.lt_succ_of_le (List.dropWhile_suffix _).length_le
    · exact Nat.lt_succ_self _

end ScriptHost.Declaration
