import ScriptHost.Corpus.Lowered
import ScriptHost.Proofs.Script.Lexer.Beside
import ScriptHost.Proofs.Script.Parser.Reading

/-!
# Header — the tokens of a declared function

A declared function is compiled from a text of its own: a header, spelled from its name and its parameters,
and the body as it was captured.  The tokens of that text are a header and a body in braces.
-/

namespace ScriptHost.Script

open Text (Position Remains takeWhile_stops)
open Declaration (IsWord ModuleRef Scans)

variable {noted : List ModuleRef} {text : List Char} {c : Char} {cs ds : List Char} {p q : Position}
  {s : Scanner} {t : Token} {w : String} {fuel : Nat}

/-! ## 1. Words and signs of a header -/

/-- Nothing is skipped in front of this text. -/
def IsBare (cs : List Char) : Prop := ∀ p, skip .blank cs p = (cs, p)

theorem isBare_of_isWordStart (starts : isWordStart c = true) : IsBare (c :: cs) := by
  intro p
  unfold skip
  split
  · next eq => exact absurd eq (List.cons_ne_nil _ _)
  · next eq =>
    obtain ⟨rfl, -⟩ := List.cons.inj eq
    exact absurd starts (by decide)
  · next eq =>
    obtain ⟨rfl, -⟩ := List.cons.inj eq
    exact absurd starts (by decide)
  · next eq =>
    obtain ⟨rfl, rfl⟩ := List.cons.inj eq
    rw [isBlank_of_isWordPart (isWordPart_of_isWordStart starts)]
    rfl
  all_goals simp_all

theorem isBare_of_isWord (word : IsWord w) : IsBare (w.toList ++ cs) := by
  obtain ⟨c, hc, starts⟩ := (Option.any_eq_true _ _).mp word.starts
  obtain ⟨parts, hw⟩ := List.head?_eq_some_iff.mp hc
  rw [hw]
  exact isBare_of_isWordStart starts

theorem tokenAt_word (starts : isWordStart c = true) : s.tokenAt p c cs =
    s.emit (.ofWord (String.ofList ((c :: cs).takeWhile isWordPart))) p ((c :: cs).takeWhile isWordPart)
      ((c :: cs).dropWhile isWordPart) := by
  have differs {k : Char} (other : isWordStart k = false) : (c == k) = false := by
    rw [beq_eq_false_iff_ne]
    rintro rfl
    exact Bool.false_ne_true (other.symm.trans starts)
  have digit : ¬ c.isDigit = true := fun h =>
    Bool.false_ne_true ((isWordStart_of_isDigit h).symm.trans starts)
  unfold Scanner.tokenAt
  dsimp only
  rw [if_neg digit, differs rfl, differs rfl, differs rfl, differs rfl, differs rfl]
  exact if_pos starts

/-! ## 2. In front of the body -/

/-- The lexer is in front of the body, where no brace is open, and behind blanks `cs` is left at `p`. -/
structure Ahead (text : List Char) (s : Scanner) (cs : List Char) (p : Position) : Prop where
  inCode : s.inText = false
  depth : s.depth = 0
  outer : s.outer = []
  skipped : skip .blank s.rest s.position = (cs, p)
  place : Remains text .start cs p
  within : cs.length ≤ s.rest.length

namespace Ahead

theorem next (h : Ahead text s (c :: cs) p) : s.next = s.tokenAt p c cs := by
  rw [Scanner.next, if_neg (by simp [h.inCode]), if_neg (by simp [h.inCode]), h.skipped]

/-- Behind a token that leaves bare text, or a blank in front of it. -/
theorem emit {taken left : List Char} (h : Ahead text s (taken ++ left) p) (bare : IsBare ds)
    (blank : left = ds ∨ left = ' ' :: ds) : ∃ q, Ahead text (s.emit t p taken left).2 ds q := by
  have place := h.place.trans ⟨taken, rfl, rfl⟩
  rcases blank with rfl | rfl
  · exact ⟨_, h.inCode, h.depth, h.outer, bare _, place, Nat.le_refl _⟩
  · exact ⟨_, h.inCode, h.depth, h.outer, bare _, place.trans ⟨[' '], rfl, rfl⟩, Nat.le_succ _⟩

theorem tokens {s' : Scanner} (h : Ahead text s (c :: cs) p) (token : s.tokenAt p c cs = (⟨t, p⟩, s'))
    (goesOn : t.isLast = false) : tokensFrom (fuel + 1) s = ⟨t, p⟩ :: tokensFrom fuel s' := by
  rw [tokensFrom, h.next, token]
  exact if_neg (by simp [goesOn])

/-- A word is a token, or a fault that ends the tokens. -/
theorem word {left : List Char} (h : Ahead text s (w.toList ++ left) p) (word : IsWord w)
    (ends : left.head?.any isWordPart = false) (bare : IsBare ds) (blank : left = ds ∨ left = ' ' :: ds)
    (enough : s.rest.length < fuel) :
    (∃ cause, Token.ofWord w = .fault cause ∧ tokensFrom fuel s = [⟨.fault cause, p⟩]) ∨
      ∃ s' q n, tokensFrom fuel s = ⟨.ofWord w, p⟩ :: tokensFrom n s' ∧ Ahead text s' ds q ∧
        s'.rest.length < n := by
  obtain ⟨n, rfl⟩ := Nat.exists_eq_succ_of_ne_zero (Nat.ne_of_gt (Nat.zero_lt_of_lt enough))
  obtain ⟨c, hc, starts⟩ := (Option.any_eq_true _ _).mp word.starts
  obtain ⟨parts, hw⟩ := List.head?_eq_some_iff.mp hc
  have all : ∀ e ∈ w.toList, isWordPart e = true := word.parts
  obtain ⟨taken, dropped⟩ := takeWhile_stops left all ends
  have token : s.tokenAt p c (parts ++ left) = s.emit (.ofWord w) p w.toList left := by
    rw [tokenAt_word starts, ← List.cons_append, ← hw, taken, dropped, String.ofList_toList]
  have next : s.next = s.emit (.ofWord w) p w.toList left := by
    rw [← token]
    exact Ahead.next (by rwa [← List.cons_append, ← hw])
  rcases Token.ofWord_ordinary w with plain | ⟨cause, fault⟩
  · obtain ⟨q, after⟩ := h.emit (t := .ofWord w) bare blank
    refine .inr ⟨_, q, n, ?_, after, ?_⟩
    · rw [tokensFrom, next]
      exact if_neg (by simp [Token.isLast_of_isPlain plain])
    · have within := h.within
      rw [hw, List.length_append, List.length_cons] at within
      show left.length < n
      omega
  · refine .inl ⟨cause, fault, ?_⟩
    rw [tokensFrom, next, fault]
    rfl

/-- A sign that is no brace is a token. -/
theorem sign {left : List Char} {sign : String} (h : Ahead text s (c :: cs) p)
    (token : s.tokenAt p c cs = s.emit (.symbol sign) p sign.toList left)
    (split : sign.toList ++ left = c :: cs) (some : sign.toList ≠ []) (bare : IsBare ds)
    (blank : left = ds ∨ left = ' ' :: ds) (enough : s.rest.length < fuel) :
    ∃ s' q n, tokensFrom fuel s = ⟨.symbol sign, p⟩ :: tokensFrom n s' ∧ Ahead text s' ds q ∧
      s'.rest.length < n := by
  obtain ⟨n, rfl⟩ := Nat.exists_eq_succ_of_ne_zero (Nat.ne_of_gt (Nat.zero_lt_of_lt enough))
  obtain ⟨q, after⟩ := (split ▸ h).emit (t := .symbol sign) bare blank
  refine ⟨_, q, n, h.tokens token rfl, after, ?_⟩
  have within := h.within
  have := List.length_pos_iff.mpr some
  rw [← split, List.length_append] at within
  show left.length < n
  omega

end Ahead

theorem tokenAt_comma : s.tokenAt p ',' cs = s.emit (.symbol ",") p [','] cs := rfl

theorem tokenAt_closing : s.tokenAt p ')' cs = s.emit (.symbol ")") p [')'] cs := rfl

theorem tokenAt_empty : s.tokenAt p '(' (')' :: cs) = s.emit (.symbol "()") p ['(', ')'] cs := rfl

theorem tokenAt_parenthesis : s.tokenAt p '(' cs =
    match sign? ('(' :: cs) with
    | some sign => Scanner.count (.ofSign sign)
        (s.emit (.ofSign sign) p sign.toList (('(' :: cs).drop sign.length))
    | none => s.emit (.fault (.unexpected (String.singleton '('))) p ['('] cs := rfl

theorem tokenAt_opening (one : c ≠ ')') (two : c ≠ '*') :
    s.tokenAt p '(' (c :: cs) = s.emit (.symbol "(") p ['('] (c :: cs) := by
  have sign : sign? ('(' :: c :: cs) = some "(" := by
    show ("()" :: "(*" :: signs.drop 57).find? (fun s => s.toList.isPrefixOf ('(' :: c :: cs)) = some "("
    rw [List.find?_cons_of_neg, List.find?_cons_of_neg]
    · rfl
    · simp [two.symm]
    · simp [one.symm]
  rw [tokenAt_parenthesis, sign]
  rfl

theorem tokenAt_brace : s.tokenAt p '\x7b' cs =
    (⟨.symbol "\x7b", p⟩, ⟨cs, p.step '\x7b', true, s.inText, s.depth + 1, s.outer⟩) := rfl

/-! ## 3. Header and body -/

/-- The body, which its scan gets to the end of, is in braces. -/
theorem braced_of_ahead (plain : isPlainText cs = true) (h : Ahead text s ('\x7b' :: cs) p)
    (scan : Scans noted (.code false false) 0 [] cs) (enough : s.rest.length < fuel) :
    Parse.Braced (Marks.ofText noted text) (tokensFrom fuel s) := by
  obtain ⟨n, rfl⟩ := Nat.exists_eq_succ_of_ne_zero (Nat.ne_of_gt (Nat.zero_lt_of_lt enough))
  refine ⟨p, _, h.tokens tokenAt_brace rfl, ⟨_, h.place⟩, ?_⟩
  have within := h.within
  rw [List.length_cons] at within
  have inside : Scanner.opened ⟨cs, p.step '\x7b', true, s.inText, s.depth + 1, s.outer⟩ = 1 := by
    rw [Scanner.opened, h.depth, h.outer]
    rfl
  have beside : Beside noted false ⟨cs, p.step '\x7b', true, s.inText, s.depth + 1, s.outer⟩ := by
    refine .code scan ?_ ?_ ⟨congrArg (· + 1) h.depth, h.outer⟩ h.inCode
    · exact fun glued => absurd glued Bool.false_ne_true
    · exact fun path => absurd path Bool.false_ne_true
  have shorter : cs.length < n := by omega
  have enclosed := enclosed_tokensFrom plain (h.place.trans ⟨['\x7b'], rfl, rfl⟩) beside shorter
  rw [inside] at enclosed
  exact enclosed

/-- What follows the name of the first parameter. -/
def behindParameter (xs : List String) (cs : List Char) : List Char :=
  xs.flatMap (fun x => ',' :: ' ' :: x.toList) ++ ')' :: ' ' :: '\x7b' :: cs

theorem spelled_of_ahead {x : String} {xs : List String} (plain : isPlainText cs = true)
    (words : ∀ y ∈ x :: xs, IsWord y) (scan : Scans noted (.code false false) 0 [] cs)
    (h : Ahead text s (x.toList ++ behindParameter xs cs) p) (enough : s.rest.length < fuel) :
    Parse.Spelled (Marks.ofText noted text) (x :: xs) (tokensFrom fuel s) := by
  have word := words x List.mem_cons_self
  -- On the names behind the first: a name ends at the comma or at the parenthesis, and so it is not joined to more.
  induction xs generalizing x s p fuel with
  | nil =>
    rcases h.word word rfl (fun _ => rfl) (.inl rfl) enough with
      ⟨cause, -, fault⟩ | ⟨s, q, n, token, h, enough⟩
    · rw [fault]
      exact .fault
    · obtain ⟨s', r, n, token', h, enough⟩ :=
        h.sign tokenAt_closing rfl (List.cons_ne_nil _ _) (fun _ => rfl) (.inr rfl) enough
      rw [token, token']
      exact .last (braced_of_ahead plain h scan enough)
  | cons y ys ih =>
    have next := words y (List.mem_cons_of_mem _ List.mem_cons_self)
    have split : behindParameter (y :: ys) cs = ',' :: ' ' :: (y.toList ++ behindParameter ys cs) := by
      simp [behindParameter]
    rw [split] at h
    rcases h.word word rfl (fun _ => rfl) (.inl rfl) enough with
      ⟨cause, -, fault⟩ | ⟨s, q, n, token, h, enough⟩
    · rw [fault]
      exact .fault
    · obtain ⟨s', r, n, token', h, enough⟩ :=
        h.sign tokenAt_comma rfl (List.cons_ne_nil _ _) (isBare_of_isWord next) (.inr rfl) enough
      rw [token, token']
      exact .more (ih (fun z hz => words z (List.mem_cons_of_mem _ hz)) h enough next)

/-- The text of a declared function is the header, its body and a brace. -/
theorem toList_textOf (f : Declaration.FnDecl) :
    (Corpus.Lowered.textOf f).toList = "fn".toList ++ ' ' :: (f.name.toList ++ '(' ::
      ((", ".toList).intercalate (f.params.map String.toList) ++
        ')' :: ' ' :: '\x7b' :: (f.body.text.toList ++ ['\x7d']))) := by
  simp [Corpus.Lowered.textOf, Corpus.Lowered.header]

theorem intercalate_behindParameter (x : String) (xs : List String) (cs : List Char) :
    (", ".toList).intercalate ((x :: xs).map String.toList) ++ ')' :: ' ' :: '\x7b' :: cs =
      x.toList ++ behindParameter xs cs := by
  induction xs generalizing x with
  | nil => simp [behindParameter]
  | cons y ys ih =>
    rw [List.map_cons, List.map_cons, List.intercalate_cons_cons, List.append_assoc, ← List.map_cons, ih]
    simp [behindParameter]

theorem headed_of_ahead {name : String} {xs : List String} (word : IsWord name) (words : ∀ x ∈ xs, IsWord x)
    (plain : isPlainText cs = true) (scan : Scans noted (.code false false) 0 [] cs)
    (h : Ahead text s ("fn".toList ++ ' ' :: (name.toList ++ '(' ::
      ((", ".toList).intercalate (xs.map String.toList) ++ ')' :: ' ' :: '\x7b' :: cs))) p)
    (enough : s.rest.length < fuel) :
    Parse.Headed (Marks.ofText noted text) name xs (tokensFrom fuel s) := by
  rcases h.word (.of_all rfl rfl) rfl (isBare_of_isWord word) (.inr rfl) enough with
    ⟨cause, fault, -⟩ | ⟨s, q, n, token, h, enough⟩
  · exact nomatch fault
  rw [token]
  rcases h.word word rfl (fun _ => rfl) (.inl rfl) enough with
    ⟨cause, -, fault⟩ | ⟨s, r, n, token, h, enough⟩
  · rw [fault]
    exact .fault
  rw [token]
  cases xs with
  | nil =>
    obtain ⟨s, e, n, token, h, enough⟩ :=
      h.sign tokenAt_empty rfl (List.cons_ne_nil _ _) (fun _ => rfl) (.inr rfl) enough
    rw [token]
    exact .bare (braced_of_ahead plain h scan enough)
  | cons x xs =>
    rw [intercalate_behindParameter] at h
    have first := words x List.mem_cons_self
    obtain ⟨c, hc, starts⟩ := (Option.any_eq_true _ _).mp first.starts
    obtain ⟨parts, hx⟩ := List.head?_eq_some_iff.mp hc
    have opening : s.tokenAt r '(' (x.toList ++ behindParameter xs cs) =
        s.emit (.symbol "(") r ['('] (x.toList ++ behindParameter xs cs) := by
      rw [hx]
      refine tokenAt_opening ?_ ?_ <;>
      · rintro rfl
        exact absurd starts (by decide)
    obtain ⟨s, e, n, token, h, enough⟩ :=
      h.sign opening rfl (List.cons_ne_nil _ _) (isBare_of_isWord first) (.inl rfl) enough
    rw [token]
    exact .listed (spelled_of_ahead plain words scan h enough)

/-- What is declared and captured is read as a function: a header, and a body in braces. -/
theorem headed_textOf (f : Declaration.FnDecl) (name : IsWord f.name) (params : ∀ x ∈ f.params, IsWord x)
    (scan : Scans noted (.code false false) 0 [] (f.body.text.toList ++ ['\x7d']))
    (plain : isPlainText (f.body.text.toList ++ ['\x7d']) = true) :
    Parse.Headed (Marks.ofText noted (Corpus.Lowered.textOf f).toList) f.name f.params
      (tokens (Corpus.Lowered.textOf f)) := by
  have start : Ahead (Corpus.Lowered.textOf f).toList (.ofString (Corpus.Lowered.textOf f))
      ("fn".toList ++ ' ' :: (f.name.toList ++ '(' ::
        ((", ".toList).intercalate (f.params.map String.toList) ++
          ')' :: ' ' :: '\x7b' :: (f.body.text.toList ++ ['\x7d'])))) .start := by
    rw [← toList_textOf]
    refine ⟨rfl, rfl, rfl, ?_, .refl _ _, Nat.le_refl _⟩
    show skip .blank (Corpus.Lowered.textOf f).toList _ = _
    rw [toList_textOf]
    rfl
  refine headed_of_ahead name params plain scan start ?_
  show (Corpus.Lowered.textOf f).toList.length < 2 * (Corpus.Lowered.textOf f).length + 2
  rw [String.length_toList]
  omega

end ScriptHost.Script
