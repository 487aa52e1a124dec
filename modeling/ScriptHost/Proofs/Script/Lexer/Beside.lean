import ScriptHost.Proofs.Script.Lexer.Parts

/-!
# Beside — the lexer in a body that was scanned

The lexer stands beside a scan that gets to the brace at the end of the body.  With each token the two stay
beside each other, the open braces of the lexer are those of the scan, and a word in front of `::` is one
that the scan noted.
-/

namespace ScriptHost.Script

open Text (Position Remains)
open Declaration (ModuleRef Scans isSpecial)

variable {noted : List ModuleRef} {text : List Char} {b w : Bool} {d : Nat} {o : List Nat} {c : Char}
  {cs ds : List Char} {p : Position} {s : Scanner} {behind : Bool}

/-! ## 1. Where the lexer stands -/

/-- The braces that are open around the next token. -/
def Scanner.opened (s : Scanner) : Nat := s.depth + s.outer.foldr (· + ·) 0

/-- The lexer and the scan have the same blocks open.  The lexer counts the outermost brace of each, the
    scan does not. -/
structure Scanner.Counts (s : Scanner) (d : Nat) (o : List Nat) : Prop where
  depth : s.depth = d + 1
  outer : s.outer = o.map (· + 1)

/-- The lexer stands beside a scan that gets to the end of the body; `behind` says that `::` is the last
    token. -/
inductive Beside (noted : List ModuleRef) (behind : Bool) (s : Scanner) : Prop
  | code {b w : Bool} {d : Nat} {o : List Nat} (scan : Scans noted (.code b w) d o s.rest)
      (glued : Glued noted w s.rest) (path : b = true → w = false ∧ behind = true)
      (counts : s.Counts d o) (inCode : s.inText = false)
  | text {d : Nat} {o : List Nat} (scan : Scans noted .template d o s.rest) (counts : s.Counts d o)
      (inText : s.inText = true)
  /-- In front of the brace that opens an embedded block. -/
  | embedding {d : Nat} {o : List Nat} {cs : List Char}
      (scan : Scans noted (.code false false) 0 (d :: o) cs)
      (rest : s.rest = '\x7b' :: cs) (depth : s.depth = 0) (outer : s.outer = (d :: o).map (· + 1))
      (inCode : s.inText = false)
  /-- Behind the brace that closes the body. -/
  | done (rest : s.rest = []) (depth : s.depth = 0) (outer : s.outer = []) (inCode : s.inText = false)

/-- The word in front of a `::` is the head of a module path that was noted, unless a foreign one was. -/
def Rooted (noted : List ModuleRef) (text : List Char) (i : Ident) : Prop :=
  ∀ cs, Remains text .start (i.name.toList ++ ':' :: ':' :: cs) i.position →
    ∃ r ∈ noted, r.name = i.name ∨ IsForeign r.name

/-- The places in a text, and the heads of module paths that a scan of it noted. -/
def Marks.ofText (noted : List ModuleRef) (text : List Char) : Marks where
  place p := ∃ cs, Remains text .start cs p
  root i := Rooted noted text i

/-- What the next token of a body is, and where the lexer is behind it. -/
structure Passes (noted : List ModuleRef) (text : List Char) (behind : Bool) (s : Scanner)
    (r : Lexeme × Scanner) : Prop where
  goesOn : r.1.token.isLast = false
  place : (Marks.ofText noted text).place r.1.position
  root : behind = false → ∀ w, r.1.token = .name w → Rooted noted text ⟨w, r.1.position⟩
  opened : r.2.opened = r.1.token.depthBehind s.opened
  beside : Beside noted (r.1.token == .symbol "::") r.2
  rest : Remains text .start r.2.rest r.2.position
  shorter : r.2.rest.length < s.rest.length

/-- The lexer meets a fault, or passes a token. -/
def Goes (noted : List ModuleRef) (text : List Char) (behind : Bool) (s : Scanner)
    (r : Lexeme × Scanner) : Prop :=
  (∃ cause, r.1.token = .fault cause) ∨ Passes noted text behind s r

/-! ## 2. Tokens that leave the braces alone -/

section Code

variable {start : Position} {t : Token} {taken left : List Char}

/-- In code, behind an ordinary token over some characters. -/
theorem goes_emit (ordinary : t.IsOrdinary) (counts : s.Counts d o) (inCode : s.inText = false)
    (rest : Remains text .start (taken ++ left) start) (within : (taken ++ left).length ≤ s.rest.length)
    (some : taken ≠ []) (loose : Loose noted d o left)
    (root : behind = false → ∀ w, t = .name w → Rooted noted text ⟨w, start⟩) :
    Goes noted text behind s (s.emit t start taken left) := by
  rcases ordinary with plain | ⟨cause, rfl⟩
  · obtain ⟨w, scan, glued⟩ := loose
    refine .inr ⟨Token.isLast_of_isPlain plain, ⟨_, rest⟩, root, ?_, ?_, ?_, ?_⟩
    · exact (Token.depthBehind_of_isPlain plain).symm
    · exact .code scan glued nofun ⟨counts.depth, counts.outer⟩ inCode
    · exact rest.trans ⟨taken, rfl, rfl⟩
    · have := List.length_pos_iff.mpr some
      rw [List.length_append] at within
      show left.length < s.rest.length
      omega
  · exact .inl ⟨cause, rfl⟩

/-- Behind quoted text, which started at `cs`. -/
theorem goes_emitText {quoting : Quoting} {make : List Char → Token} {q : Quoted}
    (ends : q.Ends noted d o quoting cs p) (ordinary : (make q.chars).IsOrdinary)
    (named : ∀ w, make q.chars ≠ .name w)
    (counts : s.Counts d o) (inCode : s.inText = false)
    (place : (Marks.ofText noted text).place start) (rest : Remains text .start cs p)
    (within : cs.length ≤ s.rest.length) : Goes noted text behind s (s.emitText make start q) := by
  unfold Quoted.Ends at ends
  unfold Scanner.emitText
  dsimp only
  cases hq : q.ending with
  | closed =>
    rw [hq] at ends
    obtain ⟨left, shorter, scan⟩ := ends
    dsimp only
    rcases ordinary with plain | ⟨cause, fault⟩
    · refine .inr ⟨Token.isLast_of_isPlain plain, place, fun _ w hw => absurd hw (named w), ?_, ?_,
        rest.trans left, Nat.lt_of_lt_of_le shorter within⟩
      · exact (Token.depthBehind_of_isPlain plain).symm
      · exact .code scan nofun nofun ⟨counts.depth, counts.outer⟩ inCode
    · exact .inl ⟨cause, fault⟩
  | embeds =>
    rw [hq] at ends
    obtain ⟨left, shorter, -, ds, brace, scan⟩ := ends
    refine .inr ⟨rfl, place, nofun, ?_, ?_, rest.trans left, Nat.lt_of_lt_of_le shorter within⟩
    · simp [Scanner.opened, Token.depthBehind]
    · exact .embedding scan brace rfl (by simp [counts.depth, counts.outer]) inCode
  | fault cause p => exact .inl ⟨cause, rfl⟩

end Code

/-! ## 3. Signs -/

/-- Whether a character has no meaning to the scan, whatever stands behind it. -/
def isOrdinaryChar (c : Char) : Bool :=
  !isWordPart c && !isBlank c && !(['\x7b', '\x7d', '"', '\'', '`', '/', ':'].contains c)

/-- Whether only the first character of a sign could mean something to the scan: a slash, or a colon. -/
def isOrdinarySign (sign : String) : Bool :=
  match sign.toList with
  | c :: cs => (isOrdinaryChar c || c == '/' || c == ':') && cs.all isOrdinaryChar
  | [] => false

/-- The signs that count for the braces or join a module path. -/
def structuralSigns : List String := ["\x7b", "\x7d", "#\x7b", "::"]

theorem ordinary_or_structural : ∀ sign ∈ signs,
    (foreignSigns.lookup sign).isSome = true ∨ sign ∈ structuralSigns ∨ isOrdinarySign sign = true := by
  decide +kernel

theorem sign_ne_nil : ∀ sign ∈ signs, sign.toList ≠ [] := by
  decide +kernel

theorem ofSign_ne_name {sign word : String} : Token.ofSign sign ≠ .name word := by
  unfold Token.ofSign
  split
  · exact nofun
  · split <;> exact nofun

theorem ofSign_isPlain {sign : String} (foreign : foreignSigns.lookup sign = none)
    (other : sign ∉ structuralSigns) : (Token.ofSign sign).isPlain = true := by
  unfold Token.ofSign
  rw [foreign]
  dsimp only
  split
  · rfl
  · unfold Token.isPlain
    split <;> simp_all [structuralSigns]

theorem count_of_isPlain {t : Token} {r : Lexeme × Scanner} (plain : t.isPlain = true) :
    Scanner.count t r = r := by
  unfold Scanner.count
  dsimp only
  split <;> first | rfl | exact absurd plain (by decide)

/-- The sign that a text goes on with, and what is left behind it. -/
theorem of_sign? {sign : String} (h : sign? cs = some sign) :
    sign ∈ signs ∧ ∃ left, cs = sign.toList ++ left ∧ cs.drop sign.length = left := by
  have starts : sign.toList.isPrefixOf cs = true :=
    List.find?_some (p := fun s : String => s.toList.isPrefixOf cs) h
  obtain ⟨left, rfl⟩ := List.isPrefixOf_iff_prefix.mp starts
  exact ⟨List.mem_of_find?_eq_some h, left, rfl, by simp [← String.length_toList]⟩

/-- Two colons are taken together. -/
theorem sign?_path : sign? (':' :: ':' :: cs) = some "::<" ∨ sign? (':' :: ':' :: cs) = some "::" := by
  show ("::<" :: "::" :: signs.drop 30).find? (fun s => s.toList.isPrefixOf (':' :: ':' :: cs)) =
      some "::<" ∨
    ("::<" :: "::" :: signs.drop 30).find? (fun s => s.toList.isPrefixOf (':' :: ':' :: cs)) = some "::"
  rw [List.find?_cons]
  split
  · exact .inl rfl
  · exact .inr rfl

theorem isSpecial_of_isOrdinaryChar (ordinary : isOrdinaryChar c = true) : isSpecial c cs = false := by
  simp only [isOrdinaryChar, List.contains_eq_mem, Bool.and_eq_true, Bool.not_eq_true'] at ordinary
  simp_all [isSpecial]

theorem scans_ordinary {es : List Char} (h : Scans noted (.code false false) d o (es ++ cs))
    (ordinary : es.all isOrdinaryChar = true) : Scans noted (.code false false) d o cs := by
  induction es with
  | nil => exact h
  | cons e es ih =>
    simp only [List.all_cons, Bool.and_eq_true] at ordinary
    have he := ordinary.1
    simp only [isOrdinaryChar, Bool.and_eq_true, Bool.not_eq_true'] at he
    refine ih (h.sign ?_ rfl (Declaration.isWordStart_of_not_isWordPart he.1.1) ?_) ordinary.2
    · exact isSpecial_of_isOrdinaryChar ordinary.1
    · exact isSpace_eq_isBlank.trans he.1.2

/-- The scan passes an ordinary sign and is then behind no `::` and in no word. -/
theorem scans_sign {sign : String} (ordinary : isOrdinarySign sign = true)
    (h : Scans noted (.code b w) d o (sign.toList ++ cs))
    (slash : ∀ ds, sign.toList ++ cs ≠ '/' :: '/' :: ds ∧ sign.toList ++ cs ≠ '/' :: '*' :: ds)
    (colon : ∀ ds, sign.toList ++ cs ≠ ':' :: ':' :: ds) : Scans noted (.code false false) d o cs := by
  unfold isOrdinarySign at ordinary
  split at ordinary
  · next c es eq =>
    rw [eq] at h slash colon
    obtain ⟨head, tail⟩ := Bool.and_eq_true_iff.mp ordinary
    simp only [Bool.or_eq_true, beq_iff_eq] at head
    -- A slash and a colon are special only in front of some signs, and none of those follows.
    have special : isSpecial c (es ++ cs) = false := by
      rcases head with (head | rfl) | rfl
      · exact isSpecial_of_isOrdinaryChar head
      · cases hes : es ++ cs with
        | nil => rfl
        | cons e ds =>
          have one : e ≠ '/' := fun same => (slash ds).1 (by rw [List.cons_append, hes, same])
          have two : e ≠ '*' := fun same => (slash ds).2 (by rw [List.cons_append, hes, same])
          simp [isSpecial, one, two]
      · cases hes : es ++ cs with
        | nil => rfl
        | cons e ds =>
          have one : e ≠ ':' := fun same => colon ds (by rw [List.cons_append, hes, same])
          simp [isSpecial, one]
    have part : isWordPart c = false := by
      rcases head with (head | rfl) | rfl
      · simp_all [isOrdinaryChar]
      · rfl
      · rfl
    have space : isBlank c = false := by
      rcases head with (head | rfl) | rfl
      · simp_all [isOrdinaryChar]
      · rfl
      · rfl
    refine scans_ordinary (h.sign special ?_ (Declaration.isWordStart_of_not_isWordPart part) ?_) tail
    · exact Bool.and_eq_false_iff.mpr (.inr part)
    · exact isSpace_eq_isBlank.trans space
  · exact nomatch ordinary

section Braces

variable {l : Lexeme}

/-- The outermost brace of an embedded block gives the text of its template back. -/
theorem count_resuming {e : Nat} (depth : s.depth = 1) (outer : s.outer = e :: o) :
    Scanner.count (.symbol "\x7d") (l, s) = (l, { s with depth := e, outer := o, inText := true }) := by
  obtain ⟨rest, position, signed, inText, n, es⟩ := s
  subst depth outer
  rfl

theorem count_closing (depth : s.depth = d + 1) (inner : d = 0 → s.outer = []) :
    Scanner.count (.symbol "\x7d") (l, s) = (l, { s with depth := d }) := by
  obtain ⟨rest, position, signed, inText, n, es⟩ := s
  subst depth
  cases d with
  | zero =>
    obtain rfl : es = [] := inner rfl
    rfl
  | succ d => rfl

/-- Behind a closing brace the lexer is in code, in the text of a template, or at the end of the body. -/
theorem passes_closing {t : Scanner} (scan : Scans noted (.code b w) d o ('\x7d' :: t.rest))
    (counts : t.Counts d o) (inCode : t.inText = false) (place : (Marks.ofText noted text).place p)
    (rest : Remains text .start t.rest t.position) (opened : t.opened = s.opened)
    (shorter : t.rest.length < s.rest.length) :
    Passes noted text behind s (Scanner.count (.symbol "\x7d") (⟨.symbol "\x7d", p⟩, t)) := by
  obtain ⟨depth, outer⟩ := counts
  rw [Scanner.opened, depth, outer] at opened
  cases d with
  | succ d =>
    rw [count_closing depth nofun]
    refine ⟨rfl, place, nofun, ?_, .code scan.closing nofun nofun ⟨rfl, outer⟩ inCode, rest, shorter⟩
    show d + 1 + t.outer.foldr (· + ·) 0 = s.opened - 1
    rw [outer]
    omega
  | zero =>
    cases o with
    | nil =>
      rw [count_closing depth fun _ => outer]
      refine ⟨rfl, place, nofun, ?_, .done scan.last rfl outer inCode, rest, shorter⟩
      show 0 + t.outer.foldr (· + ·) 0 = s.opened - 1
      rw [outer]
      omega
    | cons e o =>
      rw [count_resuming depth outer]
      refine ⟨rfl, place, nofun, ?_, .text scan.resume ⟨rfl, rfl⟩ rfl, rest, shorter⟩
      show e + 1 + (o.map (· + 1)).foldr (· + ·) 0 = s.opened - 1
      rw [List.map_cons, List.foldr_cons] at opened
      omega

end Braces

/-- Behind a sign the braces are counted. -/
theorem goes_sign {sign : String} (scan : Scans noted (.code b w) d o (c :: cs)) (counts : s.Counts d o)
    (inCode : s.inText = false) (rest : Remains text .start (c :: cs) p)
    (within : (c :: cs).length ≤ s.rest.length)
    (comment : c = '/' → cs.head? ≠ some '/' ∧ cs.head? ≠ some '*')
    (found : sign? (c :: cs) = some sign) :
    Goes noted text behind s (Scanner.count (.ofSign sign)
      (s.emit (.ofSign sign) p sign.toList ((c :: cs).drop sign.length))) := by
  obtain ⟨known, left, split, drop⟩ := of_sign? found
  rw [drop]
  have some := sign_ne_nil sign known
  have behindSign : Remains text .start left (p.after sign.toList) :=
    rest.trans ⟨sign.toList, split, rfl⟩
  rcases hf : foreignSigns.lookup sign with _ | advice
  -- Four signs move the scan: the braces, the brace of a map and the sign of a path.  The others leave it in code.
  · by_cases structural : sign ∈ structuralSigns
    · have shorter : left.length < s.rest.length := by
        have := List.length_pos_iff.mpr some
        rw [split, List.length_append] at within
        omega
      simp only [structuralSigns, List.mem_cons, List.not_mem_nil, or_false] at structural
      rcases structural with rfl | rfl | rfl | rfl
      · obtain ⟨rfl, rfl⟩ : c = '\x7b' ∧ cs = left := List.cons.inj split
        refine .inr ⟨rfl, ⟨_, rest⟩, nofun, ?_, ?_, behindSign, shorter⟩
        · show s.depth + 1 + s.outer.foldr (· + ·) 0 = s.opened + 1
          unfold Scanner.opened
          omega
        · exact .code scan.opening nofun nofun ⟨congrArg (· + 1) counts.depth, counts.outer⟩ inCode
      · obtain ⟨rfl, rfl⟩ : c = '\x7d' ∧ cs = left := List.cons.inj split
        refine .inr (passes_closing scan ⟨counts.depth, counts.outer⟩ inCode ⟨_, rest⟩ behindSign rfl ?_)
        exact shorter
      · obtain ⟨rfl, rfl⟩ : c = '#' ∧ cs = '\x7b' :: left := List.cons.inj split
        have inside := (scan.sign rfl (Bool.and_false w) rfl rfl).opening
        refine .inr ⟨rfl, ⟨_, rest⟩, nofun, ?_, ?_, behindSign, shorter⟩
        · show s.depth + 1 + s.outer.foldr (· + ·) 0 = s.opened + 1
          unfold Scanner.opened
          omega
        · exact .code inside nofun nofun ⟨congrArg (· + 1) counts.depth, counts.outer⟩ inCode
      · obtain ⟨rfl, rfl⟩ : c = ':' ∧ cs = ':' :: left := List.cons.inj split
        refine .inr ⟨rfl, ⟨_, rest⟩, nofun, rfl, ?_, behindSign, shorter⟩
        exact .code scan.path nofun (fun _ => ⟨rfl, rfl⟩) ⟨counts.depth, counts.outer⟩ inCode
    · have plain := ofSign_isPlain hf structural
      have ordinary : isOrdinarySign sign = true := by
        rcases ordinary_or_structural sign known with h | h | h
        · rw [hf] at h
          exact nomatch h
        · exact absurd h structural
        · exact h
      rw [count_of_isPlain plain]
      refine goes_emit (.inl plain) counts inCode (split ▸ rest) (split ▸ within) some ?_ ?_
      · refine ⟨false, scans_sign ordinary (split ▸ scan) (fun ds => ⟨fun eq => ?_, fun eq => ?_⟩)
          (fun ds eq => ?_), nofun⟩
        · obtain ⟨slash, rfl⟩ := List.cons.inj (split.trans eq)
          exact (comment slash).1 rfl
        · obtain ⟨slash, rfl⟩ := List.cons.inj (split.trans eq)
          exact (comment slash).2 rfl
        · rw [split, eq] at found
          rcases sign?_path with two | two <;> rw [two] at found <;> obtain rfl := Option.some.inj found
          · exact nomatch hf
          · exact structural (by decide)
      · exact fun _ w hw => absurd hw ofSign_ne_name
  · have fault : Token.ofSign sign = .fault (.foreign advice) := by
      unfold Token.ofSign
      rw [hf]
    rw [fault]
    exact .inl ⟨_, rfl⟩

/-! ## 4. The next token -/

theorem drop_length_takeWhile (q : Char → Bool) (cs : List Char) :
    cs.drop (cs.takeWhile q).length = cs.dropWhile q := by
  induction cs with
  | nil => rfl
  | cons c cs ih =>
    rw [List.takeWhile_cons, List.dropWhile_cons]
    split
    · exact ih
    · rfl

theorem readRaw_fault {hashes : Nat} (h : cs.drop hashes ≠ [] → (cs.drop hashes).head? ≠ some '"') :
    ∃ cause q, (readRaw hashes cs p).ending = .fault cause q := by
  unfold readRaw
  dsimp only
  split
  · next eq => exact absurd (by rw [eq]; rfl) (h (by rw [eq]; exact List.cons_ne_nil _ _))
  · exact ⟨_, _, rfl⟩
  · exact ⟨_, _, rfl⟩

/-- A number, over the characters in front of what is left. -/
theorem goes_number {negative : Bool} {ds : List Char} (counts : s.Counts d o)
    (inCode : s.inText = false) (rest : Remains text .start (c :: cs) p)
    (within : (c :: cs).length ≤ s.rest.length)
    (number : (numberToken negative ds).2 <:+ cs ∧ Loose noted d o (numberToken negative ds).2) :
    Goes noted text behind s (s.emit (numberToken negative ds).1 p
      ((c :: cs).take ((c :: cs).length - (numberToken negative ds).2.length))
      (numberToken negative ds).2) := by
  obtain ⟨suffix, loose⟩ := number
  have split := List.suffix_iff_eq_append.mp (suffix.trans (List.suffix_cons c cs))
  have shorter := suffix.length_le
  refine goes_emit ?_ counts inCode (split.symm ▸ rest) (split.symm ▸ within) ?_ loose ?_
  · rcases numberToken_cases with ⟨n, h⟩ | ⟨x, h⟩ | ⟨cause, h⟩ <;> rw [h]
    · exact .inl rfl
    · exact .inl rfl
    · exact .inr ⟨cause, rfl⟩
  · rw [← List.length_pos_iff, List.length_take]
    simp only [List.length_cons]
    omega
  · intro _ w hw
    rcases numberToken_cases with ⟨n, h⟩ | ⟨x, h⟩ | ⟨cause, h⟩ <;> rw [h] at hw <;> exact nomatch hw

/-- A word.  The head of a module path that it may be was noted. -/
theorem goes_word (scan : Scans noted (.code b w) d o (c :: cs)) (glued : Glued noted w (c :: cs))
    (path : b = true → w = false ∧ behind = true) (counts : s.Counts d o) (inCode : s.inText = false)
    (rest : Remains text .start (c :: cs) p) (within : (c :: cs).length ≤ s.rest.length)
    (starts : isWordStart c = true) :
    Goes noted text behind s (s.emit (.ofWord (String.ofList ((c :: cs).takeWhile isWordPart))) p
      ((c :: cs).takeWhile isWordPart) ((c :: cs).dropWhile isWordPart)) := by
  have part := isWordPart_of_isWordStart starts
  have split : (c :: cs).takeWhile isWordPart ++ (c :: cs).dropWhile isWordPart = c :: cs :=
    List.takeWhile_append_dropWhile
  obtain ⟨inside, head⟩ := scans_word scan glued (fun h => (path h).1) starts
  refine goes_emit (Token.ofWord_ordinary _) counts inCode (split.symm ▸ rest) (split.symm ▸ within) ?_
    ⟨true, inside, ?_⟩ ?_
  · rw [List.takeWhile_cons_of_pos part]
    exact List.cons_ne_nil _ _
  · intro _ goesOn
    obtain ⟨e, he, part⟩ := (Option.any_eq_true _ _).mp goesOn
    have stops := List.head?_dropWhile_not isWordPart (c :: cs)
    rw [he] at stops
    exact absurd part (by simpa using stops)
  · intro outside name hname es there
    obtain rfl := Token.eq_of_ofWord hname
    have same := split.trans (rest.unique there)
    rw [String.toList_ofList] at same
    have behindWord := List.append_cancel_left same
    refine head ?_ ?_
    · cases b
      · rfl
      · exact absurd (path rfl).2 (by simp [outside])
    · rw [behindWord]
      rfl

theorem charToken_ordinary (cs : List Char) :
    (Scanner.charToken cs).IsOrdinary ∧ ∀ w, Scanner.charToken cs ≠ .name w := by
  unfold Scanner.charToken
  split
  · exact ⟨.inl rfl, nofun⟩
  · exact ⟨.inr ⟨_, rfl⟩, nofun⟩

/-- The token that starts with a character of code. -/
theorem goes_tokenAt (scan : Scans noted (.code b w) d o (c :: cs)) (glued : Glued noted w (c :: cs))
    (path : b = true → w = false ∧ behind = true) (counts : s.Counts d o) (inCode : s.inText = false)
    (rest : Remains text .start (c :: cs) p) (within : (c :: cs).length ≤ s.rest.length)
    (plain : isPlainText (c :: cs) = true)
    (comment : c = '/' → cs.head? ≠ some '/' ∧ cs.head? ≠ some '*') :
    Goes noted text behind s (s.tokenAt p c cs) := by
  have place : (Marks.ofText noted text).place p := ⟨_, rest⟩
  have inner : Remains text .start cs (p.step c) := rest.trans ⟨[c], rfl, rfl⟩
  have shorter : cs.length ≤ s.rest.length := Nat.le_of_succ_le within
  unfold Scanner.tokenAt
  dsimp only
  split
  · next digit =>
    exact goes_number counts inCode rest within (loose_numberToken scan glued (fun h => (path h).1) digit)
  split
  -- A minus that belongs to the number behind it.
  · next signed =>
    simp only [Bool.and_eq_true, beq_iff_eq] at signed
    obtain ⟨⟨rfl, -⟩, digit⟩ := signed
    obtain ⟨e, he, digit⟩ := (Option.any_eq_true _ _).mp digit
    obtain ⟨es, rfl⟩ := List.head?_eq_some_iff.mp he
    have behindMinus := scan.sign rfl (Bool.and_false w) rfl rfl
    have number : (numberToken true (e :: es)).2 <:+ es ∧ Loose noted d o (numberToken true (e :: es)).2 :=
      loose_numberToken behindMinus nofun nofun digit
    exact goes_number counts inCode rest within ⟨number.1.trans (List.suffix_cons e es), number.2⟩
  split
  -- Text in quotes, and a character in single ones.
  · next quote =>
    obtain rfl := eq_of_beq quote
    have ends : (readText (.line p.column) p 0 cs (p.step '"')).Ends noted d o (.line p.column) cs
        (p.step '"') := ends_readText scan.doubleQuote
    exact goes_emitText ends (.inl rfl) nofun counts inCode place inner shorter
  split
  · next quote =>
    obtain rfl := eq_of_beq quote
    split
    · exact .inl ⟨_, rfl⟩
    · have ends : (readText .single p 0 cs (p.step '\'')).Ends noted d o .single cs (p.step '\'') :=
        ends_readText scan.singleQuote
      exact goes_emitText ends (charToken_ordinary _).1 (charToken_ordinary _).2 counts inCode place inner
        shorter
  split
  -- A template starts behind the line break that may follow its mark.
  · next tick =>
    obtain rfl := eq_of_beq tick
    have template {skipped body : List Char} (split : cs = skipped ++ body)
        (inside : Scans noted .template d o body) :
        Goes noted text behind s (s.emitText Scanner.textToken p
          (readText .template p 0 body ((p.step '`').after skipped))) := by
      subst split
      have ends : (readText .template p 0 body ((p.step '`').after skipped)).Ends noted d o .template body
          ((p.step '`').after skipped) := ends_readText inside
      refine goes_emitText ends (.inl rfl) nofun counts inCode place (inner.trans ⟨skipped, rfl, rfl⟩) ?_
      rw [List.length_append] at shorter
      omega
    split
    · exact template rfl ((scan.backtick.inTemplate (by decide) nofun).inTemplate (by decide) nofun)
    · exact template rfl (scan.backtick.inTemplate (by decide) nofun)
    · exact template rfl scan.backtick
  split
  -- Raw text: the text is plain, so no quote follows the hash signs, and that is a fault.
  · next hash =>
    simp only [Bool.and_eq_true, beq_iff_eq] at hash
    obtain ⟨rfl, -⟩ := hash
    have raw : ∃ cause q, (readRaw (('#' :: cs).takeWhile (· == '#')).length ('#' :: cs) p).ending =
        .fault cause q := by
      refine readRaw_fault fun _ => ?_
      rw [drop_length_takeWhile, List.dropWhile_cons_of_pos rfl]
      exact head?_hashes_of_isPlainText plain
    obtain ⟨cause, q, fault⟩ := raw
    exact .inl ⟨cause, by rw [Scanner.emitText, fault]⟩
  split
  · next starts => exact goes_word scan glued path counts inCode rest within starts
  split
  -- To the lexer this is one sign, and to the scan a sign and the word behind it.
  · next notIn =>
    unfold startsNotIn at notIn
    split at notIn
    · next es eq =>
      obtain ⟨rfl, rfl⟩ : c = '!' ∧ cs = 'i' :: 'n' :: es := List.cons.inj eq
      have inside := (((scan.sign rfl (Bool.and_false w) rfl rfl).word rfl rfl rfl).1).inWord rfl rfl
      refine goes_emit (.inl rfl) counts inCode rest within (List.cons_ne_nil _ _) ⟨true, inside, ?_⟩ nofun
      intro _ goesOn
      simp_all
    · exact nomatch notIn
  split
  · next found => exact goes_sign scan counts inCode rest within comment found
  · exact .inl ⟨_, rfl⟩

theorem Goes.of_same {t : Scanner} {r : Lexeme × Scanner} (h : Goes noted text behind t r)
    (rest : t.rest = s.rest) (opened : t.opened = s.opened) : Goes noted text behind s r :=
  h.imp_right fun passes => { passes with
    opened := opened ▸ passes.opened
    shorter := rest ▸ passes.shorter }

/-- At the end of the body there are no more tokens. -/
theorem next_of_closed (beside : Beside noted behind s) (closed : s.opened = 0) :
    ∃ q, s.next.1 = ⟨.eof, q⟩ := by
  cases beside with
  | done rest depth outer inCode =>
    refine ⟨s.position, ?_⟩
    unfold Scanner.next
    rw [rest, inCode]
    rfl
  | code scan glued path counts =>
    rw [Scanner.opened, counts.depth] at closed
    omega
  | text scan counts =>
    rw [Scanner.opened, counts.depth] at closed
    omega
  | embedding scan rest depth outer =>
    rw [Scanner.opened, outer, List.map_cons, List.foldr_cons] at closed
    omega

/-- The next token of a body, unless the body is at its end. -/
theorem goes_next (plain : isPlainText s.rest = true) (rest : Remains text .start s.rest s.position)
    (beside : Beside noted behind s) (inside : s.opened ≠ 0) : Goes noted text behind s s.next := by
  cases beside with
  | @code b w d o scan glued path counts inCode =>
    obtain ⟨left, scan⟩ := scans_skip (m := .blank) (p := s.position) plain scan
    unfold Scanner.next
    rw [inCode, if_neg (by simp), if_neg Bool.false_ne_true]
    rcases hs : skip .blank s.rest s.position with ⟨ds, q⟩
    rw [hs] at left scan
    -- Where nothing is skipped the scan may still be in a word that it has joined to a number.
    obtain ⟨w', scan, glued, path⟩ : ∃ w', Scans noted (.code b w') d o ds ∧ Glued noted w' ds ∧
        (b = true → w' = false ∧ behind = true) := by
      rcases scan with scan | ⟨same, scan⟩
      · exact ⟨false, scan, nofun, fun h => ⟨rfl, (path h).2⟩⟩
      · obtain rfl : ds = s.rest := same
        exact ⟨w, scan, glued, path⟩
    cases ds with
    | nil => exact absurd rfl scan.ne_nil
    | cons c cs =>
      have stops : (skip .blank s.rest s.position).1 = c :: cs := congrArg Prod.fst hs
      have stopped := (skip_stops stops).2
      refine goes_tokenAt scan glued path counts inCode (rest.trans left) left.length_le ?_ stopped
      obtain ⟨taken, split, -⟩ := left
      rw [split] at plain
      exact isPlainText_append plain
  | @text d o scan counts inText =>
    have ends : (readText .template s.position 0 s.rest s.position).Ends noted d o .template s.rest
        s.position := ends_readText scan
    have goesOn : s.rest.isEmpty = false := by
      cases hr : s.rest with
      | nil => exact absurd hr scan.ne_nil
      | cons c cs => rfl
    unfold Scanner.next
    rw [inText, goesOn, if_neg (by simp), if_pos rfl]
    refine Goes.of_same (t := { s with inText := false }) ?_ rfl rfl
    have counts : Scanner.Counts { s with inText := false } d o := ⟨counts.depth, counts.outer⟩
    exact goes_emitText ends (.inl rfl) nofun counts rfl ⟨_, rest⟩ rest (Nat.le_refl _)
  | @embedding d o cs scan hr depth outer inCode =>
    have next : s.next = (⟨.symbol "\x7b", s.position⟩, { s with
        rest := cs, position := s.position.step '\x7b', signed := true, depth := s.depth + 1 }) := by
      rw [Scanner.next, if_neg (by simp [inCode]), if_neg (by simp [inCode]), hr]
      rfl
    rw [next]
    rw [hr] at rest
    refine .inr ⟨rfl, ⟨_, rest⟩, nofun, ?_, ?_, rest.trans ⟨['\x7b'], rfl, rfl⟩, ?_⟩
    · show s.depth + 1 + s.outer.sum = s.depth + s.outer.sum + 1
      omega
    · exact .code scan nofun nofun ⟨congrArg (· + 1) depth, outer⟩ inCode
    · rw [hr]
      exact Nat.lt_succ_self _
  | done hr depth outer inCode =>
    rw [Scanner.opened, depth, outer] at inside
    exact absurd rfl inside

/-- The tokens of a body that was scanned to its end are enclosed by its braces. -/
theorem enclosed_tokensFrom {fuel : Nat} (plain : isPlainText s.rest = true)
    (rest : Remains text .start s.rest s.position) (beside : Beside noted behind s)
    (enough : s.rest.length < fuel) :
    Enclosed (Marks.ofText noted text) s.opened behind (tokensFrom fuel s) := by
  -- On the fuel: every token but the last one shortens what is left.
  induction fuel generalizing s behind with
  | zero => exact absurd enough (Nat.not_lt_zero _)
  | succ fuel ih =>
    unfold tokensFrom
    dsimp only
    rcases Nat.eq_zero_or_pos s.opened with closed | inside
    · obtain ⟨q, done⟩ := next_of_closed beside closed
      rw [closed, done]
      exact .done
    · obtain ⟨d, hd⟩ := Nat.exists_eq_add_of_lt inside
      rw [Nat.zero_add] at hd
      rw [hd]
      rcases goes_next plain rest beside (Nat.ne_of_gt inside) with ⟨cause, fault⟩ | passes
      · rw [if_pos (by rw [fault]; rfl)]
        have lexeme : s.next.1 = ⟨.fault cause, s.next.1.position⟩ := by rw [← fault]
        rw [lexeme]
        exact .fault
      · rw [if_neg (by rw [passes.goesOn]; exact Bool.false_ne_true)]
        refine .token passes.goesOn passes.place (fun h w hw _ => passes.root h w hw) ?_
        rw [← hd, ← passes.opened]
        have shorter := passes.shorter
        refine ih ?_ passes.rest passes.beside (by omega)
        obtain ⟨taken, split⟩ := rest.suffix passes.rest (Nat.le_of_lt shorter)
        exact isPlainText_append (split.symm ▸ plain)

end ScriptHost.Script
