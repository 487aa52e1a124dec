import ScriptHost.Proofs.Declaration.Body
import ScriptHost.Proofs.Declaration.Cursor
import ScriptHost.Proofs.Script.Enclosed
import ScriptHost.Proofs.Text.Position
import ScriptHost.Reference
import ScriptHost.Script.Lexer

/-!
# Parts — what the lexer and the scan of a body pass alike

A body is captured by a scan that knows strings, comments and templates, and its script is cut into tokens
by a lexer of its own.  Each part that the lexer takes at once is followed here by the scan: blanks and
comments, words, numbers and quoted text.  The two agree on every text but one with raw text, or with a
carriage return in front of anything but a newline.
-/

namespace ScriptHost.Script

open Text (Position Remains)
open Declaration (ModuleRef Scans isSpecial)

variable {noted : List ModuleRef} {b w : Bool} {d : Nat} {o : List Nat} {c : Char} {cs ds : List Char}
  {p : Position}

/-! ## 1. Plain text -/

/-- Text without raw text, whose carriage returns belong to line endings. -/
def isPlainText : List Char → Bool
  | '#' :: '"' :: _ => false
  | '\r' :: cs => cs.head? == some '\n' && isPlainText cs
  | _ :: cs => isPlainText cs
  | [] => true

theorem isPlainText_tail (h : isPlainText (c :: cs) = true) : isPlainText cs = true := by
  unfold isPlainText at h
  split at h
  · exact nomatch h
  · rename_i hc
    obtain ⟨-, rfl⟩ := List.cons.inj hc
    exact (Bool.and_eq_true_iff.mp h).2
  · rename_i hc
    obtain ⟨-, rfl⟩ := List.cons.inj hc
    exact h
  · exact absurd ‹_› (List.cons_ne_nil _ _)

theorem isPlainText_append (h : isPlainText (cs ++ ds) = true) :
    isPlainText ds = true := by
  induction cs with
  | nil => exact h
  | cons c cs ih => exact ih (isPlainText_tail h)

theorem newline_of_isPlainText (h : isPlainText ('\r' :: cs) = true) : cs.head? = some '\n' := by
  have := (Bool.and_eq_true_iff.mp (show (_ && _) = true from h)).1
  exact eq_of_beq this

theorem not_raw_of_isPlainText (h : isPlainText ('#' :: cs) = true) : cs.head? ≠ some '"' := by
  cases cs with
  | nil => exact nofun
  | cons d ds =>
    intro hd
    obtain rfl := Option.some.inj hd
    exact nomatch h

/-- No quote follows hash signs. -/
theorem head?_hashes_of_isPlainText (h : isPlainText ('#' :: cs) = true) :
    (cs.dropWhile (· == '#')).head? ≠ some '"' := by
  induction cs with
  | nil => exact nofun
  | cons c cs ih =>
    rw [List.dropWhile_cons]
    split
    · next hash =>
      obtain rfl := eq_of_beq hash
      exact ih (isPlainText_tail h)
    · exact not_raw_of_isPlainText h

/-! ## 2. Blanks and comments -/

theorem isSpace_eq_isBlank : Declaration.Scan.isSpace c = isBlank c := by
  simp only [Declaration.Scan.isSpace, Declaration.isBlank, isBlank]

theorem isSpecial_of_isBlank (space : isBlank c = true) : isSpecial c cs = false := by
  simp only [isBlank, Bool.or_eq_true, beq_iff_eq] at space
  rcases space with (((rfl | rfl) | rfl) | rfl) | rfl <;> rfl

theorem isWordPart_of_isBlank (space : isBlank c = true) : Declaration.isWordPart c = false := by
  simp only [isBlank, Bool.or_eq_true, beq_iff_eq] at space
  rcases space with (((rfl | rfl) | rfl) | rfl) | rfl <;> rfl

/-- Where the scan stands while the lexer skips. -/
def Skipping.place (b w : Bool) : Skipping → Declaration.Place
  | .blank => .code b w
  | .line => .line b
  | .block n => .block b n

/-- What is skipped in front of a token is passed by the scan too, which is then in no word. -/
theorem scans_skip {m : Skipping} (plain : isPlainText cs = true) (h : Scans noted (m.place b w) d o cs) :
    Remains cs p (skip m cs p).1 (skip m cs p).2 ∧
      (Scans noted (.code b false) d o (skip m cs p).1 ∨
        (skip m cs p).1 = cs ∧ Scans noted (.code b w) d o (skip m cs p).1) := by
  -- Where anything is skipped the scan is in no word afterwards, so that every step goes on with none.
  have behind {cs ds : List Char} (h : Scans noted (.code b false) d o cs ∨
      cs = ds ∧ Scans noted (.code b false) d o cs) : Scans noted (.code b false) d o cs :=
    h.elim id And.right
  fun_induction skip m cs p generalizing w
  case case1 => exact absurd rfl h.ne_nil
  case case2 ih =>
    obtain ⟨rest, scan⟩ := @ih false (isPlainText_tail (isPlainText_tail plain)) h.lineComment
    exact ⟨rest.append, .inl (behind scan)⟩
  case case3 ih =>
    obtain ⟨rest, scan⟩ := @ih false (isPlainText_tail (isPlainText_tail plain)) h.blockComment
    exact ⟨rest.append, .inl (behind scan)⟩
  case case4 c cs p line block space ih =>
    obtain ⟨rest, scan⟩ := @ih false (isPlainText_tail plain) (h.blank (isSpecial_of_isBlank space)
      (isWordPart_of_isBlank space) (isSpace_eq_isBlank.trans space))
    exact ⟨rest.cons, .inl (behind scan)⟩
  case case5 => exact ⟨.refl _ _, .inr ⟨rfl, h⟩⟩
  case case6 cs p ih =>
    obtain ⟨rest, scan⟩ := @ih false (isPlainText_tail (isPlainText_tail plain))
      (h.inLine (by decide)).endLine
    exact ⟨rest.append ['\r', '\n'], .inl (behind scan)⟩
  case case7 c cs p other ends ih =>
    obtain rfl : c = '\n' := by
      rcases Bool.or_eq_true_iff.mp ends with ends | ends <;> rw [beq_iff_eq] at ends
      · exact ends
      · subst ends
        obtain ⟨ds, rfl⟩ := List.head?_eq_some_iff.mp (newline_of_isPlainText plain)
        exact absurd rfl (other ds rfl)
    obtain ⟨rest, scan⟩ := @ih false (isPlainText_tail plain) h.endLine
    exact ⟨rest.cons, .inl (behind scan)⟩
  case case8 c cs p other goes ih =>
    obtain ⟨rest, scan⟩ := @ih false (isPlainText_tail plain) (h.inLine (by rintro rfl; exact goes rfl))
    exact ⟨rest.cons, .inl (behind scan)⟩
  case case9 ih =>
    obtain ⟨rest, scan⟩ := @ih false (isPlainText_tail (isPlainText_tail plain)) h.openBlock
    exact ⟨rest.append, .inl (behind scan)⟩
  case case10 ih =>
    obtain ⟨rest, scan⟩ := @ih false (isPlainText_tail (isPlainText_tail plain)) h.endBlock
    exact ⟨rest.append, .inl (behind scan)⟩
  case case11 ih =>
    obtain ⟨rest, scan⟩ := @ih false (isPlainText_tail (isPlainText_tail plain)) h.closeBlock
    exact ⟨rest.append, .inl (behind scan)⟩
  case case12 n c cs p opens ends closes ih =>
    have inBlock := h.inBlock opens fun ds star slash => by
      cases n with
      | zero => exact ends ds rfl star slash
      | succ n => exact closes n ds rfl star slash
    obtain ⟨rest, scan⟩ := @ih false (isPlainText_tail plain) inBlock
    exact ⟨rest.cons, .inl (behind scan)⟩

/-- Nothing that could be skipped is left. -/
theorem skip_stops {m : Skipping} (h : (skip m cs p).1 = c :: ds) :
    isBlank c = false ∧ (c = '/' → ds.head? ≠ some '/' ∧ ds.head? ≠ some '*') := by
  fun_induction skip m cs p
  case case1 => exact nomatch h
  case case5 c cs p line block space =>
    obtain ⟨rfl, rfl⟩ := List.cons.inj h
    refine ⟨Bool.eq_false_iff.mpr space, fun slash => ⟨fun hd => ?_, fun hd => ?_⟩⟩
    · obtain ⟨ds, rfl⟩ := List.head?_eq_some_iff.mp hd
      exact line ds slash rfl
    · obtain ⟨ds, rfl⟩ := List.head?_eq_some_iff.mp hd
      exact block ds slash rfl
  all_goals
    rename_i ih
    exact ih h

/-! ## 3. Words -/

/-- A module path with this head is in order in no file. -/
def IsForeign (name : String) : Prop :=
  name ≠ Reference.globalNamespace ∧ HostModule.ofName? name = none

/-- If a word goes on here that stands in front of `::`, a foreign head was noted: the scan has joined the
    word to a number in front of it. -/
def Glued (noted : List ModuleRef) (w : Bool) (cs : List Char) : Prop :=
  w = true → cs.head?.any isWordPart = true →
    Declaration.Scan.atPath (cs.dropWhile isWordPart) = true → ∃ r ∈ noted, IsForeign r.name

theorem isSpecial_of_isWordPart (part : isWordPart c = true) : isSpecial c cs = false := by
  refine Bool.eq_false_iff.mpr fun special => ?_
  simp only [isSpecial, Bool.or_eq_true, Bool.and_eq_true, beq_iff_eq, List.contains_iff_mem,
    List.mem_cons, List.not_mem_nil, or_false] at special
  rcases special with ((rfl | rfl | rfl | rfl | rfl) | ⟨rfl, -⟩) | ⟨rfl, -⟩ <;>
    exact absurd part (by decide)

theorem isWordPart_of_isWordStart (starts : isWordStart c = true) : isWordPart c = true :=
  Declaration.isWordPart_of_isWordStart starts

theorem scans_inWord (h : Scans noted (.code b true) d o cs) :
    Scans noted (.code b true) d o (cs.dropWhile isWordPart) := by
  induction cs with
  | nil => exact h
  | cons c cs ih =>
    rw [List.dropWhile_cons]
    split
    · next part => exact ih (h.inWord (isSpecial_of_isWordPart part) part)
    · exact h

/-- A word in front of `::` that does not stand behind one is noted, or joined to a number. -/
theorem scans_word (h : Scans noted (.code b w) d o (c :: cs)) (glued : Glued noted w (c :: cs))
    (behind : b = true → w = false) (starts : isWordStart c = true) :
    Scans noted (.code false true) d o ((c :: cs).dropWhile isWordPart) ∧
      (b = false → Declaration.Scan.atPath ((c :: cs).dropWhile isWordPart) = true →
        ∃ r ∈ noted, r.name = String.ofList ((c :: cs).takeWhile isWordPart) ∨ IsForeign r.name) := by
  have part := isWordPart_of_isWordStart starts
  have special : isSpecial c cs = false := isSpecial_of_isWordPart part
  rw [List.dropWhile_cons_of_pos part]
  cases w with
  | false =>
    obtain ⟨inside, head⟩ := h.word special rfl starts
    refine ⟨scans_inWord inside, fun outside path => ?_⟩
    rw [← List.dropWhile_cons_of_pos part] at path
    obtain ⟨r, hr, name⟩ := head outside path
    exact ⟨r, hr, .inl name⟩
  | true =>
    obtain rfl : b = false := by cases b <;> simp_all
    refine ⟨scans_inWord (h.inWord special part), fun _ path => ?_⟩
    rw [← List.dropWhile_cons_of_pos part] at path
    obtain ⟨r, hr, foreign⟩ := glued rfl (by simpa using part) path
    exact ⟨r, hr, .inr foreign⟩

/-! ## 4. Numbers -/

/-- The scan is in code behind no `::`, and in a word at most where that is joined to a number. -/
def Loose (noted : List ModuleRef) (d : Nat) (o : List Nat) (cs : List Char) : Prop :=
  ∃ w, Scans noted (.code false w) d o cs ∧ Glued noted w cs

/-- What a number makes of a word is the name of no module. -/
theorem isForeign_of_start {name : List Char}
    (start : name.head?.any ['_', 'x', 'X', 'o', 'O', 'b', 'B'].contains = true ∨
      ∃ d ds, name = 'e' :: d :: ds ∧ d.isDigit = true) : IsForeign (String.ofList name) := by
  have differs (word : List Char)
      (known : word.head?.any ['_', 'x', 'X', 'o', 'O', 'b', 'B'].contains = false)
      (letter : word[1]?.any Char.isDigit = false) : String.ofList word ≠ String.ofList name := by
    intro same
    obtain rfl := String.ofList_injective same
    rcases start with start | ⟨d, ds, rfl, digit⟩
    · exact Bool.false_ne_true (known.symm.trans start)
    · exact Bool.false_ne_true (letter.symm.trans (by simpa using digit))
  refine ⟨(differs "global".toList rfl rfl).symm, ?_⟩
  refine List.find?_eq_none.mpr fun m _ => ?_
  rw [beq_iff_eq]
  cases m
  · exact differs "audio".toList rfl rfl
  · exact differs "entity".toList rfl rfl
  · exact differs "input".toList rfl rfl
  · exact differs "math".toList rfl rfl
  · exact differs "physics".toList rfl rfl

/-- A letter of a number.  A word that starts with it is no head of a module path. -/
theorem Loose.letter (h : Loose noted d o (c :: cs)) (starts : isWordStart c = true)
    (foreign : Declaration.Scan.atPath ((c :: cs).dropWhile isWordPart) = true →
      IsForeign (String.ofList ((c :: cs).takeWhile isWordPart))) :
    Scans noted (.code false true) d o cs ∧ Glued noted true cs := by
  have part := isWordPart_of_isWordStart starts
  have plain : isSpecial c cs = false := isSpecial_of_isWordPart part
  obtain ⟨w, h, glued⟩ := h
  cases w with
  | true =>
    refine ⟨h.inWord plain part, fun _ _ path => glued rfl (by simpa using part) ?_⟩
    rwa [List.dropWhile_cons_of_pos part]
  | false =>
    obtain ⟨inside, head⟩ := h.word plain rfl starts
    refine ⟨inside, fun _ _ path => ?_⟩
    rw [← List.dropWhile_cons_of_pos part] at path
    obtain ⟨r, hr, name⟩ := head rfl path
    exact ⟨r, hr, name ▸ foreign path⟩

/-- A character of a number that starts no word. -/
theorem Loose.sign (h : Loose noted d o (c :: cs)) (plain : isSpecial c cs = false)
    (space : isBlank c = false) (starts : isWordStart c = false) : Loose noted d o cs := by
  obtain ⟨w, h, glued⟩ := h
  by_cases inWord : (w && isWordPart c) = true
  · obtain ⟨rfl, part⟩ := Bool.and_eq_true_iff.mp inWord
    refine ⟨true, h.inWord plain part, fun _ _ path => glued rfl (by simpa using part) ?_⟩
    rwa [List.dropWhile_cons_of_pos part]
  · have outside := Bool.eq_false_iff.mpr inWord
    exact ⟨false, h.sign plain outside starts (isSpace_eq_isBlank.trans space), nofun⟩

theorem isWordStart_of_isDigit (digit : c.isDigit = true) : isWordStart c = false :=
  Bool.eq_false_iff.mpr fun starts =>
    Bool.false_ne_true ((Declaration.isDigit_of_isWordStart starts).symm.trans digit)

theorem isWordPart_of_isDigit (digit : c.isDigit = true) : isWordPart c = true := by
  simp [isWordPart, Char.isAlphanum, digit]

theorem isBlank_of_isWordPart (part : isWordPart c = true) : isBlank c = false :=
  Bool.eq_false_iff.mpr fun space =>
    Bool.false_ne_true ((isWordPart_of_isBlank space).symm.trans part)

theorem Loose.digit (h : Loose noted d o (c :: cs)) (digit : c.isDigit = true) : Loose noted d o cs :=
  h.sign (isSpecial_of_isWordPart (isWordPart_of_isDigit digit))
    (isBlank_of_isWordPart (isWordPart_of_isDigit digit)) (isWordStart_of_isDigit digit)

theorem Loose.underscore (h : Loose noted d o ('_' :: cs)) :
    Scans noted (.code false true) d o cs ∧ Glued noted true cs :=
  h.letter rfl fun _ => isForeign_of_start (.inl rfl)

/-- What a decimal number takes. -/
theorem loose_spanDecimal {point power : Bool} (h : Loose noted d o cs) :
    (spanDecimal point power cs).2 <:+ cs ∧ Loose noted d o (spanDecimal point power cs).2 := by
  fun_induction spanDecimal point power cs
  case case1 => exact ⟨List.suffix_refl _, h⟩
  case case2 ih =>
    obtain ⟨rest, loose⟩ := ih ⟨true, h.underscore⟩
    exact ⟨rest.trans (List.suffix_cons _ _), loose⟩
  case case3 taken rest eq ih =>
    rw [eq] at ih
    obtain ⟨rest, loose⟩ := ih (h.sign rfl rfl rfl)
    exact ⟨rest.trans (List.suffix_cons _ _), loose⟩
  case case4 => exact ⟨List.suffix_cons _ _, h.sign rfl rfl rfl⟩
  case case5 => exact ⟨List.suffix_refl _, h⟩
  -- A power, without a sign and with one.
  case case6 e cs digit taken rest eq ih =>
    rw [eq] at ih
    have part : isWordPart e = true := isWordPart_of_isDigit (Bool.and_eq_true_iff.mp digit).2
    have word : (e :: cs).takeWhile isWordPart = e :: cs.takeWhile isWordPart :=
      List.takeWhile_cons_of_pos part
    obtain ⟨rest, loose⟩ := ih ⟨true, h.letter rfl fun _ => isForeign_of_start (.inr
      ⟨e, _, congrArg (List.cons 'e') word, (Bool.and_eq_true_iff.mp digit).2⟩)⟩
    exact ⟨rest.trans (List.suffix_cons _ _), loose⟩
  case case7 e cs _ signed taken rest eq ih =>
    rw [eq] at ih
    have signed : e = '+' ∨ e = '-' := by simpa using (Bool.and_eq_true_iff.mp signed).2
    have behind : Loose noted d o cs := by
      rcases signed with rfl | rfl
      · exact Loose.sign ⟨true, h.letter rfl nofun⟩ rfl rfl rfl
      · exact Loose.sign ⟨true, h.letter rfl nofun⟩ rfl rfl rfl
    obtain ⟨rest, loose⟩ := ih behind
    exact ⟨rest.trans ((List.suffix_cons _ _).trans (List.suffix_cons _ _)), loose⟩
  case case8 => exact ⟨List.suffix_refl _, h⟩
  case case9 digit taken rest eq ih =>
    rw [eq] at ih
    obtain ⟨rest, loose⟩ := ih (h.digit digit)
    exact ⟨rest.trans (List.suffix_cons _ _), loose⟩
  case case10 => exact ⟨List.suffix_refl _, h⟩

theorem isWordPart_of_hexValue? (value : (hexValue? c).isSome = true) : isWordPart c = true := by
  unfold hexValue? at value
  split at value
  · next digit => exact isWordPart_of_isDigit digit
  · split at value
    · next small =>
      simp only [Bool.and_eq_true, decide_eq_true_eq, Char.le_def] at small
      have lower : c.isLower = true := (Bool.and_eq_true _ _).mpr
        ⟨decide_eq_true small.1, decide_eq_true (UInt32.le_trans small.2 (by decide))⟩
      show (c.isUpper || c.isLower || c.isDigit || c == '_') = true
      rw [lower, Bool.or_true, Bool.true_or, Bool.true_or]
    · split at value
      · next large =>
        simp only [Bool.and_eq_true, decide_eq_true_eq, Char.le_def] at large
        have upper : c.isUpper = true :=
          decide_eq_true ⟨large.1, UInt32.le_trans large.2 (by decide)⟩
        show (c.isUpper || c.isLower || c.isDigit || c == '_') = true
        rw [upper, Bool.true_or, Bool.true_or, Bool.true_or]
      · exact absurd value Bool.false_ne_true

/-- What a number to another base takes behind the letter that announces it. -/
theorem loose_spanDigits {radix : Nat} (h : Scans noted (.code false true) d o cs ∧ Glued noted true cs) :
    (spanDigits radix cs).2 <:+ cs ∧ Loose noted d o (spanDigits radix cs).2 := by
  have step {c : Char} {cs : List Char} (part : isWordPart c = true)
      (h : Scans noted (.code false true) d o (c :: cs) ∧ Glued noted true (c :: cs)) :
      Scans noted (.code false true) d o cs ∧ Glued noted true cs := by
    refine ⟨h.1.inWord (isSpecial_of_isWordPart part) part, fun _ _ path => ?_⟩
    exact h.2 rfl (by simpa using part) (by rwa [List.dropWhile_cons_of_pos part])
  fun_induction spanDigits radix cs
  case case1 => exact ⟨List.suffix_refl _, true, h⟩
  case case2 underscore ih =>
    obtain ⟨rest, loose⟩ := ih (step (by rw [eq_of_beq underscore]; rfl) h)
    exact ⟨rest.trans (List.suffix_cons _ _), loose⟩
  case case3 digit taken rest eq ih =>
    rw [eq] at ih
    obtain ⟨n, value, -⟩ := (Option.any_eq_true _ _).mp digit
    have part := isWordPart_of_hexValue? (Option.isSome_of_eq_some value)
    obtain ⟨rest, loose⟩ := ih (step part h)
    exact ⟨rest.trans (List.suffix_cons _ _), loose⟩
  case case4 => exact ⟨List.suffix_refl _, true, h⟩

theorem loose_underscores (h : Loose noted d o cs) : Loose noted d o (cs.dropWhile (· == '_')) := by
  induction cs with
  | nil => exact h
  | cons c cs ih =>
    rw [List.dropWhile_cons]
    split
    · next underscore =>
      obtain rfl := eq_of_beq underscore
      exact ih ⟨true, h.underscore⟩
    · exact h

/-- The letter that announces another base starts the digits, as the scan sees it, or goes on with them. -/
theorem Loose.radix {radix : Nat} (h : Loose noted d o (c :: cs)) (announced : radix? c = some radix) :
    Scans noted (.code false true) d o cs ∧ Glued noted true cs := by
  have letter : c ∈ ['x', 'X', 'o', 'O', 'b', 'B'] := by
    unfold radix? at announced
    split at announced
    · next hc => rcases Bool.or_eq_true_iff.mp hc with hc | hc <;> rw [eq_of_beq hc] <;> decide
    · split at announced
      · next hc => rcases Bool.or_eq_true_iff.mp hc with hc | hc <;> rw [eq_of_beq hc] <;> decide
      · split at announced
        · next hc => rcases Bool.or_eq_true_iff.mp hc with hc | hc <;> rw [eq_of_beq hc] <;> decide
        · exact nomatch announced
  have start : isWordStart c = true := by
    revert letter
    simp only [List.mem_cons, List.not_mem_nil, or_false]
    rintro (rfl | rfl | rfl | rfl | rfl | rfl) <;> rfl
  refine h.letter start fun _ => isForeign_of_start (.inl ?_)
  rw [List.takeWhile_cons_of_pos (isWordPart_of_isWordStart start)]
  simpa using Or.inr letter

/-- A number takes characters from its first digit on, and the scan passes them. -/
theorem loose_numberToken {negative : Bool} (h : Scans noted (.code b w) d o (c :: cs))
    (glued : Glued noted w (c :: cs)) (behind : b = true → w = false) (digit : c.isDigit = true) :
    (numberToken negative (c :: cs)).2 <:+ cs ∧ Loose noted d o (numberToken negative (c :: cs)).2 := by
  -- Behind its first digit the scan is behind no `::` any more.
  have first : Loose noted d o cs := by
    cases b with
    | false => exact Loose.digit ⟨w, h, glued⟩ digit
    | true =>
      obtain rfl := behind rfl
      refine ⟨false, h.sign ?_ rfl ?_ ?_, nofun⟩
      · exact isSpecial_of_isWordPart (isWordPart_of_isDigit digit)
      · exact isWordStart_of_isDigit digit
      · exact isSpace_eq_isBlank.trans (isBlank_of_isWordPart (isWordPart_of_isDigit digit))
  have decimal : (spanDecimal true true (c :: cs)).2 <:+ cs ∧
      Loose noted d o (spanDecimal true true (c :: cs)).2 := by
    have taken : (spanDecimal true true (c :: cs)).2 = (spanDecimal true true cs).2 := by
      rw [spanDecimal.eq_def]
      split
      · exact absurd ‹_› (List.cons_ne_nil _ _)
      · simp_all
      · simp_all
      · simp_all
      · simp_all
    rw [taken]
    exact loose_spanDecimal first
  unfold numberToken
  dsimp only
  split
  · next tail eq =>
    obtain ⟨rfl, rfl⟩ := List.cons.inj eq
    split
    · next letter digits hd =>
      split
      · next radix announced =>
        have announcing := loose_underscores first
        rw [hd] at announcing
        obtain ⟨rest, loose⟩ := loose_spanDigits (announcing.radix announced)
        have suffix : letter :: digits <:+ cs := hd ▸ List.dropWhile_suffix _
        exact ⟨rest.trans ((List.suffix_cons _ _).trans suffix), loose⟩
      · exact decimal
    · exact decimal
  · exact decimal

/-- A number, or a fault. -/
theorem numberToken_cases {negative : Bool} :
    (∃ n, (numberToken negative cs).1 = .int n) ∨ (∃ x, (numberToken negative cs).1 = .float x) ∨
      ∃ cause, (numberToken negative cs).1 = .fault cause := by
  have decimal (taken : List Char) : (∃ n, decimalToken negative taken = .int n) ∨
      (∃ x, decimalToken negative taken = .float x) ∨
      ∃ cause, decimalToken negative taken = .fault cause := by
    unfold decimalToken
    dsimp only
    repeat' split
    all_goals first | exact .inl ⟨_, rfl⟩ | exact .inr (.inl ⟨_, rfl⟩) | exact .inr (.inr ⟨_, rfl⟩)
  have radix (letter : Char) (radix : Nat) (taken : List Char) :
      (∃ n, radixToken negative letter radix taken = .int n) ∨
        (∃ x, radixToken negative letter radix taken = .float x) ∨
          ∃ cause, radixToken negative letter radix taken = .fault cause := by
    unfold radixToken
    dsimp only
    repeat' split
    all_goals first | exact .inl ⟨_, rfl⟩ | exact .inr (.inr ⟨_, rfl⟩)
  unfold numberToken
  dsimp only
  repeat' split
  all_goals first | exact radix _ _ _ | exact decimal _

/-! ## 5. Quoted text -/

/-- Where the scan stands while the lexer reads quoted text. -/
def Quoting.place : Quoting → Declaration.Place
  | .line _ => .quoted '"'
  | .single => .quoted '\''
  | .template => .template

/-- Quoted text that started at `cs` ends where the scan is in code again: behind its closing mark, or in
    front of the brace of an embedded block. -/
def Quoted.Ends (noted : List ModuleRef) (d : Nat) (o : List Nat) (quoting : Quoting) (cs : List Char)
    (p : Position) (q : Quoted) : Prop :=
  match q.ending with
  | .fault .. => True
  | .closed =>
    Remains cs p q.rest q.position ∧ q.rest.length < cs.length ∧ Scans noted (.code false false) d o q.rest
  | .embeds =>
    Remains cs p q.rest q.position ∧ q.rest.length < cs.length ∧ quoting = .template ∧
      ∃ ds, q.rest = '\x7b' :: ds ∧ Scans noted (.code false false) 0 (d :: o) ds

theorem Quoted.Ends.append {quoting : Quoting} {q : Quoted} (taken : List Char)
    (h : q.Ends noted d o quoting cs (p.after taken)) : q.Ends noted d o quoting (taken ++ cs) p := by
  unfold Ends at h ⊢
  have longer : cs.length ≤ (taken ++ cs).length := by simp
  split
  · trivial
  · next closed =>
    rw [closed] at h
    exact ⟨h.1.append taken, by omega, h.2.2⟩
  · next embeds =>
    rw [embeds] at h
    exact ⟨h.1.append taken, by omega, h.2.2⟩

section Texts

variable {quoting : Quoting}

theorem scans_close (h : Scans noted quoting.place d o (quoting.mark :: cs)) :
    Scans noted (.code false false) d o cs := by
  cases quoting with
  | line column => exact h.unquote (by decide)
  | single => exact h.unquote (by decide)
  | template => exact h.endTemplate

theorem scans_open (h : Scans noted (.code b w) d o (quoting.mark :: cs)) :
    Scans noted quoting.place d o cs := by
  cases quoting with
  | line column => exact h.doubleQuote
  | single => exact h.singleQuote
  | template => exact h.backtick

theorem scans_escape (quoted : ¬ (quoting == .template) = true)
    (h : Scans noted quoting.place d o ('\\' :: c :: cs)) : Scans noted quoting.place d o cs := by
  cases quoting with
  | line column => exact h.escape
  | single => exact h.escape
  | template => exact absurd rfl quoted

/-- A character of quoted text without a meaning of its own. -/
theorem scans_char (h : Scans noted quoting.place d o (c :: cs))
    (escapes : ∀ e es, c = '\\' → cs = e :: es → quoting = .template)
    (embeds : ¬ (quoting == .template && c == '$' && cs.head? == some '\x7b') = true)
    (mark : ¬ (c == quoting.mark) = true) (line : ¬ (c == '\n' && quoting != .template) = true) :
    Scans noted quoting.place d o cs := by
  have mark : c ≠ quoting.mark := fun same => mark (beq_iff_eq.mpr same)
  have quoted {k : Char} (place : quoting.place = .quoted k) (differs : quoting ≠ .template)
      (other : c ≠ k) : Scans noted quoting.place d o cs := by
    rw [place] at h ⊢
    refine h.inQuoted (fun escape => ?_) other (fun newline => ?_)
    · cases cs with
      | nil => rfl
      | cons e es => exact absurd (escapes e es escape rfl) differs
    · exact line (by simp [newline, differs])
  cases quoting with
  | line column => exact quoted rfl nofun mark
  | single => exact quoted rfl nofun mark
  | template =>
    refine h.inTemplate mark fun ds dollar brace => embeds ?_
    rw [dollar, brace]
    rfl

theorem codePointText_eq_take (n : Nat) (cs : List Char) :
    codePointText n cs = cs.take (codePointText n cs).length := by
  fun_induction codePointText n cs with
  | case1 => rfl
  | case2 => rfl
  | case3 n c cs digit ih => rw [List.length_cons, List.take_succ_cons, ← ih]
  | case4 => rfl

theorem all_hex_of_mapM {ds : List Char} {vs : List Nat} (h : ds.mapM hexValue? = some vs) :
    ∀ e ∈ ds, (hexValue? e).isSome = true := by
  induction ds generalizing vs with
  | nil => exact fun _ he => absurd he List.not_mem_nil
  | cons e es ih =>
    rw [List.mapM_cons] at h
    obtain ⟨v, hv, h⟩ := Option.bind_eq_some_iff.mp h
    obtain ⟨vs, hvs, -⟩ := Option.bind_eq_some_iff.mp h
    intro x hx
    rcases List.mem_cons.mp hx with rfl | hx
    · exact Option.isSome_of_eq_some hv
    · exact ih hvs x hx

/-- What spells a code point is made of word characters. -/
theorem isWordPart_of_charOfHex? {ds : List Char} {k : Char} (h : charOfHex? ds = some k) :
    ∀ e ∈ ds, isWordPart e = true := by
  obtain ⟨vs, hvs, -⟩ := Option.bind_eq_some_iff.mp h
  intro e he
  have value := all_hex_of_mapM hvs e he
  exact isWordPart_of_hexValue? value

/-- Word characters mean nothing in quoted text. -/
theorem scans_digits {ds : List Char} (quoted : ¬ (quoting == .template) = true)
    (parts : ∀ e ∈ ds, isWordPart e = true) (h : Scans noted quoting.place d o (ds ++ cs)) :
    Scans noted quoting.place d o cs := by
  induction ds with
  | nil => exact h
  | cons e es ih =>
    have part := parts e List.mem_cons_self
    refine ih (fun e he => parts e (List.mem_cons_of_mem _ he)) (scans_char h ?_ ?_ ?_ ?_)
    · rintro _ _ rfl -
      exact absurd part (by decide)
    · simp [quoted]
    · rw [beq_iff_eq]
      rintro rfl
      have other : isWordPart quoting.mark = false := by cases quoting <;> rfl
      exact Bool.false_ne_true (other.symm.trans part)
    · rw [Bool.and_eq_true_iff, beq_iff_eq]
      rintro ⟨rfl, -⟩
      exact absurd part (by decide)

/-- Quoted text is passed by the scan to its end. -/
theorem ends_readText {start : Position} {indent : Nat} (h : Scans noted quoting.place d o cs) :
    (readText quoting start indent cs p).Ends noted d o quoting cs p := by
  fun_induction readText quoting start indent cs p
  case case1 => trivial
  -- In a template a backslash stands for itself.
  case case2 c cs p template ih =>
    obtain rfl := eq_of_beq template
    exact (ih (h.inTemplate (by decide) nofun)).append ['\\']
  case case3 quoted q mark ih => exact (ih (scans_escape quoted h)).append ['\\', _]
  case case4 quoted q _ _ _ ih => exact (ih (scans_escape quoted h)).append ['\\', _]
  -- The digits of a code point are parts of words, so the scan passes them.
  case case5 c cs p quoted q _ _ n _ digits k hex ih =>
    split at hex
    · next enough =>
      have taken : cs = digits ++ cs.drop n := by
        have eq := codePointText_eq_take n cs
        rw [eq_of_beq enough] at eq
        rw [show digits = cs.take n from eq, List.take_append_drop]
      have inside := scans_escape quoted h
      rw [taken] at inside
      have read := ((ih (scans_digits quoted (isWordPart_of_charOfHex? hex) inside)).append digits).append
        ['\\', c]
      rw [← taken] at read
      exact read
    · exact nomatch hex
  case case6 => trivial
  -- The line goes on behind its end.
  case case7 quoted q _ _ _ _ line _ ih =>
    subst line
    exact (ih (scans_escape quoted h)).append ['\\', _]
  case case8 => trivial
  case case9 => trivial
  -- A block is embedded.
  case case10 c cs p _ embeds =>
    simp only [Bool.and_eq_true, beq_iff_eq] at embeds
    obtain ⟨⟨rfl, rfl⟩, brace⟩ := embeds
    obtain ⟨ds, rfl⟩ := List.head?_eq_some_iff.mp brace
    exact ⟨(Remains.refl _ _).cons, Nat.lt_succ_self _, rfl, ds, rfl, h.embed⟩
  -- The scan leaves the text at the first of two marks and enters it again at the second.
  case case11 c p mark e es same _ _ ih =>
    obtain rfl := eq_of_beq same
    obtain rfl := eq_of_beq mark
    exact (ih (scans_open (scans_close h))).append [_, _]
  -- The mark closes the text, which never stands at the end of a body.
  case case12 c p mark e es _ _ _ =>
    obtain rfl := eq_of_beq mark
    exact ⟨(Remains.refl _ _).cons, Nat.lt_succ_self _, scans_close h⟩
  case case13 c p mark _ _ =>
    obtain rfl := eq_of_beq mark
    exact absurd rfl (scans_close h).ne_nil
  case case14 => trivial
  -- A character of its own: three cases, for two kinds of blanks are left out.
  case case15 escapes embeds mark line _ ih =>
    exact (ih (scans_char h (fun e es hc hcs => (escapes e es hc hcs).elim) embeds mark line)).append
      [_]
  case case16 escapes embeds mark line _ _ ih =>
    exact (ih (scans_char h (fun e es hc hcs => (escapes e es hc hcs).elim) embeds mark line)).append
      [_]
  case case17 escapes embeds mark line _ _ ih =>
    exact (ih (scans_char h (fun e es hc hcs => (escapes e es hc hcs).elim) embeds mark line)).append
      [_]

end Texts

end ScriptHost.Script
