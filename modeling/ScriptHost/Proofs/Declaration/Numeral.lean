import ScriptHost.Declaration.Lexer
import ScriptHost.Proofs.Text.Position

/-!
# Numeral — how numbers are written

An integer is a run of digits; a fraction is two of them with a point between, and maybe a power of ten.
Underscores count for nothing.  What the lexer takes for a number is the longest text that goes on like one, and
the token is sound where all of it is a numeral.
-/

namespace ScriptHost.Declaration

open Decimal (natOfDigits)
open Text (takeWhile_stops)

/-- Whether a token stands for itself: it is neither a complaint nor the end of the text. -/
def Token.isSound : Token → Bool
  | .invalid _ | .eof => false
  | _ => true

/-! ## 1. Numerals -/

/-- A digit, or an underscore, which counts for nothing. -/
def isDigitPart (c : Char) : Bool := c.isDigit || c == '_'

/-- A digit, with digits and underscores behind it. -/
structure IsRun (cs : List Char) : Prop where
  starts : cs.head?.any Char.isDigit = true
  parts : ∀ c ∈ cs, isDigitPart c = true

/-- The digits among the characters. -/
def digitsOf (cs : List Char) : List Char := cs.filter (· != '_')

/-- The double nearest to the number with these digits before and behind the point, times that power of ten. -/
def doubleOf (whole fraction : List Char) (power : Int) : Float :=
  Decimal.nearest (natOfDigits (digitsOf whole ++ digitsOf fraction)) (power - (digitsOf fraction).length)

/-- The sign of a power, and whether it makes the power negative. -/
inductive PowerSign : List Char → (negative : Bool) → Prop
  | none : PowerSign [] false
  | plus : PowerSign ['+'] false
  | minus : PowerSign ['-'] true

/-- A number that is not negative, as it is written, and its token. -/
inductive Numeral : List Char → Token → Prop
  | int {ws} : IsRun ws → natOfDigits (digitsOf ws) < 1 <<< 63 → Numeral ws (.int (natOfDigits (digitsOf ws)))
  | fraction {ws fs} : IsRun ws → IsRun fs → Numeral (ws ++ '.' :: fs) (.float (doubleOf ws fs 0))
  | power {ws fs ss ds e negative} : IsRun ws → IsRun fs → (e = 'e' ∨ e = 'E') → PowerSign ss negative →
      (∀ c ∈ ds, isDigitPart c = true) → digitsOf ds ≠ [] →
      Numeral (ws ++ '.' :: (fs ++ e :: (ss ++ ds)))
        (.float (doubleOf ws fs (if negative then -natOfDigits (digitsOf ds) else natOfDigits (digitsOf ds))))

/-- Whether a number with a fraction goes on with the character. -/
def goesOn (c : Char) : Bool := isDigitPart c || c == 'e' || c == 'E'

/-- An integer ends in front of these characters. -/
structure EndsInt (cs : List Char) : Prop where
  digit : cs.head?.any isDigitPart = false
  point : ∀ d ds, cs = '.' :: d :: ds → d.isDigit = false

/-! ## 2. What is taken for a number -/

variable {ws fs ss us cs : List Char} {c e : Char} {b negative : Bool}

theorem spanNumber_parts (parts : ∀ c ∈ ws, isDigitPart c = true) :
    spanNumber b (ws ++ cs) = (ws ++ (spanNumber b cs).1, (spanNumber b cs).2) := by
  induction ws with
  | nil => rfl
  | cons w ws ih =>
    obtain ⟨part, parts⟩ := List.forall_mem_cons.mp parts
    have part : (w.isDigit || w == '_') = true := part
    rw [List.cons_append, spanNumber.eq_def]
    dsimp only
    rw [if_pos part, ih parts]
    rfl

theorem spanNumber_int (h : EndsInt cs) : spanNumber false cs = ([], cs) := by
  cases cs with
  | nil => rfl
  | cons c cs =>
    have digit : (c.isDigit || c == '_') = false := h.digit
    have point (point : c = '.') : cs.head?.any Char.isDigit = false := by
      cases cs with
      | nil => rfl
      | cons d ds => exact h.point d ds (by rw [point])
    rw [spanNumber.eq_def]
    simp [digit]
    exact point

theorem spanNumber_point (fs : List Char) (starts : fs.head?.any Char.isDigit = true) :
    spanNumber false ('.' :: fs) = ('.' :: (spanNumber true fs).1, (spanNumber true fs).2) := by
  rw [spanNumber.eq_def]
  dsimp only
  rw [if_neg (by decide), if_pos (by simp [starts])]

theorem spanNumber_fraction (h : cs.head?.any goesOn = false) : spanNumber true cs = ([], cs) := by
  cases cs with
  | nil => rfl
  | cons c cs =>
    have stops : goesOn c = false := h
    simp only [goesOn, isDigitPart, Bool.or_eq_false_iff] at stops
    rw [spanNumber.eq_def]
    simp [stops]

theorem spanNumber_power (he : e = 'e' ∨ e = 'E') (sign : PowerSign ss negative)
    (unsigned : ss = [] → cs.head?.any (fun c => c == '-' || c == '+') = false) :
    spanNumber true (e :: (ss ++ cs)) = (e :: (ss ++ (spanNumber true cs).1), (spanNumber true cs).2) := by
  have letter : (e.isDigit || e == '_') = false := by rcases he with rfl | rfl <;> decide
  have point : (e == '.' && !true && (ss ++ cs).head?.any Char.isDigit) = false := by simp
  have power : ((e == 'e' || e == 'E') && true) = true := by rcases he with rfl | rfl <;> decide
  rw [spanNumber.eq_def]
  dsimp only
  rw [letter, point, power, if_neg Bool.false_ne_true, if_neg Bool.false_ne_true, if_pos rfl]
  cases sign with
  | plus | minus => rfl
  | none =>
    cases cs with
    | nil => rfl
    | cons c cs =>
      have other : (c == '-' || c == '+') = false := unsigned rfl
      rw [List.nil_append]
      dsimp only
      rw [other, if_neg Bool.false_ne_true]
      rfl

/-! ## 3. The token of a number -/

theorem isDigit_of_mem_digitsOf (parts : ∀ c ∈ ws, isDigitPart c = true) : ∀ c ∈ digitsOf ws, c.isDigit = true := by
  intro c hc
  obtain ⟨mem, other⟩ := List.mem_filter.mp hc
  have part := parts c mem
  rw [isDigitPart, Bool.or_eq_true] at part
  refine part.resolve_right fun same => ?_
  rw [bne, same] at other
  exact Bool.false_ne_true other

theorem digitsOf_append (ws fs : List Char) : digitsOf (ws ++ fs) = digitsOf ws ++ digitsOf fs :=
  List.filter_append ws fs

theorem digitsOf_cons (h : c ≠ '_') : digitsOf (c :: cs) = c :: digitsOf cs :=
  List.filter_cons_of_pos (by simpa using h)

theorem not_contains_point (parts : ∀ c ∈ ws, isDigitPart c = true) : (digitsOf ws).contains '.' = false := by
  rw [List.contains_eq_any_beq, List.any_eq_false]
  intro c hc same
  have digit := isDigit_of_mem_digitsOf parts c hc
  rw [← eq_of_beq same] at digit
  exact absurd digit (by decide)

theorem numberToken_int (parts : ∀ c ∈ ws, isDigitPart c = true) (small : natOfDigits (digitsOf ws) < 1 <<< 63) :
    numberToken ws = .int (natOfDigits (digitsOf ws)) := by
  show (if (digitsOf ws).contains '.' then _ else _) = _
  rw [not_contains_point parts, if_neg Bool.false_ne_true]
  exact if_pos small

/-- The power that is written behind its letter. -/
theorem readPower?_cons (sign : PowerSign ss negative)
    (unsigned : ss = [] → cs.head?.any (fun c => c == '-' || c == '+') = false) :
    readPower? (e :: (ss ++ cs)) =
      if cs.isEmpty || !cs.all Char.isDigit then none
      else some (if negative then -(natOfDigits cs : Int) else natOfDigits cs) := by
  cases sign with
  | plus | minus => rfl
  | none =>
    cases cs with
    | nil => rfl
    | cons c cs =>
      have other : (c == '-' || c == '+') = false := unsigned rfl
      rw [Bool.or_eq_false_iff, beq_eq_false_iff_ne, beq_eq_false_iff_ne] at other
      rw [List.nil_append, readPower?]
      · exact fun _ same => other.1 (List.cons.inj same).1
      · exact fun _ same => other.2 (List.cons.inj same).1

section Point

variable (ws fs cs : List Char) (parts : ∀ c ∈ ws, isDigitPart c = true) (parts' : ∀ c ∈ fs, isDigitPart c = true)
  (ends : (digitsOf cs).head?.any Char.isDigit = false)
include parts parts' ends

/-- What is read of a number with a point in it. -/
theorem readFloat?_point : readFloat? (digitsOf (ws ++ '.' :: (fs ++ cs))) =
    (readPower? (digitsOf cs)).map fun power =>
      Decimal.nearest (natOfDigits (digitsOf ws ++ digitsOf fs)) (power - (digitsOf fs).length) := by
  have spelled : digitsOf (ws ++ '.' :: (fs ++ cs)) = digitsOf ws ++ '.' :: (digitsOf fs ++ digitsOf cs) := by
    rw [digitsOf_append, digitsOf_cons (by decide), digitsOf_append]
  obtain ⟨whole, rest⟩ :=
    takeWhile_stops ('.' :: (digitsOf fs ++ digitsOf cs)) (isDigit_of_mem_digitsOf parts) rfl
  obtain ⟨fraction, behind⟩ := takeWhile_stops (digitsOf cs) (isDigit_of_mem_digitsOf parts') ends
  rw [spelled, readFloat?, whole, rest, List.drop_one, List.tail_cons, fraction, behind]
  cases readPower? (digitsOf cs) <;> rfl

end Point

theorem contains_point (h : '.' ∈ ws) : (digitsOf ws).contains '.' = true :=
  List.contains_iff_mem.mpr (List.mem_filter.mpr ⟨h, rfl⟩)

theorem numberToken_float {x : Float} (point : '.' ∈ ws) (h : readFloat? (digitsOf ws) = some x) :
    numberToken ws = .float x := by
  unfold numberToken
  dsimp only
  rw [← digitsOf, contains_point point, if_pos rfl, h]

theorem numberToken_malformed (point : '.' ∈ ws) (h : readFloat? (digitsOf ws) = none) :
    (numberToken ws).isSound = false := by
  unfold numberToken
  dsimp only
  rw [← digitsOf, contains_point point, if_pos rfl, h]
  rfl

/-- The complaint about an integer that is too large. -/
def tooLarge (ws : List Char) : Token := .invalid s!"integer `{String.ofList (digitsOf ws)}` is out of range"

theorem numberToken_tooLarge (parts : ∀ c ∈ ws, isDigitPart c = true)
    (large : ¬ natOfDigits (digitsOf ws) < 1 <<< 63) : numberToken ws = tooLarge ws := by
  show (if (digitsOf ws).contains '.' then _ else _) = _
  rw [not_contains_point parts, if_neg Bool.false_ne_true]
  exact if_neg large

/-! ## 4. Numerals and nothing else -/

/-- The number ends in front of these characters. -/
def EndsNumber (t : Token) (cs : List Char) : Prop :=
  match t with
  | .int _ => EndsInt cs
  | _ => cs.head?.any goesOn = false

theorem IsRun.ne_nil (h : IsRun ws) : ws ≠ [] := by
  rintro rfl
  exact Bool.false_ne_true h.starts

theorem IsRun.starts_append (h : IsRun ws) : (ws ++ cs).head?.any Char.isDigit = true := by
  have starts := h.starts
  cases ws with
  | nil => exact absurd starts Bool.false_ne_true
  | cons w ws => exact starts

theorem unsigned_of_parts (us cs : List Char) (parts : ∀ c ∈ us, isDigitPart c = true) (some' : us ≠ []) :
    (us ++ cs).head?.any (fun c => c == '-' || c == '+') = false := by
  obtain ⟨u, us, rfl⟩ := List.exists_cons_of_ne_nil some'
  have part := parts u List.mem_cons_self
  have other (k : Char) (sign : isDigitPart k = false) : (u == k) = false := by
    rw [beq_eq_false_iff_ne]
    rintro rfl
    exact Bool.false_ne_true (sign.symm.trans part)
  show (u == '-' || u == '+') = false
  rw [other '-' rfl, other '+' rfl]
  rfl

theorem digitsOf_power (he : e = 'e' ∨ e = 'E') (sign : PowerSign ss negative) :
    digitsOf (e :: (ss ++ us)) = e :: (ss ++ digitsOf us) := by
  have letter : e ≠ '_' := by rcases he with rfl | rfl <;> decide
  rw [digitsOf_cons letter]
  cases sign <;> rfl

theorem not_digit_power (he : e = 'e' ∨ e = 'E') : (e :: us).head?.any Char.isDigit = false := by
  rcases he with rfl | rfl <;> rfl

theorem digitsOf_ne_nil (h : digitsOf us ≠ []) : us ≠ [] := by
  rintro rfl
  exact h rfl

/-- A numeral is taken as a whole, and is read as its token. -/
theorem Numeral.taken {t : Token} (h : Numeral ws t) (ends : EndsNumber t cs) :
    spanNumber false (ws ++ cs) = (ws, cs) ∧ numberToken ws = t := by
  cases h with
  | int run small =>
    refine ⟨?_, numberToken_int run.parts small⟩
    rw [spanNumber_parts run.parts, spanNumber_int ends, List.append_nil]
  | @fraction ws fs run run' =>
    constructor
    · rw [List.append_assoc, List.cons_append, spanNumber_parts run.parts, spanNumber_point _ run'.starts_append,
        spanNumber_parts run'.parts, spanNumber_fraction ends, List.append_nil]
    · refine numberToken_float (by simp) ?_
      have read := readFloat?_point ws fs [] run.parts run'.parts rfl
      rw [List.append_nil] at read
      exact read
  | @power ws fs ss ds e negative run run' he sign parts some' =>
    constructor
    · have split : ws ++ '.' :: (fs ++ e :: (ss ++ ds)) ++ cs = ws ++ '.' :: (fs ++ e :: (ss ++ (ds ++ cs))) := by
        simp
      rw [split, spanNumber_parts run.parts, spanNumber_point _ run'.starts_append, spanNumber_parts run'.parts,
        spanNumber_power he sign fun _ => unsigned_of_parts ds cs parts (digitsOf_ne_nil some'),
        spanNumber_parts parts, spanNumber_fraction ends, List.append_nil]
    · refine numberToken_float (by simp) ?_
      have digits := isDigit_of_mem_digitsOf parts
      have sound : ((digitsOf ds).isEmpty || !(digitsOf ds).all Char.isDigit) = false := by
        rw [List.all_eq_true.mpr digits, List.isEmpty_eq_false_iff.mpr some']
        rfl
      rw [readFloat?_point ws fs _ run.parts run'.parts (digitsOf_power he sign ▸ not_digit_power he),
        digitsOf_power he sign, readPower?_cons sign fun _ => ?_, sound, if_neg Bool.false_ne_true]
      · rfl
      · have unsigned := unsigned_of_parts (digitsOf ds) [] (fun c hc => ?_) some'
        · rwa [List.append_nil] at unsigned
        · rw [isDigitPart, digits c hc]
          rfl

/-- A text goes on with digits and underscores, and behind them with something else. -/
theorem exists_parts (cs : List Char) :
    ∃ us rest, cs = us ++ rest ∧ (∀ c ∈ us, isDigitPart c = true) ∧ rest.head?.any isDigitPart = false := by
  refine ⟨cs.takeWhile isDigitPart, cs.dropWhile isDigitPart, List.takeWhile_append_dropWhile.symm, ?_, ?_⟩
  · exact List.all_eq_true.mp List.all_takeWhile
  · cases behind : cs.dropWhile isDigitPart with
    | nil => rfl
    | cons c rest =>
      have stops := List.head?_dropWhile_not isDigitPart cs
      rw [behind] at stops
      exact stops

theorem exists_run {x : Char} (xs : List Char) (digit : x.isDigit = true) :
    ∃ us rest, x :: xs = us ++ rest ∧ IsRun us ∧ rest.head?.any isDigitPart = false := by
  obtain ⟨us, rest, split, parts, ends⟩ := exists_parts (x :: xs)
  refine ⟨us, rest, split, ⟨?_, parts⟩, ends⟩
  cases us with
  | nil =>
    rw [← List.nil_append rest, ← split] at ends
    have part : isDigitPart x = false := ends
    rw [isDigitPart, digit] at part
    exact absurd part.symm Bool.false_ne_true
  | cons u us =>
    obtain ⟨rfl, -⟩ := List.cons.inj split
    exact digit

theorem exists_powerSign (cs : List Char) :
    ∃ ss rest negative, cs = ss ++ rest ∧ PowerSign ss negative ∧
      (ss = [] → rest.head?.any (fun c => c == '-' || c == '+') = false) := by
  cases cs with
  | nil => exact ⟨[], [], false, rfl, .none, fun _ => rfl⟩
  | cons c cs =>
    by_cases minus : c = '-'
    · exact ⟨['-'], cs, true, by rw [minus]; rfl, .minus, fun none => absurd none (List.cons_ne_nil _ _)⟩
    by_cases plus : c = '+'
    · exact ⟨['+'], cs, false, by rw [plus]; rfl, .plus, fun none => absurd none (List.cons_ne_nil _ _)⟩
    · refine ⟨[], c :: cs, false, rfl, .none, fun _ => ?_⟩
      simp [minus, plus]

theorem letter_of_goesOn (stops : isDigitPart e = false) (on : goesOn e = true) : e = 'e' ∨ e = 'E' := by
  simpa [goesOn, stops] using on

theorem spanNumber_letter (cs : List Char) (he : e = 'e' ∨ e = 'E') : ∃ more, (spanNumber true (e :: cs)).1 = e :: more := by
  obtain ⟨ss, rest, negative, rfl, sign, unsigned⟩ := exists_powerSign cs
  exact ⟨_, congrArg Prod.fst (spanNumber_power he sign unsigned)⟩

theorem endsInt_or_point (ends : cs.head?.any isDigitPart = false) :
    EndsInt cs ∨ ∃ d ds, cs = '.' :: d :: ds ∧ d.isDigit = true := by
  match cs with
  | [] => exact .inl ⟨ends, fun d ds same => nomatch same⟩
  | [c] => exact .inl ⟨ends, fun d ds same => nomatch same⟩
  | c :: d :: ds =>
    by_cases point : c = '.' ∧ d.isDigit = true
    · exact .inr ⟨d, ds, by rw [point.1], point.2⟩
    · refine .inl ⟨ends, fun d' ds' same => ?_⟩
      simp only [List.cons.injEq] at same
      exact Bool.eq_false_iff.mpr fun digit => point ⟨same.1, same.2.1 ▸ digit⟩

/-- A power without digits, or with a second letter behind it, is none. -/
theorem readPower?_letter (sign : PowerSign ss negative) (parts : ∀ c ∈ us, isDigitPart c = true)
    (he : c = 'e' ∨ c = 'E') : readPower? (e :: (ss ++ (digitsOf us ++ c :: cs))) = none := by
  have letter : c.isDigit = false := by rcases he with rfl | rfl <;> rfl
  rw [readPower?_cons sign fun _ => ?_]
  · refine if_pos ?_
    simp [letter]
  · by_cases none : digitsOf us = []
    · rw [none]
      rcases he with rfl | rfl <;> rfl
    · refine unsigned_of_parts (digitsOf us) _ (fun c hc => ?_) none
      rw [isDigitPart, isDigit_of_mem_digitsOf parts c hc]
      rfl

/-- What is taken behind a point makes a numeral, if the token is sound. -/
theorem numeral_of_point {x : Char} {xs taken rest : List Char} (run : IsRun ws) (digit : x.isDigit = true)
    (span : spanNumber true (x :: xs) = (taken, rest))
    (sound : (numberToken (ws ++ '.' :: taken)).isSound = true) :
    Numeral (ws ++ '.' :: taken) (numberToken (ws ++ '.' :: taken)) ∧ rest.head?.any goesOn = false ∧
      ∀ n, numberToken (ws ++ '.' :: taken) ≠ .int n := by
  have point {us : List Char} : '.' ∈ ws ++ '.' :: us := List.mem_append_right _ List.mem_cons_self
  obtain ⟨fs, behind, split, run', ends⟩ := exists_run xs digit
  rw [split, spanNumber_parts run'.parts] at span
  cases stops : behind.head?.any goesOn with
  | false =>
    rw [spanNumber_fraction stops, List.append_nil] at span
    obtain ⟨rfl, rfl⟩ := Prod.mk.inj span
    have numeral := Numeral.fraction run run'
    rw [(numeral.taken stops).2]
    exact ⟨numeral, stops, nofun⟩
  | true =>
    obtain ⟨e, more, rfl⟩ : ∃ e more, behind = e :: more := by
      cases behind with
      | nil => exact absurd stops Bool.false_ne_true
      | cons e more => exact ⟨e, more, rfl⟩
    have he := letter_of_goesOn ends stops
    obtain ⟨ss, power, negative, rfl, sign, unsigned⟩ := exists_powerSign more
    obtain ⟨ds, last, rfl, parts, ends'⟩ := exists_parts power
    rw [spanNumber_power he sign unsigned, spanNumber_parts parts] at span
    have read (us : List Char) := readFloat?_point ws fs (e :: (ss ++ us)) run.parts run'.parts
      (digitsOf_power he sign ▸ not_digit_power he)
    cases stops' : last.head?.any goesOn with
    | false =>
      rw [spanNumber_fraction stops', List.append_nil] at span
      obtain ⟨rfl, rfl⟩ := Prod.mk.inj span
      by_cases some' : digitsOf ds = []
      · -- There are no digits behind the letter.
        have none : readPower? (e :: (ss ++ digitsOf ds)) = none := by
          rw [some', readPower?_cons sign fun _ => rfl]
          rfl
        have read := read ds
        rw [digitsOf_power he sign, none] at read
        rw [numberToken_malformed point read] at sound
        exact absurd sound Bool.false_ne_true
      · have numeral := Numeral.power run run' he sign parts some'
        rw [(numeral.taken stops').2]
        exact ⟨numeral, stops', nofun⟩
    | true =>
      -- There is a second letter.
      obtain ⟨e', more, rfl⟩ : ∃ e' more, last = e' :: more := by
        cases last with
        | nil => exact absurd stops' Bool.false_ne_true
        | cons e more => exact ⟨e, more, rfl⟩
      have he' := letter_of_goesOn ends' stops'
      obtain ⟨more', next⟩ := spanNumber_letter more he'
      rw [next] at span
      obtain ⟨rfl, -⟩ := Prod.mk.inj span
      have other : e' ≠ '_' := by rcases he' with rfl | rfl <;> decide
      have none : readPower? (digitsOf (e :: (ss ++ (ds ++ e' :: more')))) = none := by
        rw [digitsOf_power he sign, digitsOf_append, digitsOf_cons other, readPower?_letter sign parts he']
      have read := read (ds ++ e' :: more')
      rw [none] at read
      rw [numberToken_malformed point read] at sound
      exact absurd sound Bool.false_ne_true

/-- What is taken for a number is a numeral, if its token is sound. -/
theorem numeral_of_span {x : Char} {xs taken rest : List Char} (digit : x.isDigit = true)
    (span : spanNumber false (x :: xs) = (taken, rest)) (sound : (numberToken taken).isSound = true) :
    Numeral taken (numberToken taken) ∧ EndsNumber (numberToken taken) rest := by
  obtain ⟨ws, behind, split, run, ends⟩ := exists_run xs digit
  rw [split, spanNumber_parts run.parts] at span
  rcases endsInt_or_point ends with int | ⟨d, ds, rfl, digit'⟩
  · rw [spanNumber_int int, List.append_nil] at span
    obtain ⟨rfl, rfl⟩ := Prod.mk.inj span
    by_cases small : natOfDigits (digitsOf ws) < 1 <<< 63
    · rw [numberToken_int run.parts small]
      exact ⟨.int run small, int⟩
    · rw [numberToken_tooLarge run.parts small] at sound
      exact absurd sound Bool.false_ne_true
  · rw [spanNumber_point (d :: ds) digit'] at span
    obtain ⟨rfl, rfl⟩ := Prod.mk.inj span
    obtain ⟨numeral, stops, notInt⟩ := numeral_of_point run digit' rfl sound
    refine ⟨numeral, ?_⟩
    unfold EndsNumber
    split
    · next n same => exact absurd same (notInt n)
    · exact stops

end ScriptHost.Declaration
