import ScriptHost.Json.Basic
import ScriptHost.Proofs.Text.Position

/-!
# Numeral — whole numbers read back

A whole number is written with its decimal digits, and the digits are read up to the first character that
cannot go on with the number.
-/

namespace ScriptHost.Json.Numeral

open Text (takeWhile_stops)

/-- What may stand behind a number: it goes on with none of its characters. -/
def Ends (rest : List Char) : Prop :=
  ∀ c ∈ rest.head?, c.isDigit = false ∧ c ≠ '.' ∧ c ≠ 'e' ∧ c ≠ 'E'

variable {rest : List Char} {c : Char}

theorem ends_nil : Ends [] := by simp [Ends]

theorem ends_cons (h : c.isDigit = false ∧ c ≠ '.' ∧ c ≠ 'e' ∧ c ≠ 'E') : Ends (c :: rest) := by
  simpa [Ends] using h

/-! ## 1. Digits -/

theorem isDigit_of_mem_digits {n : Nat} (h : c ∈ Nat.toDigits 10 n) : c.isDigit = true :=
  Nat.isDigit_of_mem_toDigits (by decide) (by decide) h

/-- Only zero is written with a zero in front. -/
theorem zero_in_front {n : Nat} {cs : List Char} (h : Nat.toDigits 10 n = '0' :: cs) : n = 0 := by
  induction n using Nat.strongRecOn generalizing cs with
  | ind n ih =>
    by_cases small : n < 10
    · rw [Nat.toDigits_of_lt_base small] at h
      have only : ∀ n < 10, n.digitChar = '0' → n = 0 := by decide
      exact only n small (List.cons.inj h).1
    · -- The first digit is that of the number without its last one.
      rw [Nat.toDigits_of_base_le (by decide) (Nat.le_of_not_lt small)] at h
      cases front : Nat.toDigits 10 (n / 10) with
      | nil => exact absurd front Nat.toDigits_ne_nil
      | cons d ds =>
        rw [front] at h
        obtain ⟨rfl, -⟩ := List.cons.inj h
        have := ih (n / 10) (by omega) front
        omega

theorem natOfDigits_eq {digits : List Char} (h : ∀ c ∈ digits, c.isDigit = true) :
    Decimal.natOfDigits digits = Nat.ofDigitChars 10 digits 0 := by
  have step : ∀ n, digits.foldl
      (fun n c => if c.isDigit then 10 * n + (c.toNat - '0'.toNat) else n) n =
        Nat.ofDigitChars 10 digits n := by
    induction digits with
    | nil => exact fun _ => rfl
    | cons c digits ih =>
      intro n
      obtain ⟨digit, later⟩ := List.forall_mem_cons.mp h
      rw [List.foldl_cons, if_pos digit, ih later]
      rfl
  exact step 0

theorem natOfDigits_toDigits (n : Nat) : Decimal.natOfDigits (Nat.toDigits 10 n) = n := by
  rw [natOfDigits_eq fun _ => isDigit_of_mem_digits]
  exact Nat.ofDigitChars_toDigits (by decide) (by decide)

/-! ## 2. Reading -/

theorem Ends.digit (ends : Ends rest) : rest.head?.any Char.isDigit = false := by
  cases rest with
  | nil => rfl
  | cons c rest => exact (ends c rfl).1

theorem readWhole?_digits (n : Nat) (ends : Ends rest) :
    readWhole? (Nat.toDigits 10 n ++ rest) = some (Nat.toDigits 10 n, rest) := by
  unfold readWhole?
  split
  · next text split =>
    cases front : Nat.toDigits 10 n with
    | nil => exact absurd front Nat.toDigits_ne_nil
    | cons d ds =>
      rw [front] at split
      obtain ⟨rfl, rfl⟩ := List.cons.inj split
      obtain rfl := zero_in_front front
      obtain ⟨-, rfl⟩ := List.cons.inj front
      rfl
  · obtain ⟨taken, left⟩ := takeWhile_stops rest (fun _ => isDigit_of_mem_digits (n := n)) ends.digit
    simp [taken, left, Nat.toDigits_ne_nil]

theorem readFraction?_of_ends (ends : Ends rest) : readFraction? rest = some ([], rest) := by
  unfold readFraction?
  split
  · exact absurd rfl (ends '.' rfl).2.1
  · rfl

theorem readPower?_of_ends (ends : Ends rest) : readPower? rest = some (none, rest) := by
  cases rest with
  | nil => rfl
  | cons c rest =>
    obtain ⟨-, -, small, large⟩ := ends c rfl
    simp [readPower?, small, large]

theorem write_ofInt (n : Int) :
    (ofInt n).write = (if n < 0 then ['-'] else []) ++ Nat.toDigits 10 n.natAbs := by
  simp [write, ofInt]

/-- A whole number starts with a minus sign or a digit. -/
theorem write_starts (n : Int) :
    ∃ c cs, (ofInt n).write = c :: cs ∧ if n < 0 then c = '-' else c.isDigit = true := by
  rw [write_ofInt]
  by_cases negative : n < 0
  · exact ⟨'-', Nat.toDigits 10 n.natAbs, by simp [negative], by simp [negative]⟩
  · cases front : Nat.toDigits 10 n.natAbs with
    | nil => exact absurd front Nat.toDigits_ne_nil
    | cons d ds =>
      have digit : d.isDigit = true := isDigit_of_mem_digits (front ▸ List.mem_cons_self)
      exact ⟨d, ds, by simp [negative], by simpa [negative] using digit⟩

/-- A whole number is read back, with its sign. -/
theorem read?_write (n : Int) (ends : Ends rest) :
    read? ((ofInt n).write ++ rest) = some (ofInt n, rest) := by
  obtain ⟨c, cs, starts, sign⟩ := write_starts n
  by_cases negative : n < 0
  · rw [write_ofInt, if_pos negative]
    simp [read?, readWhole?_digits _ ends, readFraction?_of_ends ends, readPower?_of_ends ends, ofInt,
      negative]
  · -- No digit is a minus sign, so that the number starts with its digits.
    have front : (((ofInt n).write ++ rest).head? == some '-') = false := by
      rw [if_neg negative] at sign
      have other : c ≠ '-' := by
        rintro rfl
        exact absurd sign (by decide)
      simpa [starts] using other
    rw [write_ofInt, if_neg negative, List.nil_append] at front ⊢
    rw [read?]
    simp only [front, Bool.false_eq_true, if_false, readWhole?_digits _ ends]
    simp [readFraction?_of_ends ends, readPower?_of_ends ends, ofInt, negative]

/-! ## 3. What a number is worth -/

theorem toInt?_ofInt {n low high : Int} (inside : low ≤ n ∧ n ≤ high) :
    (ofInt n).toInt? low high = some n := by
  have notZero : (decide (n < 0) && ((n.natAbs : Int) == 0)) = false := by
    by_cases negative : n < 0
    · have large : ((n.natAbs : Int) == 0) = false := by
        rw [beq_eq_false_iff_ne]
        omega
      rw [large, Bool.and_false]
    · rw [decide_eq_false negative, Bool.false_and]
  have value : (if decide (n < 0) = true then -(n.natAbs : Int) else n.natAbs) = n := by
    by_cases negative : n < 0
    · rw [decide_eq_true negative, if_pos rfl]
      omega
    · rw [decide_eq_false negative, if_neg Bool.false_ne_true]
      omega
  have bounds : (decide (low ≤ n) && decide (n ≤ high)) = true := by
    rw [decide_eq_true inside.1, decide_eq_true inside.2, Bool.and_self]
  unfold toInt? ofInt
  simp only [natOfDigits_toDigits, List.isEmpty_nil, Option.isNone_none, Bool.and_self, if_true, notZero, value,
    bounds, Bool.false_eq_true, if_false]

end ScriptHost.Json.Numeral

namespace ScriptHost.Json

theorem nat?_ofNat {n bound : Nat} (h : n < bound) : (ofNat n).nat? bound = some n := by
  show ((Numeral.ofInt n).toInt? 0 (bound - 1)).map Int.toNat = some n
  rw [Numeral.toInt?_ofInt (by omega)]
  rfl

end ScriptHost.Json
