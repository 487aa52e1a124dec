import ScriptHost.Declaration.Lexer
import ScriptHost.Proofs.Text.Position

/-!
# Cursor — a cursor keeps its place in the text

With every token a cursor goes on in the text that it started in, and knows the place of what is left.  A
torn cursor has the place behind the character that it stands in.
-/

namespace ScriptHost.Declaration

open Text (Position Remains)

variable {cs ds : List Char} {p q : Position} {c : Cursor}

/-- A word of a declaration. -/
structure IsWord (w : String) : Prop where
  starts : w.toList.head?.any isWordStart = true
  parts : ∀ c ∈ w.toList, isWordPart c = true

/-- Both can be computed, for a word that is given. -/
theorem IsWord.of_all {w : String} (starts : w.toList.head?.any isWordStart = true)
    (parts : w.toList.all isWordPart = true) : IsWord w := ⟨starts, List.all_eq_true.mp parts⟩

theorem isWordPart_of_isWordStart {x : Char} (starts : isWordStart x = true) : isWordPart x = true := by
  simp only [isWordStart, isWordPart, Char.isAlphanum, Bool.or_eq_true] at starts ⊢
  exact starts.imp_left .inl

theorem isDigit_of_isWordStart {x : Char} (starts : isWordStart x = true) : x.isDigit = false := by
  refine Bool.eq_false_iff.mpr fun digit => ?_
  have above := of_decide_eq_true ((Bool.and_eq_true _ _).mp digit).2
  rcases (Bool.or_eq_true _ _).mp starts with letter | underscore
  · rcases (Bool.or_eq_true _ _).mp letter with upper | lower
    · exact absurd (UInt32.le_trans (of_decide_eq_true upper).1 above) (by decide)
    · have low := of_decide_eq_true ((Bool.and_eq_true _ _).mp lower).1
      exact absurd (UInt32.le_trans low above) (by decide)
  · rw [eq_of_beq underscore] at digit
    exact absurd digit (by decide)

/-- The longest text that goes on like a word is one. -/
theorem isWord_takeWhile {x : Char} (xs : List Char) (starts : isWordStart x = true) :
    IsWord (String.ofList ((x :: xs).takeWhile isWordPart)) := by
  constructor
  · rw [String.toList_ofList, List.takeWhile_cons_of_pos (isWordPart_of_isWordStart starts)]
    simpa using starts
  · rw [String.toList_ofList]
    exact List.all_eq_true.mp List.all_takeWhile

/-! ## 1. Cursors in a text -/

/-- The cursor stands in the text `cs` at `p`. -/
structure Cursor.Within (cs : List Char) (p : Position) (c : Cursor) : Prop where
  place : Remains cs p (if c.torn then c.rest.tail else c.rest) c.position
  suffix : c.rest <:+ cs
  held : c.torn = true → c.rest ≠ []

namespace Cursor

theorem within_of_remains (h : Remains cs p ds q) : Within cs p ⟨ds, q, false⟩ := by
  obtain ⟨taken, rfl, rfl⟩ := h
  exact ⟨⟨taken, rfl, rfl⟩, List.suffix_append taken ds, nofun⟩

theorem Within.trans (h : Remains cs p ds q) (h' : Within ds q c) : Within cs p c := by
  obtain ⟨taken, rfl, rfl⟩ := h
  exact ⟨h'.place.append taken, h'.suffix.trans (List.suffix_append taken ds), h'.held⟩

/-- The place of a whole cursor is that of what is left. -/
theorem Within.remains (h : Within cs p c) (whole : c.torn = false) : Remains cs p c.rest c.position := by
  have place := h.place
  rw [whole] at place
  exact place

/-- A whole cursor stands in what is left. -/
theorem within_rest (whole : c.torn = false) : Within c.rest c.position c := by
  obtain ⟨rest, position, torn⟩ := c
  obtain rfl := whole
  exact within_of_remains (.refl _ _)

end Cursor

open Cursor (Within within_of_remains)

/-! ## 2. Parts of a text -/

theorem within_skip (m : Skipping) (cs : List Char) (p : Position) :
    (skip m cs p).Within cs p ∧ (skip m cs p).torn = false := by
  fun_induction skip m cs p
  case case1 => exact ⟨within_of_remains (.refl _ _), rfl⟩
  case case5 => exact ⟨within_of_remains (.refl _ _), rfl⟩
  all_goals
    rename_i ih
    refine ⟨Within.trans ?_ ih.1, ih.2⟩
    first
    | exact ⟨[_], rfl, rfl⟩
    | exact ⟨[_, _], rfl, rfl⟩

theorem spanNumber_append (fractional : Bool) (cs : List Char) :
    (spanNumber fractional cs).1 ++ (spanNumber fractional cs).2 = cs := by
  fun_induction spanNumber fractional cs <;> simp_all

/-- A token, and the cursor behind it, which stands in the text `cs` at `p`. -/
structure Cursor.Passes (cs : List Char) (p : Position) (t : Token) (c : Cursor) : Prop where
  within : c.Within cs p
  whole : (∀ s, t ≠ .invalid s) → c.torn = false

theorem passes_readString (sofar cs : List Char) (p : Position) :
    Cursor.Passes cs p (readString sofar cs p).1 (readString sofar cs p).2 ∧
      ∀ w, (readString sofar cs p).1 ≠ .ident w := by
  fun_induction readString sofar cs p
  case case4 ih =>
    obtain ⟨⟨within, whole⟩, other⟩ := ih
    exact ⟨⟨within.trans ⟨[_, _], rfl, rfl⟩, whole⟩, other⟩
  case case6 sofar c cs p q _ complaint _ =>
    have within : Within ('\\' :: c :: cs) p ⟨c :: cs, q, true⟩ :=
      ⟨⟨['\\', c], rfl, rfl⟩, List.suffix_cons _ _, fun _ => List.cons_ne_nil _ _⟩
    exact ⟨⟨within, fun h => absurd rfl (h _)⟩, nofun⟩
  case case8 ih =>
    obtain ⟨⟨within, whole⟩, other⟩ := ih
    exact ⟨⟨within.trans ⟨[_], rfl, rfl⟩, whole⟩, other⟩
  case case1 => exact ⟨⟨within_of_remains (.refl _ _), fun _ => rfl⟩, nofun⟩
  case case2 => exact ⟨⟨within_of_remains ⟨[_], rfl, rfl⟩, fun _ => rfl⟩, nofun⟩
  case case3 => exact ⟨⟨within_of_remains ⟨[_], rfl, rfl⟩, fun _ => rfl⟩, nofun⟩
  case case5 => exact ⟨⟨within_of_remains ⟨[_, _], rfl, rfl⟩, fun _ => rfl⟩, nofun⟩
  case case7 => exact ⟨⟨within_of_remains ⟨[_], rfl, rfl⟩, fun _ => rfl⟩, nofun⟩

/-! ## 3. The next token -/

theorem numberToken_ne_ident (taken : List Char) (w : String) : numberToken taken ≠ .ident w := by
  unfold numberToken
  dsimp only
  repeat' split
  all_goals exact nofun

theorem ofSign?_ne_ident {x : Char} {t : Token} (h : Token.ofSign? x = some t) (w : String) :
    t ≠ .ident w := by
  rintro rfl
  unfold Token.ofSign? at h
  split at h <;> simp at h

/-- The next token, and the word that it may be. -/
theorem Cursor.passes_next (h : c.Within cs p) : Cursor.Passes cs p c.next.1.token c.next.2 ∧
    ∀ w, c.next.1.token = .ident w →
      IsWord w ∧ Remains cs p (w.toList ++ c.next.2.rest) c.next.1.position := by
  unfold Cursor.next Cursor.skipBlank
  -- What is left of a torn character is the next token.  Otherwise blanks are skipped, and a character is looked at.
  cases torn : c.torn with
  | true =>
    have place := h.place
    rw [torn] at place
    simp only [if_true]
    cases hr : c.rest with
    | nil => exact absurd hr (h.held torn)
    | cons x xs =>
      rw [hr] at place
      dsimp only
      rw [torn]
      exact ⟨⟨within_of_remains place, fun _ => rfl⟩, nofun⟩
  | false =>
    obtain ⟨within, whole⟩ := within_skip .blank c.rest c.position
    have within := within.trans (h.remains torn)
    simp only [Bool.false_eq_true, if_false]
    generalize skip .blank c.rest c.position = c at *
    have place := within.remains whole
    cases hr : c.rest with
    | nil => exact ⟨⟨within, fun _ => whole⟩, nofun⟩
    | cons x xs =>
      rw [hr] at place
      have behind : Remains cs p xs (c.position.step x) := place.trans ⟨[x], rfl, rfl⟩
      dsimp only
      rw [whole, if_neg Bool.false_ne_true]
      split
      · next t sign =>
        exact ⟨⟨within_of_remains behind, fun _ => rfl⟩, fun w hw => absurd hw (ofSign?_ne_ident sign w)⟩
      · split
        · rcases hs : spanNumber false (x :: xs) with ⟨taken, rest⟩
          have number := spanNumber_append false (x :: xs)
          rw [hs] at number
          refine ⟨⟨within_of_remains (place.trans ⟨taken, number.symm, rfl⟩), fun _ => rfl⟩, fun w hw => ?_⟩
          exact absurd hw (numberToken_ne_ident taken w)
        · split
          · obtain ⟨⟨within, whole⟩, other⟩ := passes_readString [] xs (c.position.step x)
            exact ⟨⟨within.trans behind, whole⟩, fun w hw => absurd hw (other w)⟩
          · split
            -- Only here a word is read; the other branches show that their token is none.
            · next starts =>
              have split : (x :: xs).takeWhile isWordPart ++ (x :: xs).dropWhile isWordPart = x :: xs :=
                List.takeWhile_append_dropWhile
              refine ⟨⟨within_of_remains (place.trans ⟨_, split.symm, rfl⟩), fun _ => rfl⟩, ?_⟩
              rintro w hw
              obtain rfl := Token.ident.inj hw
              refine ⟨isWord_takeWhile xs starts, ?_⟩
              rw [String.toList_ofList]
              exact split.symm ▸ place
            · exact ⟨⟨within_of_remains behind, fun _ => rfl⟩, nofun⟩

end ScriptHost.Declaration
