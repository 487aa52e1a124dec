import Mathlib.Data.List.Induction
import ScriptHost.Declaration.Lexer
import ScriptHost.Proofs.Text.Position

/-!
# Gap — what stands between tokens

Between two tokens there may be blanks, line comments and nested block comments.  What the lexer skips is such a
gap, and it skips all of it; at the end of a text it also takes a line comment without a newline and a block
comment that nothing closes.
-/

namespace ScriptHost.Declaration

open Text (Position)

/-! ## 1. Comments -/

/-- The characters do not begin with a mark that opens or closes a block comment. -/
structure Unmarked (cs : List Char) : Prop where
  opens : ∀ ds, cs ≠ '/' :: '*' :: ds
  closes : ∀ ds, cs ≠ '*' :: '/' :: ds

/-- The inside of a block comment, up to and including the marks that close it and the `depth` comments around
    it. -/
inductive Inside : (depth : Nat) → List Char → Prop
  | close : Inside 0 ['*', '/']
  | outward : Inside d cs → Inside (d + 1) ('*' :: '/' :: cs)
  | inward : Inside (d + 1) cs → Inside d ('/' :: '*' :: cs)
  | other : Unmarked (c :: cs) → Inside d cs → Inside d (c :: cs)

/-- The inside of a block comment that the text leaves open. -/
inductive Open : (depth : Nat) → List Char → Prop
  | ended : Open d []
  | outward : Open d cs → Open (d + 1) ('*' :: '/' :: cs)
  | inward : Open (d + 1) cs → Open d ('/' :: '*' :: cs)
  | other : Unmarked (c :: cs) → Open d cs → Open d (c :: cs)

/-- Blanks and comments. -/
inductive Gap : List Char → Prop
  | none : Gap []
  | blank : isBlank c = true → Gap gs → Gap (c :: gs)
  | line : '\n' ∉ cs → Gap gs → Gap ('/' :: '/' :: (cs ++ '\n' :: gs))
  | block : Inside 0 cs → Gap gs → Gap ('/' :: '*' :: (cs ++ gs))

/-- What may stand behind the last token: a gap, with a line comment at last that no newline ends. -/
inductive Ended : List Char → Prop
  | gap : Gap gs → Ended gs
  | line : Gap gs → '\n' ∉ cs → Ended (gs ++ '/' :: '/' :: cs)

/-- A gap, and a block comment that nothing closes. -/
def LeftOpen (cs : List Char) : Prop := ∃ gs us, Gap gs ∧ Open 0 us ∧ cs = gs ++ '/' :: '*' :: us

/-- What may stand behind the last token so that the lexer finds no more. -/
def Final (cs : List Char) : Prop := Ended cs ∨ LeftOpen cs

/-- No gap begins here. -/
structure IsBare (cs : List Char) : Prop where
  blank : ∀ c ∈ cs.head?, isBlank c = false
  line : ∀ ds, cs ≠ '/' :: '/' :: ds
  block : ∀ ds, cs ≠ '/' :: '*' :: ds

/-! ## 2. What is skipped -/

variable {c : Char} {cs gs us rest : List Char} {p : Position} {d : Nat}

theorem Inside.ne_nil (h : Inside d cs) : cs ≠ [] := by
  cases h <;> exact List.cons_ne_nil _ _

/-- Marks are found in the first two characters. -/
theorem Unmarked.append (h : Unmarked (c :: cs)) (more : cs ≠ []) : Unmarked (c :: (cs ++ rest)) := by
  obtain ⟨x, xs, rfl⟩ := List.exists_cons_of_ne_nil more
  constructor
  · intro ds same
    simp only [List.cons_append, List.cons.injEq] at same
    exact h.opens xs (by rw [same.1, same.2.1])
  · intro ds same
    simp only [List.cons_append, List.cons.injEq] at same
    exact h.closes xs (by rw [same.1, same.2.1])

theorem skip_unmarked (h : Unmarked (c :: cs)) : skip (.block d) (c :: cs) p = skip (.block d) cs (p.step c) := by
  rw [skip]
  · rintro ds rfl rfl
    exact h.opens ds rfl
  · rintro ds - rfl rfl
    exact h.closes ds rfl
  · rintro - ds - rfl rfl
    exact h.closes ds rfl

theorem skip_bare (h : IsBare cs) : skip .blank cs p = ⟨cs, p, false⟩ := by
  cases cs with
  | nil => rfl
  | cons c cs =>
    have solid : isBlank c = false := h.blank c rfl
    rw [skip, solid, if_neg Bool.false_ne_true]
    · rintro ds rfl rfl
      exact h.line ds rfl
    · rintro ds rfl rfl
      exact h.block ds rfl

theorem skip_blank (blank : isBlank c = true) : skip .blank (c :: cs) p = skip .blank cs (p.step c) := by
  have other (k : Char) (solid : isBlank k = false) : c ≠ k := by
    rintro rfl
    exact Bool.false_ne_true (solid.symm.trans blank)
  rw [skip, blank, if_pos rfl]
  · exact fun ds slash => absurd slash (other '/' rfl)
  · exact fun ds slash => absurd slash (other '/' rfl)

theorem skip_line (h : '\n' ∉ cs) : skip .line (cs ++ '\n' :: rest) p = skip .blank rest (p.after (cs ++ ['\n'])) := by
  induction cs generalizing p with
  | nil => rfl
  | cons c cs ih =>
    obtain ⟨other, later⟩ := List.ne_and_not_mem_of_not_mem_cons h
    rw [List.cons_append, skip, if_neg (by simpa using other.symm), ih later]
    rfl

/-- A line comment goes on to the end of the text, if no newline ends it. -/
theorem skip_last_line (h : '\n' ∉ cs) : (skip .line cs p).rest = [] := by
  induction cs generalizing p with
  | nil => rfl
  | cons c cs ih =>
    obtain ⟨other, later⟩ := List.ne_and_not_mem_of_not_mem_cons h
    rw [skip, if_neg (by simpa using other.symm), ih later]

theorem skip_inside (h : Inside d cs) : skip (.block d) (cs ++ rest) p = skip .blank rest (p.after cs) := by
  induction h generalizing p with
  | close => rfl
  | outward _ ih => exact ih
  | inward _ ih => exact ih
  | other unmarked inside ih =>
    rw [List.cons_append, skip_unmarked (unmarked.append inside.ne_nil), ih]
    rfl

/-- A block comment that nothing closes takes the rest of the text. -/
theorem skip_open (h : Open d cs) : (skip (.block d) cs p).rest = [] := by
  induction h generalizing p with
  | ended => rfl
  | outward _ ih => exact ih
  | inward _ ih => exact ih
  | other unmarked _ ih => rw [skip_unmarked unmarked, ih]

/-- The lexer skips a gap. -/
theorem skip_gap (h : Gap gs) : skip .blank (gs ++ rest) p = skip .blank rest (p.after gs) := by
  induction h generalizing p with
  | none => rfl
  | blank blank _ ih =>
    rw [List.cons_append, skip_blank blank, ih]
    rfl
  | @line cs gs other _ ih =>
    show skip .line (cs ++ '\n' :: gs ++ rest) _ = _
    rw [List.append_assoc, List.cons_append, skip_line other, ih]
    simp
  | @block cs gs inside _ ih =>
    show skip (.block 0) (cs ++ gs ++ rest) _ = _
    rw [List.append_assoc, skip_inside inside, ih]
    simp

/-- What may stand behind the last token is all skipped. -/
theorem skip_final (h : Final cs) : (skip .blank cs p).rest = [] := by
  rcases h with h | ⟨gs, us, gap, left, rfl⟩
  · cases h with
    | gap gap =>
      have skipped : skip .blank (cs ++ []) p = skip .blank [] (p.after cs) := skip_gap gap
      rw [List.append_nil] at skipped
      rw [skipped]
      rfl
    | line gap other =>
      rw [skip_gap gap]
      exact skip_last_line other
  · rw [skip_gap gap]
    exact skip_open left

/-! ## 3. Where a gap ends -/

/-- A block comment is closed, or the text leaves it open. -/
theorem open_or_inside (d : Nat) (cs : List Char) : Open d cs ∨ ∃ us rest, Inside d us ∧ cs = us ++ rest := by
  -- A mark takes two characters, and everything else one.
  induction cs using List.twoStepInduction generalizing d with
  | nil => exact .inl .ended
  | singleton c =>
    refine .inl (.other ⟨fun ds same => ?_, fun ds same => ?_⟩ .ended)
    · cases same
    · cases same
  | cons_cons c x cs behind next =>
    by_cases opens : c = '/' ∧ x = '*'
    · obtain ⟨rfl, rfl⟩ := opens
      rcases behind (d + 1) with left | ⟨us, rest, inside, rfl⟩
      · exact .inl left.inward
      · exact .inr ⟨_, rest, inside.inward, rfl⟩
    by_cases closes : c = '*' ∧ x = '/'
    · obtain ⟨rfl, rfl⟩ := closes
      cases d with
      | zero => exact .inr ⟨_, cs, .close, rfl⟩
      | succ d =>
        rcases behind d with left | ⟨us, rest, inside, rfl⟩
        · exact .inl left.outward
        · exact .inr ⟨_, rest, inside.outward, rfl⟩
    have unmarked : Unmarked (c :: x :: cs) := by
      constructor
      · rintro ds ⟨⟩
        exact opens ⟨rfl, rfl⟩
      · rintro ds ⟨⟩
        exact closes ⟨rfl, rfl⟩
    rcases next x d with left | ⟨us, rest, inside, split⟩
    · exact .inl (.other unmarked left)
    · refine .inr ⟨c :: us, rest, .other ⟨?_, ?_⟩ inside, congrArg (c :: ·) split⟩
      · exact fun ds same => unmarked.opens (ds ++ rest) (by rw [split, ← List.cons_append, same]; rfl)
      · exact fun ds same => unmarked.closes (ds ++ rest) (by rw [split, ← List.cons_append, same]; rfl)

theorem Gap.append (h : Gap gs) (h' : Gap us) : Gap (gs ++ us) := by
  induction h with
  | none => exact h'
  | blank blank _ ih => exact .blank blank ih
  | line other _ ih =>
    rw [List.cons_append, List.cons_append, List.append_assoc, List.cons_append]
    exact .line other ih
  | block inside _ ih =>
    rw [List.cons_append, List.cons_append, List.append_assoc]
    exact .block inside ih

theorem Gap.final (h : Gap gs) (h' : Final cs) : Final (gs ++ cs) := by
  rcases h' with ended | ⟨us, vs, gap, left, rfl⟩
  · cases ended with
    | gap gap => exact .inl (.gap (h.append gap))
    | line gap other =>
      rw [← List.append_assoc]
      exact .inl (.line (h.append gap) other)
  · exact .inr ⟨gs ++ us, vs, h.append gap, left, (List.append_assoc _ _ _).symm⟩

/-- Every text begins with a gap, and behind it there is something else or nothing. -/
theorem final_or_gap (cs : List Char) :
    Final cs ∨ ∃ gs rest, Gap gs ∧ IsBare rest ∧ rest ≠ [] ∧ cs = gs ++ rest := by
  induction size : cs.length using Nat.strongRecOn generalizing cs with
  | ind n ih =>
    -- Behind one more blank or comment it is the same again.
    have further (us ds : List Char) (gap : Gap us) (some' : us ≠ []) (split : cs = us ++ ds) :
        Final cs ∨ ∃ gs rest, Gap gs ∧ IsBare rest ∧ rest ≠ [] ∧ cs = gs ++ rest := by
      have shorter : ds.length < n := by
        have := List.length_pos_iff.mpr some'
        rw [← size, split, List.length_append]
        omega
      rcases ih ds.length shorter ds rfl with final | ⟨gs, rest, gap', bare, more, rfl⟩
      · exact .inl (split ▸ gap.final final)
      · exact .inr ⟨us ++ gs, rest, gap.append gap', bare, more, by rw [split, List.append_assoc]⟩
    by_cases line : ∃ ds, cs = '/' :: '/' :: ds
    · obtain ⟨ds, rfl⟩ := line
      by_cases newline : '\n' ∈ ds
      · obtain ⟨us, rest, rfl, other⟩ := List.eq_append_cons_of_mem newline
        refine further ('/' :: '/' :: (us ++ ['\n'])) rest (.line other .none) ?_ ?_
        · exact List.cons_ne_nil _ _
        · simp
      · have last : Ended ([] ++ '/' :: '/' :: ds) := .line .none newline
        exact .inl (.inl last)
    by_cases block : ∃ ds, cs = '/' :: '*' :: ds
    · obtain ⟨ds, rfl⟩ := block
      rcases open_or_inside 0 ds with left | ⟨us, rest, inside, rfl⟩
      · exact .inl (.inr ⟨[], ds, .none, left, rfl⟩)
      · refine further ('/' :: '*' :: (us ++ [])) rest (.block inside .none) ?_ ?_
        · exact List.cons_ne_nil _ _
        · simp
    cases cs with
    | nil => exact .inl (.inl (.gap .none))
    | cons c cs =>
      cases blank : isBlank c with
      | true => exact further [c] cs (.blank blank .none) (List.cons_ne_nil _ _) rfl
      | false =>
        refine .inr ⟨[], c :: cs, .none, ⟨?_, ?_, ?_⟩, List.cons_ne_nil _ _, rfl⟩
        · rintro _ ⟨⟩
          exact blank
        · exact fun ds same => line ⟨ds, same⟩
        · exact fun ds same => block ⟨ds, same⟩

end ScriptHost.Declaration
