import ScriptHost.Text.Position

/-!
# Position — what is left of a text

A place in a text tells what stands there: behind different numbers of characters the places differ.
-/

namespace ScriptHost.Text

variable {cs ds es : List Char} {p q r : Position} {c : Char}

/-- What goes on so long is all taken. -/
theorem takeWhile_stops {q : Char → Bool} {ds : List Char} (cs : List Char) (parts : ∀ c ∈ ds, q c = true)
    (ends : cs.head?.any q = false) : (ds ++ cs).takeWhile q = ds ∧ (ds ++ cs).dropWhile q = cs := by
  have stop : cs.takeWhile q = [] ∧ cs.dropWhile q = cs := by
    cases cs with
    | nil => exact ⟨rfl, rfl⟩
    | cons c cs =>
      have other : ¬ q c = true := Bool.eq_false_iff.mp ends
      exact ⟨List.takeWhile_cons_of_neg other, List.dropWhile_cons_of_neg other⟩
  rw [List.takeWhile_append_of_pos parts, List.dropWhile_append_of_pos parts, stop.1, stop.2, List.append_nil]
  exact ⟨rfl, rfl⟩

/-- Behind some characters of the text `cs` at `p` the text `ds` at `q` is left. -/
def Remains (cs : List Char) (p : Position) (ds : List Char) (q : Position) : Prop :=
  ∃ taken, cs = taken ++ ds ∧ q = p.after taken

namespace Remains

theorem refl (cs : List Char) (p : Position) : Remains cs p cs p := ⟨[], rfl, rfl⟩

theorem trans (h : Remains cs p ds q) (h' : Remains ds q es r) : Remains cs p es r := by
  obtain ⟨us, rfl, rfl⟩ := h
  obtain ⟨vs, rfl, rfl⟩ := h'
  exact ⟨us ++ vs, (List.append_assoc us vs es).symm, (Position.after_append p us vs).symm⟩

/-- What is left behind the first character is left of the whole. -/
theorem cons (h : Remains cs (p.step c) ds q) : Remains (c :: cs) p ds q := by
  obtain ⟨taken, rfl, rfl⟩ := h
  exact ⟨c :: taken, rfl, rfl⟩

theorem append (taken : List Char) (h : Remains cs (p.after taken) ds q) :
    Remains (taken ++ cs) p ds q :=
  Remains.trans ⟨taken, rfl, rfl⟩ h

theorem length_le (h : Remains cs p ds q) : ds.length ≤ cs.length := by
  obtain ⟨taken, rfl, -⟩ := h
  simp

/-- What is left later is the end of what was left before. -/
theorem suffix (h : Remains cs p ds q) (h' : Remains cs p es r) (shorter : es.length ≤ ds.length) :
    es <:+ ds := by
  obtain ⟨us, split, -⟩ := h
  obtain ⟨vs, split', -⟩ := h'
  exact List.suffix_of_suffix_length_le ⟨vs, split'.symm⟩ ⟨us, split.symm⟩ shorter

/-- A part that is passed is passed in any text. -/
theorem behind {ws : List Char} (h : Remains cs p (ws ++ ds) q) (h' : Remains cs p ds r) :
    r = q.after ws := by
  obtain ⟨us, rfl, rfl⟩ := h
  obtain ⟨vs, split, rfl⟩ := h'
  rw [← List.append_assoc] at split
  rw [← List.append_cancel_right split, Position.after_append]

end Remains

/-! ## Places tell what is left -/

/-- Whether a place stands in front of another. -/
def Position.Before (p q : Position) : Prop := p.line < q.line ∨ p.line = q.line ∧ p.column < q.column

theorem Position.before_step (p : Position) (c : Char) : p.Before (p.step c) := by
  unfold Before step
  split
  · exact .inl (Nat.lt_succ_self _)
  · exact .inr ⟨rfl, Nat.lt_succ_self _⟩

theorem Position.Before.trans (h : p.Before q) (h' : q.Before r) : p.Before r := by
  unfold Before at *
  omega

theorem Position.Before.trans_not (h : p.Before q) (h' : ¬r.Before q) : p.Before r := by
  unfold Before at *
  omega

theorem Position.not_before_trans (h : ¬q.Before p) (h' : ¬r.Before q) : ¬r.Before p := by
  unfold Before at *
  omega

theorem Position.before_after (p : Position) (c : Char) (cs : List Char) :
    p.Before (p.after (c :: cs)) := by
  induction cs generalizing p c with
  | nil => exact before_step p c
  | cons d ds ih => exact (before_step p c).trans (ih (p.step c) d)

/-- What stands behind some characters does not stand in front of them. -/
theorem Position.not_after_before (p : Position) (cs : List Char) : ¬(p.after cs).Before p := by
  cases cs with
  | nil => exact fun h => h.elim (Nat.lt_irrefl _) fun h => Nat.lt_irrefl _ h.2
  | cons c cs =>
    have before := before_after p c cs
    unfold Before at before ⊢
    omega

theorem Remains.not_before (h : Remains cs p ds q) : ¬q.Before p := by
  obtain ⟨taken, -, rfl⟩ := h
  exact Position.not_after_before p taken

theorem Position.line_le_after (p : Position) (cs : List Char) : p.line ≤ (p.after cs).line := by
  cases cs with
  | nil => exact Nat.le_refl _
  | cons c cs => exact (before_after p c cs).elim Nat.le_of_lt fun h => Nat.le_of_eq h.1

theorem Position.after_ne (p : Position) (h : cs ≠ []) : p.after cs ≠ p := by
  obtain ⟨c, cs, rfl⟩ := List.exists_cons_of_ne_nil h
  have before := before_after p c cs
  intro same
  rw [same] at before
  unfold Before at before
  omega

/-- Where the places are the same, the same text is left. -/
theorem Remains.unique (h : Remains cs p ds q) (h' : Remains cs p es q) : ds = es := by
  obtain ⟨us, rfl, rfl⟩ := h
  obtain ⟨vs, split, place⟩ := h'
  -- One of the two is left behind the other, and if it were not at once the places would differ.
  rcases List.append_eq_append_iff.mp split with ⟨more, rfl, rfl⟩ | ⟨more, rfl, rfl⟩
  · rw [Position.after_append] at place
    by_cases none : more = []
    · rw [none, List.nil_append]
    · exact absurd place.symm (Position.after_ne _ none)
  · rw [Position.after_append] at place
    by_cases none : more = []
    · rw [none, List.nil_append]
    · exact absurd place (Position.after_ne _ none)

/-! ## How far characters go -/

/-- Only newlines lead to another line. -/
theorem Position.line_after (p : Position) (cs : List Char) : (p.after cs).line = p.line + cs.count '\n' := by
  induction cs generalizing p with
  | nil => rfl
  | cons c cs ih =>
    rw [after_cons, ih, step, List.count_cons]
    split <;> dsimp only <;> omega

theorem Position.after_of_not_mem (p : Position) (h : '\n' ∉ cs) :
    p.after cs = ⟨p.line, p.column + cs.length⟩ := by
  induction cs generalizing p with
  | nil => rfl
  | cons c cs ih =>
    have other : (c == '\n') = false := beq_false_of_ne fun same => h (same ▸ List.mem_cons_self)
    rw [after_cons, ih _ fun later => h (List.mem_cons_of_mem c later), step, other, List.length_cons]
    exact congrArg _ (show p.column + 1 + cs.length = p.column + (cs.length + 1) by omega)

/-- Behind a newline the column tells nothing of where the line before began. -/
theorem Position.column_after (p q : Position) (h : '\n' ∈ cs) :
    (p.after cs).column = (q.after cs).column := by
  induction cs generalizing p q with
  | nil => exact absurd h List.not_mem_nil
  | cons c cs ih =>
    rw [after_cons, after_cons]
    by_cases later : '\n' ∈ cs
    · exact ih _ _ later
    · have newline : c = '\n' := ((List.mem_cons.mp h).resolve_right later).symm
      rw [after_of_not_mem _ later, after_of_not_mem _ later, newline]
      rfl

theorem Position.column_after_pos (cs : List Char) (h : 0 < p.column) : 0 < (p.after cs).column := by
  induction cs generalizing p with
  | nil => exact h
  | cons c cs ih =>
    refine ih ?_
    unfold step
    split <;> exact Nat.succ_pos _

/-! ## Places told by counting -/

/-- The place of what stands behind the text: a line for every newline, a column for every character behind
    the last of them. -/
def Position.behind (text : List Char) : Position :=
  ⟨1 + text.count '\n', 1 + (text.reverse.takeWhile (· != '\n')).length⟩

theorem Position.behind_concat (text : List Char) (c : Char) : behind (text ++ [c]) = (behind text).step c := by
  unfold behind step
  rw [List.count_append, List.reverse_concat]
  by_cases newline : c = '\n'
  · subst newline
    rw [List.takeWhile_cons_of_neg (by decide)]
    rfl
  · have other : (c == '\n') = false := beq_false_of_ne newline
    rw [List.takeWhile_cons, if_pos (bne_iff_ne.mpr newline), List.count_singleton, other]
    exact congrArg (Position.mk _) (Nat.add_assoc 1 _ 1).symm

/-- The lexer counts so. -/
theorem Position.start_after (text : List Char) : start.after text = behind text := by
  rw [← List.reverse_reverse text]
  induction text.reverse with
  | nil => rfl
  | cons c cs ih => rw [List.reverse_cons, after_append, ih, behind_concat]; rfl

/-- No number of a place is beyond the characters in front of it. -/
theorem Position.behind_le (text : List Char) :
    (behind text).line ≤ 1 + text.length ∧ (behind text).column ≤ 1 + text.length := by
  have lines : text.count '\n' ≤ text.length := List.count_le_length
  have columns := (List.takeWhile_prefix (· != '\n') (l := text.reverse)).length_le
  rw [List.length_reverse] at columns
  exact ⟨Nat.add_le_add_left lines 1, Nat.add_le_add_left columns 1⟩

/-- Nor beyond those of the whole text. -/
theorem Remains.place_le (h : Remains cs .start ds p) : p.line ≤ 1 + cs.length ∧ p.column ≤ 1 + cs.length := by
  obtain ⟨taken, rfl, rfl⟩ := h
  obtain ⟨line, column⟩ := Position.behind_le taken
  rw [Position.start_after, List.length_append]
  omega

/-- The place of a character of a text, told by the number of characters in front of it. -/
def Position.ofIndex (text : String) (k : Nat) : Position := behind (text.toList.take k)

theorem Position.ofIndex_length {text : String} (h : text.toList = cs ++ ds) :
    ofIndex text cs.length = start.after cs := by
  rw [start_after, ofIndex, h, List.take_left]

/-- The place of a character in a part of a text. -/
theorem Position.ofIndex_add {text : String} {k : Nat} (h : text.toList = cs ++ (ds ++ es)) (within : k ≤ ds.length) :
    ofIndex text (cs.length + k) = (start.after cs).after (ds.take k) := by
  have split : text.toList = (cs ++ ds.take k) ++ (ds.drop k ++ es) := by
    rw [h, List.append_assoc, ← List.append_assoc (ds.take k), List.take_append_drop]
  have count : cs.length + k = (cs ++ ds.take k).length := by
    rw [List.length_append, List.length_take, Nat.min_eq_left within]
  rw [count, ofIndex_length split, after_append]

end ScriptHost.Text
