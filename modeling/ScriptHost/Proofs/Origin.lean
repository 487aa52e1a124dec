import ScriptHost.Proofs.Corpus.Lowered

/-!
# Origin — places go back to where they were written

A place in the own text of a function is taken back to the file: a place in the body to the same character
there, a place in the header to where the body begins.
-/

namespace ScriptHost

open Declaration (Body FnDecl IsWord)
open Text (Position Remains)

variable {f : FnDecl} {source : List Char} {path : String} {cs taken : List Char} {p : Position}

/-! ## 1. Places of a declared function -/

/-- The place of the brace that closes a body. -/
def Declaration.Body.closing (b : Body) : Position := b.position.after b.text.toList

theorem Declaration.FnDecl.Declared.brace (declared : f.Declared source) :
    ∃ ds, Remains source .start ('\x7d' :: ds) f.body.closing := by
  obtain ⟨ds, bodied⟩ := declared.bodied
  exact ⟨ds, bodied.trans ⟨f.body.text.toList, rfl, rfl⟩⟩

/-- The location lies in a function that the file declares: from the line of its name to the line of the
    brace that closes its body. -/
structure Location.Inside (l : Location) (path : String) (f : FnDecl) : Prop where
  path : l.path = path
  behind : f.position.line ≤ l.line
  before : l.line ≤ f.body.closing.line

/-! ## 2. Places in its own text -/

namespace Origin

/-- On the first line the characters behind the header are counted. -/
theorem map_first (o : Origin) {n : Nat} (pos : 0 < n) :
    o.map (some ⟨1, n⟩) = ⟨o.path, o.body.line, o.body.column + (n - (o.header + 1))⟩ := by
  have column : (if (n == 0) = true then 1 else n) = n := if_neg (by simp; omega)
  unfold map
  dsimp only
  rw [if_pos (Nat.le_refl 1), column]

/-- From the second line on the columns are those of the file. -/
theorem map_later (o : Origin) (line : 1 < p.line) (pos : 0 < p.column) :
    o.map (some p) = ⟨o.path, o.body.line + p.line - 1, p.column⟩ := by
  have column : (if (p.column == 0) = true then 1 else p.column) = p.column := if_neg (by simp; omega)
  unfold map
  dsimp only
  rw [if_neg (Nat.not_le.mpr line), column]

/-- No column up to that behind the header, the missing one included, goes beyond where the body begins. -/
theorem map_column (o : Origin) {column : Nat} (within : column ≤ o.header + 1) :
    o.map (some ⟨1, column⟩) = .atPosition o.path o.body := by
  have none : (if (column == 0) = true then 1 else column) - (o.header + 1) = 0 := by
    split <;> omega
  unfold map
  dsimp only
  rw [if_pos (Nat.le_refl 1), none]
  rfl

end Origin

namespace Corpus.Lowered

theorem textOf_eq (f : FnDecl) :
    (textOf f).toList = (header f).toList ++ (f.body.text.toList ++ ['\x7d']) := by
  simp [textOf]

theorem newline_not_mem_of_isWord {w : String} (word : IsWord w) : '\n' ∉ w.toList :=
  fun h => absurd (word.parts _ h) (by decide)

theorem newline_not_mem_listed {xs : List String} (words : ∀ x ∈ xs, IsWord x) :
    '\n' ∉ [',', ' '].intercalate (xs.map String.toList) := by
  induction xs with
  | nil => simp
  | cons x xs ih =>
    have first := newline_not_mem_of_isWord (words x List.mem_cons_self)
    have others := ih fun y hy => words y (List.mem_cons_of_mem x hy)
    cases xs with
    | nil => simpa using first
    | cons y ys => simpa [List.intercalate_cons_cons, first] using others

/-- A header is one line. -/
theorem newline_not_mem_header (declared : f.Declared source) : '\n' ∉ (header f).toList := by
  have inName := newline_not_mem_of_isWord declared.name
  have inParams := newline_not_mem_listed declared.params
  simp [header, inName, inParams]

theorem after_header (declared : f.Declared source) :
    Position.start.after (header f).toList = ⟨1, (header f).length + 1⟩ := by
  rw [Position.after_of_not_mem _ (newline_not_mem_header declared), String.length_toList, Nat.add_comm]
  rfl

/-- A place in the body goes back to the same character of the body. -/
theorem map_body (declared : f.Declared source) (taken : List Char) :
    (originOf path f).map (some (Position.start.after ((header f).toList ++ taken))) =
      .atPosition path (f.body.position.after taken) := by
  rw [Position.after_append, after_header declared]
  by_cases newline : '\n' ∈ taken
  · have lines : 0 < taken.count '\n' := List.count_pos_iff.mpr newline
    have line := Position.line_after ⟨1, (header f).length + 1⟩ taken
    have there := Position.line_after f.body.position taken
    have column := Position.column_after ⟨1, (header f).length + 1⟩ f.body.position newline
    dsimp only at line
    refine (Origin.map_later _ (by omega) (Position.column_after_pos taken (Nat.succ_pos _))).trans ?_
    rw [line, column, Location.atPosition, there]
    show Location.mk path (f.body.position.line + (1 + taken.count '\n') - 1) _ = ⟨path, _, _⟩
    congr 1
    omega
  · rw [Position.after_of_not_mem _ newline, Position.after_of_not_mem _ newline]
    refine (Origin.map_first _ (Nat.add_pos_left (Nat.succ_pos _) _)).trans ?_
    show Location.mk path _ (f.body.position.column + ((header f).length + 1 + taken.length -
      ((header f).length + 1))) = ⟨path, _, _⟩
    rw [Nat.add_sub_cancel_left]
    rfl

/-- A place in the header goes back to where the body begins. -/
theorem map_header (declared : f.Declared source) (inHeader : taken <+: (header f).toList) :
    (originOf path f).map (some (Position.start.after taken)) = .atPosition path f.body.position := by
  have line : '\n' ∉ taken := fun h => newline_not_mem_header declared (inHeader.subset h)
  have width : taken.length ≤ (header f).length := String.length_toList ▸ inHeader.length_le
  have column : 1 + taken.length ≤ (header f).length + 1 := by omega
  rw [Position.after_of_not_mem _ line]
  exact Origin.map_column (originOf path f) column

theorem map_place (declared : f.Declared source) (h : Remains (textOf f).toList .start cs p) :
    ∃ taken, taken <+: f.body.text.toList ++ ['\x7d'] ∧
      (originOf path f).map (some p) = .atPosition path (f.body.position.after taken) := by
  obtain ⟨taken, split, rfl⟩ := h
  rw [textOf_eq] at split
  rcases List.append_eq_append_iff.mp split with ⟨more, rfl, behind⟩ | ⟨more, inHeader, -⟩
  · exact ⟨more, ⟨cs, behind.symm⟩, map_body declared more⟩
  · exact ⟨[], List.nil_prefix, map_header declared ⟨more, inHeader.symm⟩⟩

/-- Every place of a declared function goes back into it. -/
theorem inside_of_place (declared : f.Declared source) (h : Remains (textOf f).toList .start cs p) :
    ((originOf path f).map (some p)).Inside path f := by
  obtain ⟨taken, ⟨behind, split⟩, same⟩ := map_place declared h
  rw [same]
  refine ⟨rfl, Nat.le_trans declared.inOrder (Position.line_le_after _ _), ?_⟩
  -- The brace is on the line on which the body ends.
  have last : (f.body.position.after (f.body.text.toList ++ ['\x7d'])).line = f.body.closing.line := by
    rw [Position.after_append]
    rfl
  rw [← last, ← split, Position.after_append]
  exact Position.line_le_after _ _

/-- Without a place it is the function as a whole. -/
theorem inside_of_none (declared : f.Declared source) : ((originOf path f).map none).Inside path f where
  path := rfl
  behind := Nat.le_refl _
  before := Nat.le_trans declared.inOrder (Position.line_le_after _ _)

/-! ## 3. Character by character -/

/-- The own text of a function retraces the file, where its name stands behind `ahead` characters and its body
    begins behind `first`. -/
structure Retraces (path source : String) (f : FnDecl) (ahead first : Nat) : Prop where
  /-- From the name on the file has the header as it was written, the body and the brace that closes it. -/
  written : ∃ head behind, first = ahead + f.name.length + head.length + 1 ∧ source.toList.drop ahead =
    f.name.toList ++ (head ++ '\x7b' :: (f.body.text.toList ++ '\x7d' :: behind))
  /-- What stands in the body, or closes it, goes back to where it stands in the file. -/
  body : ∀ k c, (f.body.text.toList ++ ['\x7d'])[k]? = some c →
    (textOf f).toList[(header f).length + k]? = some c ∧ source.toList[first + k]? = some c ∧
      (originOf path f).map (some (.ofIndex (textOf f) ((header f).length + k))) =
        .atPosition path (.ofIndex source (first + k))
  /-- What lies in the header goes back to where the body begins. -/
  header : ∀ column ≤ (header f).length,
    (originOf path f).map (some ⟨1, column⟩) = .atPosition path (.ofIndex source first)
  /-- The function as a whole is where its name stands. -/
  whole : (originOf path f).map none = .atPosition path (.ofIndex source ahead)

/-- Every function that is read from a text is retraced. -/
theorem retraces_of_parse (path : String) {source : String}
    (parsed : f ∈ (Declaration.parse source).1.declarations) :
    ∃ ahead first, Retraces path source f ahead first := by
  have declared := Declaration.declared_of_parse parsed
  obtain ⟨head, ds, ⟨taken, split, named⟩, opened⟩ := declared.headed
  have before : source.toList =
      (taken ++ (f.name.toList ++ (head ++ ['\x7b']))) ++ ((f.body.text.toList ++ ['\x7d']) ++ ds) := by
    simpa using split
  have opened : f.body.position = Position.start.after (taken ++ (f.name.toList ++ (head ++ ['\x7b']))) := by
    rw [opened, named, ← Position.after_append]
  refine ⟨taken.length, (taken ++ (f.name.toList ++ (head ++ ['\x7b']))).length, ⟨head, ds, ?_, ?_⟩, ?_, ?_, ?_⟩
  · simp only [List.length_append, List.length_singleton, String.length_toList]
    omega
  · rw [split, List.drop_left]
  · intro k c there
    have within : k ≤ (f.body.text.toList ++ ['\x7d']).length :=
      Nat.le_of_lt (List.getElem?_eq_some_iff.mp there).1
    have text : (textOf f).toList = (header f).toList ++ ((f.body.text.toList ++ ['\x7d']) ++ []) := by
      rw [textOf_eq, List.append_nil]
    have place := Position.ofIndex_add text within
    rw [← String.length_toList]
    refine ⟨?_, ?_, ?_⟩
    · rw [textOf_eq, List.getElem?_append_right (Nat.le_add_right _ _), Nat.add_sub_cancel_left, there]
    · rw [before, List.getElem?_append_right (Nat.le_add_right _ _), Nat.add_sub_cancel_left,
        List.getElem?_append_left (List.getElem?_eq_some_iff.mp there).1, there]
    · rw [place, ← Position.after_append, map_body declared, opened, Position.ofIndex_add before within]
  · intro column within
    rw [Origin.map_column (originOf path f) (Nat.le_succ_of_le within), Position.ofIndex_length before, ← opened]
    rfl
  · rw [Position.ofIndex_length split, ← named]
    rfl

/-- A header that is spread over lines with comments between its words. -/
def spread : String := "// \u00e9\nfn twice /* \x7b */ (x,\n\ty) // of two\n  \x7b `\u00fc`\n+ x \x7d"

theorem spread_retraced : ∃ f ∈ (Declaration.parse spread).1.declarations,
    header f = "fn twice(x, y) \x7b" ∧ (originOf "a.ks" f).map (some ⟨2, 5⟩) = ⟨"a.ks", 5, 5⟩ ∧
      ∃ ahead first, Retraces "a.ks" spread f ahead first := by
  have read : ∃ f ∈ (Declaration.parse spread).1.declarations,
      header f = "fn twice(x, y) \x7b" ∧ (originOf "a.ks" f).map (some ⟨2, 5⟩) = ⟨"a.ks", 5, 5⟩ := by
    decide +kernel
  obtain ⟨f, declared, spelled, brace⟩ := read
  exact ⟨f, declared, spelled, brace, retraces_of_parse "a.ks" declared⟩

end Corpus.Lowered

end ScriptHost
