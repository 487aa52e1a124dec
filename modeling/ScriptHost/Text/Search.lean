/-!
# Search — parts of a text

A part is looked for from the left, and what has been found is passed before the search goes on.  The
pieces between its occurrences, with the part between them, are the text again.
-/

namespace ScriptHost.Text

/-! ## 1. The first occurrence -/

/-- What stands in front of the first occurrence of a part, and what stands behind it. -/
def cut? (part : List Char) : List Char → Option (List Char × List Char)
  | [] => if part.isEmpty then some ([], []) else none
  | c :: cs =>
    if part.isPrefixOf (c :: cs) then some ([], (c :: cs).drop part.length)
    else (cut? part cs).map fun (front, behind) => (c :: front, behind)

/-- The place of the first occurrence of a part. -/
def indexOf? (part cs : List Char) : Option Nat := (cut? part cs).map fun (front, _) => front.length

theorem eq_append_of_cut? {part cs front behind : List Char}
    (h : cut? part cs = some (front, behind)) : cs = front ++ part ++ behind := by
  induction cs generalizing front with
  | nil =>
    simp only [cut?, List.isEmpty_iff] at h
    split at h <;> simp_all
  | cons c cs ih =>
    simp only [cut?] at h
    split at h
    · rename_i hp
      obtain ⟨rest, hr⟩ := List.isPrefixOf_iff_prefix.1 hp
      simp only [Option.some.injEq, Prod.mk.injEq] at h
      obtain ⟨rfl, rfl⟩ := h
      simp [← hr]
    · obtain ⟨⟨front', behind'⟩, hc, hf⟩ := Option.map_eq_some_iff.1 h
      simp only [Prod.mk.injEq] at hf
      obtain ⟨rfl, rfl⟩ := hf
      simp [ih hc]

/-! ## 2. All occurrences -/

/-- The pieces between the occurrences of a part; the first `skipped` characters belong to an occurrence
    that has been found. -/
def piecesFrom (part : List Char) : (skipped : Nat) → List Char → List (List Char)
  | _, [] => [[]]
  | skipped + 1, _ :: cs => piecesFrom part skipped cs
  | 0, c :: cs =>
    if part.isPrefixOf (c :: cs) then [] :: piecesFrom part (part.length - 1) cs
    else
      match piecesFrom part 0 cs with
      | [] => [[c]]
      | piece :: pieces => (c :: piece) :: pieces

/-- The pieces of a text between the occurrences of a part; the empty part stands around every
    character. -/
def pieces (part cs : List Char) : List (List Char) :=
  if part.isEmpty then [] :: cs.map ([·]) ++ [[]] else piecesFrom part 0 cs

theorem piecesFrom_ne_nil (part : List Char) (skipped : Nat) (cs : List Char) :
    piecesFrom part skipped cs ≠ [] := by
  induction cs generalizing skipped with
  | nil => cases skipped <;> simp [piecesFrom]
  | cons c cs ih =>
    cases skipped with
    | succ k => simpa [piecesFrom] using ih k
    | zero =>
      simp only [piecesFrom]
      split
      · simp
      · split <;> simp

/-- With the part between them, the pieces are the text again. -/
theorem intercalate_piecesFrom {part : List Char} (h : part ≠ []) (skipped : Nat) (cs : List Char) :
    part.intercalate (piecesFrom part skipped cs) = cs.drop skipped := by
  induction cs generalizing skipped with
  | nil => cases skipped <;> simp [piecesFrom]
  | cons c cs ih =>
    cases skipped with
    | succ k => simpa [piecesFrom] using ih k
    | zero =>
      simp only [piecesFrom]
      split
      · rename_i hp
        obtain ⟨rest, hr⟩ := List.isPrefixOf_iff_prefix.1 hp
        obtain ⟨d, ds, rfl⟩ := List.exists_cons_of_ne_nil h
        rw [List.intercalate_cons_of_ne_nil (piecesFrom_ne_nil _ _ _), ih]
        simp only [List.cons_append, List.cons.injEq] at hr
        simp [← hr.1, ← hr.2]
      · have hp := ih 0
        split
        · rename_i he
          exact absurd he (piecesFrom_ne_nil _ _ _)
        · rename_i piece pieces he
          rw [he] at hp
          cases pieces <;> simp_all

/-- The text with every occurrence of a part replaced. -/
def replaceAll (part new cs : List Char) : List Char := new.intercalate (pieces part cs)

end ScriptHost.Text
