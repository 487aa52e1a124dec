import ScriptHost.Declaration.Body
import ScriptHost.Proofs.Declaration.Cursor

/-!
# Body — what the scan of a body finds

The scan of a body ends in front of a brace and looks no further, so that a body and its closing brace can
be scanned by themselves.
-/

namespace ScriptHost.Declaration

open Text (Position)

variable {s : Scan} {c : Char} {cs tail : List Char} {p q : Position} {refs : List ModuleRef}

/-! ## 1. What is noted stays -/

theorem Scan.mem_enterWord {r : ModuleRef} (h : r ∈ s.refs) : r ∈ (s.enterWord cs p).refs := by
  show r ∈ (if _ then _ else _)
  split
  · exact List.mem_cons_of_mem _ h
  · exact h

/-- No module path is forgotten. -/
theorem mem_of_scanBlock {r : ModuleRef} (h : scanBlock s cs p = some (tail, q, refs))
    (hr : r ∈ s.refs) : r ∈ refs := by
  fun_induction scanBlock s cs p with
  | case1 => exact nomatch h
  | case4 =>
    obtain ⟨-, -, rfl⟩ := by simpa using h
    exact hr
  | case13 _ _ _ _ _ _ _ _ _ _ _ _ _ _ _ _ _ ih => exact ih h (Scan.mem_enterWord hr)
  | case21 _ _ _ _ _ _ _ ih =>
    refine ih h ?_
    split <;> exact hr
  | _ => rename_i ih; exact ih h hr

/-- A module path that is noted stands in the text: where it says there is a word, and `::` behind it. -/
def ModuleRef.StandsIn (cs : List Char) (p : Position) (r : ModuleRef) : Prop :=
  IsWord r.name ∧ ∃ us vs, cs = us ++ (r.name.toList ++ ':' :: ':' :: vs) ∧ r.position = p.after us

theorem ModuleRef.StandsIn.behind {r : ModuleRef} (taken : List Char) (h : r.StandsIn cs (p.after taken)) :
    r.StandsIn (taken ++ cs) p := by
  obtain ⟨word, us, vs, rfl, place⟩ := h
  refine ⟨word, taken ++ us, vs, by simp only [List.append_assoc], ?_⟩
  rw [place, Position.after_append]

/-- Entering a word notes no more than this word, and only in front of `::`. -/
theorem Scan.of_mem_enterWord {r : ModuleRef} (starts : isWordStart c = true)
    (hr : r ∈ (s.enterWord (c :: cs) p).refs) : r ∈ s.refs ∨ r.StandsIn (c :: cs) p := by
  by_cases head : (!s.behindPath && atPath ((c :: cs).dropWhile isWordPart)) = true
  · have noted : r ∈ ⟨String.ofList ((c :: cs).takeWhile isWordPart), p⟩ :: s.refs := by
      rwa [enterWord, if_pos head] at hr
    rcases List.mem_cons.mp noted with rfl | old
    · right
      refine ⟨isWord_takeWhile cs starts, [], ?_⟩
      have path := ((Bool.and_eq_true _ _).mp head).2
      unfold atPath at path
      split at path
      · next vs more =>
        refine ⟨vs, ?_, rfl⟩
        rw [List.nil_append, String.toList_ofList, ← more, List.takeWhile_append_dropWhile]
      · cases path
    · exact .inl old
  · rw [enterWord, if_neg head] at hr
    exact .inl hr

/-- What is noted stands in the text that was scanned. -/
theorem standsIn_of_scanBlock (h : scanBlock s cs p = some (tail, q, refs)) {r : ModuleRef} (hr : r ∈ refs) :
    r ∈ s.refs ∨ r.StandsIn cs p := by
  fun_induction scanBlock s cs p with
  | case1 => exact nomatch h
  | case4 =>
    obtain ⟨-, -, rfl⟩ := by simpa using h
    exact .inl hr
  | case13 s p b w code c cs _ _ _ _ _ _ _ _ outside starts ih =>
    rcases ih h with old | later
    · exact Scan.of_mem_enterWord starts old
    · exact .inr (.behind [_] later)
  | case21 _ _ _ _ _ _ _ ih =>
    rcases ih h with old | later
    · left
      split at old <;> exact old
    · exact .inr (.behind [_] later)
  -- What is left are steps over one character or two.
  | _ =>
    rename_i ih
    rcases ih h with old | later
    · exact .inl old
    · right
      first
      | exact .behind [_] later
      | exact .behind [_, _] later

/-! ## 2. Characters of code -/

/-- Whether a character of code in front of `cs` has a meaning of its own. -/
def isSpecial (c : Char) (cs : List Char) : Bool :=
  ['\x7b', '\x7d', '"', '\'', '`'].contains c || (c == '/' && cs.head?.any fun d => d == '/' || d == '*') ||
    (c == ':' && cs.head? == some ':')

theorem isWordStart_of_not_isWordPart (part : isWordPart c = false) : isWordStart c = false := by
  unfold isWordPart at part
  unfold isWordStart
  simp_all [Char.isAlphanum]

/-- The scan behind a character of code that has no meaning of its own. -/
def Scan.behind (s : Scan) (b w : Bool) (c : Char) (cs : List Char) (p : Position) : Scan :=
  if w && isWordPart c then s
  else if isWordStart c then s.enterWord (c :: cs) p
  else if Scan.isSpace c then { s with place := .code b false }
  else s.inCode

theorem scanBlock_plain {b w : Bool} (code : s.place = .code b w) (plain : isSpecial c cs = false) :
    scanBlock s (c :: cs) p = scanBlock (s.behind b w c cs p) cs (p.step c) := by
  rw [scanBlock.eq_def]
  simp only [code]
  unfold isSpecial at plain
  split <;> try simp at plain
  unfold Scan.behind
  split
  · rfl
  · split
    · rfl
    · split <;> rfl

/-! ## 3. The end of a body -/

theorem head?_cut {w ds ds' : List Char} : (w ++ '\x7d' :: ds).head? = (w ++ '\x7d' :: ds').head? := by
  cases w <;> rfl

theorem isSpecial_cut {w ds ds' : List Char} :
    isSpecial c (w ++ '\x7d' :: ds) = isSpecial c (w ++ '\x7d' :: ds') := by
  have head : (w ++ '\x7d' :: ds).head? = (w ++ '\x7d' :: ds').head? := head?_cut
  unfold isSpecial
  rw [head]

/-- Behind a word of a body, what follows the closing brace is not seen. -/
theorem enterWord_cut {w ds ds' : List Char} :
    s.enterWord (w ++ '\x7d' :: ds) p = s.enterWord (w ++ '\x7d' :: ds') p := by
  have taken : (w ++ '\x7d' :: ds).takeWhile isWordPart = (w ++ '\x7d' :: ds').takeWhile isWordPart := by
    simp only [List.takeWhile_append]
    rfl
  have path : Scan.atPath ((w ++ '\x7d' :: ds).dropWhile isWordPart) =
      Scan.atPath ((w ++ '\x7d' :: ds').dropWhile isWordPart) := by
    simp only [List.dropWhile_append]
    split
    · rfl
    · rcases w.dropWhile isWordPart with _ | ⟨x, _ | ⟨y, ys⟩⟩
      · rfl
      · unfold Scan.atPath
        split <;> simp_all
      · unfold Scan.atPath
        split <;> simp_all
  simp only [Scan.enterWord, taken, path]

/-- A character of code that has no meaning of its own has none where the text is cut. -/
theorem scanBlock_plain_cut {b w : Bool} {us ds ds' : List Char} (code : s.place = .code b w)
    (plain : isSpecial c (us ++ '\x7d' :: ds) = false) :
    scanBlock s (c :: us ++ '\x7d' :: ds') p =
      scanBlock (s.behind b w c (us ++ '\x7d' :: ds) p) (us ++ '\x7d' :: ds') (p.step c) := by
  have entered : s.enterWord (c :: us ++ '\x7d' :: ds) p = s.enterWord (c :: us ++ '\x7d' :: ds') p :=
    enterWord_cut
  rw [List.cons_append, scanBlock_plain code (isSpecial_cut.symm.trans plain), Scan.behind, Scan.behind,
    ← List.cons_append, ← List.cons_append, entered]

/-- The scan ends in front of a brace and does not depend on what is behind it. -/
theorem scanBlock_cut (h : scanBlock s cs p = some (tail, q, refs)) :
    ∃ w ds, cs = w ++ '\x7d' :: ds ∧ tail = '\x7d' :: ds ∧ q = p.after w ∧
      ∀ ds', scanBlock s (w ++ '\x7d' :: ds') p = some ('\x7d' :: ds', q, refs) := by
  fun_induction scanBlock s cs p
  case case1 => exact nomatch h
  case case4 s p _ _ code cs outer depth =>
    obtain ⟨rfl, rfl, rfl⟩ := by simpa using h
    refine ⟨[], cs, rfl, rfl, rfl, fun ds' => ?_⟩
    rw [List.nil_append, scanBlock.eq_def]
    simp only [code, outer, depth]
  case' case12 s p b w code c cs _ _ _ _ _ _ _ _ inWord ih =>
    have behind : s.behind b w c cs p = s := if_pos inWord
  case' case13 s p b w code c cs _ _ _ _ _ _ _ _ outside starts ih =>
    have behind : s.behind b w c cs p = s.enterWord (c :: cs) p := (if_neg outside).trans (if_pos starts)
  case' case14 s p b w code c cs _ _ _ _ _ _ _ _ outside other space ih =>
    have behind : s.behind b w c cs p = { s with place := .code b false } :=
      (if_neg outside).trans ((if_neg other).trans (if_pos space))
  case' case15 s p b w code c cs _ _ _ _ _ _ _ _ outside other sign ih =>
    have behind : s.behind b w c cs p = s.inCode :=
      (if_neg outside).trans ((if_neg other).trans (if_neg sign))
  case case12 | case13 | case14 | case15 =>
    obtain ⟨us, ds, rfl, rfl, rfl, again⟩ := ih h
    refine ⟨c :: us, ds, rfl, rfl, rfl, fun ds' => ?_⟩
    have plain : isSpecial c (us ++ '\x7d' :: ds) = false := by
      unfold isSpecial
      cases us <;> simp_all
    rw [scanBlock_plain_cut code plain, behind, again ds']
  case case19 | case21 | case24 =>
    rename_i ih
    obtain ⟨us, ds, rfl, rfl, rfl, again⟩ := ih h
    refine ⟨_ :: us, ds, rfl, rfl, rfl, fun ds' => ?_⟩
    rw [← again ds', List.cons_append, scanBlock.eq_def]
    cases us <;> simp_all
  -- What is left are steps over one or two given characters.
  all_goals
    rename_i ih
    obtain ⟨us, ds, rfl, rfl, rfl, again⟩ := ih h
    first
    | refine ⟨_ :: us, ds, rfl, rfl, rfl, fun ds' => ?_⟩
      rw [← again ds', List.cons_append, scanBlock.eq_def]
      simp only [*]
    | refine ⟨_ :: _ :: us, ds, rfl, rfl, rfl, fun ds' => ?_⟩
      rw [← again ds', List.cons_append, List.cons_append, scanBlock.eq_def]
      simp only [*]

/-! ## 4. Scans by themselves -/

/-- From here the scan gets to a last brace, and has then noted these module paths. -/
def Scans (noted : List ModuleRef) (place : Place) (depth : Nat) (outer : List Nat) (cs : List Char) :
    Prop :=
  ∃ refs p q, scanBlock ⟨place, depth, outer, refs⟩ cs p = some (['\x7d'], q, noted)

namespace Scans

variable {noted : List ModuleRef} {place : Place} {b w : Bool} {d e n : Nat} {o : List Nat} {k : Char}

theorem ne_nil (h : Scans noted place d o cs) : cs ≠ [] := by
  rintro rfl
  obtain ⟨refs, p, q, h⟩ := h
  exact nomatch h

section Code

theorem opening (h : Scans noted (.code b w) d o ('\x7b' :: cs)) :
    Scans noted (.code false false) (d + 1) o cs := by
  obtain ⟨refs, p, q, h⟩ := h
  exact ⟨refs, _, q, h⟩

theorem closing (h : Scans noted (.code b w) (d + 1) o ('\x7d' :: cs)) :
    Scans noted (.code false false) d o cs := by
  obtain ⟨refs, p, q, h⟩ := h
  exact ⟨refs, _, q, h⟩

/-- The brace that closes an embedded block takes the scan back to the template. -/
theorem resume (h : Scans noted (.code b w) 0 (e :: o) ('\x7d' :: cs)) :
    Scans noted .template e o cs := by
  obtain ⟨refs, p, q, h⟩ := h
  exact ⟨refs, _, q, h⟩

/-- The brace that closes the body is the last character. -/
theorem last (h : Scans noted (.code b w) 0 [] ('\x7d' :: cs)) : cs = [] := by
  obtain ⟨refs, p, q, h⟩ := h
  exact (List.cons.inj (congrArg Prod.fst (Option.some.inj h))).2

theorem lineComment (h : Scans noted (.code b w) d o ('/' :: '/' :: cs)) :
    Scans noted (.line b) d o cs := by
  obtain ⟨refs, p, q, h⟩ := h
  exact ⟨refs, _, q, h⟩

theorem blockComment (h : Scans noted (.code b w) d o ('/' :: '*' :: cs)) :
    Scans noted (.block b 0) d o cs := by
  obtain ⟨refs, p, q, h⟩ := h
  exact ⟨refs, _, q, h⟩

theorem doubleQuote (h : Scans noted (.code b w) d o ('"' :: cs)) : Scans noted (.quoted '"') d o cs := by
  obtain ⟨refs, p, q, h⟩ := h
  exact ⟨refs, _, q, h⟩

theorem singleQuote (h : Scans noted (.code b w) d o ('\'' :: cs)) :
    Scans noted (.quoted '\'') d o cs := by
  obtain ⟨refs, p, q, h⟩ := h
  exact ⟨refs, _, q, h⟩

theorem backtick (h : Scans noted (.code b w) d o ('`' :: cs)) : Scans noted .template d o cs := by
  obtain ⟨refs, p, q, h⟩ := h
  exact ⟨refs, _, q, h⟩

theorem path (h : Scans noted (.code b w) d o (':' :: ':' :: cs)) :
    Scans noted (.code true false) d o cs := by
  obtain ⟨refs, p, q, h⟩ := h
  exact ⟨refs, _, q, h⟩

theorem inWord (h : Scans noted (.code b true) d o (c :: cs)) (plain : isSpecial c cs = false)
    (part : isWordPart c = true) : Scans noted (.code b true) d o cs := by
  obtain ⟨refs, p, q, h⟩ := h
  rw [scanBlock_plain rfl plain, Scan.behind, if_pos (by simpa using part)] at h
  exact ⟨refs, _, q, h⟩

/-- A word in front of `::` is noted, unless it stands behind one. -/
theorem word (h : Scans noted (.code b w) d o (c :: cs)) (plain : isSpecial c cs = false)
    (outside : (w && isWordPart c) = false) (starts : isWordStart c = true) :
    Scans noted (.code false true) d o cs ∧
      (b = false → Scan.atPath ((c :: cs).dropWhile isWordPart) = true →
        ∃ r ∈ noted, r.name = String.ofList ((c :: cs).takeWhile isWordPart)) := by
  obtain ⟨refs, p, q, h⟩ := h
  rw [scanBlock_plain rfl plain, Scan.behind, if_neg (by simp [outside]), if_pos starts] at h
  refine ⟨⟨_, _, q, h⟩, ?_⟩
  rintro rfl path
  refine ⟨⟨_, p⟩, mem_of_scanBlock h ?_, rfl⟩
  rw [Scan.enterWord, if_pos (by rw [path]; rfl)]
  exact List.mem_cons_self

theorem blank (h : Scans noted (.code b w) d o (c :: cs)) (plain : isSpecial c cs = false)
    (part : isWordPart c = false) (space : Scan.isSpace c = true) : Scans noted (.code b false) d o cs := by
  have starts := isWordStart_of_not_isWordPart part
  obtain ⟨refs, p, q, h⟩ := h
  rw [scanBlock_plain rfl plain, Scan.behind, if_neg (by simp [part]), if_neg (by simp [starts]),
    if_pos space] at h
  exact ⟨refs, _, q, h⟩

theorem sign (h : Scans noted (.code b w) d o (c :: cs)) (plain : isSpecial c cs = false)
    (outside : (w && isWordPart c) = false) (starts : isWordStart c = false)
    (space : Scan.isSpace c = false) : Scans noted (.code false false) d o cs := by
  obtain ⟨refs, p, q, h⟩ := h
  rw [scanBlock_plain rfl plain, Scan.behind, if_neg (by simp [outside]), if_neg (by simp [starts]),
    if_neg (by simp [space])] at h
  exact ⟨refs, _, q, h⟩

end Code

section Comments

theorem inLine (h : Scans noted (.line b) d o (c :: cs)) (other : c ≠ '\n') :
    Scans noted (.line b) d o cs := by
  obtain ⟨refs, p, q, h⟩ := h
  rw [scanBlock.eq_def] at h
  simp only [beq_eq_false_iff_ne.mpr other] at h
  exact ⟨refs, _, q, h⟩

theorem endLine (h : Scans noted (.line b) d o ('\n' :: cs)) : Scans noted (.code b false) d o cs := by
  obtain ⟨refs, p, q, h⟩ := h
  exact ⟨refs, _, q, h⟩

theorem openBlock (h : Scans noted (.block b n) d o ('/' :: '*' :: cs)) :
    Scans noted (.block b (n + 1)) d o cs := by
  obtain ⟨refs, p, q, h⟩ := h
  exact ⟨refs, _, q, h⟩

theorem closeBlock (h : Scans noted (.block b (n + 1)) d o ('*' :: '/' :: cs)) :
    Scans noted (.block b n) d o cs := by
  obtain ⟨refs, p, q, h⟩ := h
  exact ⟨refs, _, q, h⟩

theorem endBlock (h : Scans noted (.block b 0) d o ('*' :: '/' :: cs)) :
    Scans noted (.code b false) d o cs := by
  obtain ⟨refs, p, q, h⟩ := h
  exact ⟨refs, _, q, h⟩

theorem inBlock (h : Scans noted (.block b n) d o (c :: cs)) (opens : ∀ cs', c = '/' → cs ≠ '*' :: cs')
    (closes : ∀ cs', c = '*' → cs ≠ '/' :: cs') : Scans noted (.block b n) d o cs := by
  obtain ⟨refs, p, q, h⟩ := h
  rw [scanBlock.eq_def] at h
  simp only at h
  exact ⟨refs, _, q, h⟩

end Comments

section Texts

theorem escape (h : Scans noted (.quoted k) d o ('\\' :: c :: cs)) : Scans noted (.quoted k) d o cs := by
  obtain ⟨refs, p, q, h⟩ := h
  exact ⟨refs, _, q, h⟩

theorem unquote (h : Scans noted (.quoted k) d o (k :: cs)) (mark : k ≠ '\\') :
    Scans noted (.code false false) d o cs := by
  obtain ⟨refs, p, q, h⟩ := h
  rw [scanBlock.eq_def] at h
  simp only at h
  split at h
  · exact absurd rfl mark
  · rw [if_pos (by simp)] at h
    exact ⟨refs, _, q, h⟩

theorem inQuoted (h : Scans noted (.quoted k) d o (c :: cs)) (escapes : c = '\\' → cs = [])
    (mark : c ≠ k) (line : c ≠ '\n') : Scans noted (.quoted k) d o cs := by
  obtain ⟨refs, p, q, h⟩ := h
  rw [scanBlock.eq_def] at h
  simp only at h
  split at h
  · exact nomatch escapes rfl
  · rw [if_neg (by simp [mark, line])] at h
    exact ⟨refs, _, q, h⟩

theorem endTemplate (h : Scans noted .template d o ('`' :: cs)) :
    Scans noted (.code false false) d o cs := by
  obtain ⟨refs, p, q, h⟩ := h
  exact ⟨refs, _, q, h⟩

/-- A block embedded in a template counts its braces anew. -/
theorem embed (h : Scans noted .template d o ('$' :: '\x7b' :: cs)) :
    Scans noted (.code false false) 0 (d :: o) cs := by
  obtain ⟨refs, p, q, h⟩ := h
  exact ⟨refs, _, q, h⟩

theorem inTemplate (h : Scans noted .template d o (c :: cs)) (mark : c ≠ '`')
    (embeds : ∀ cs', c = '$' → cs ≠ '\x7b' :: cs') : Scans noted .template d o cs := by
  obtain ⟨refs, p, q, h⟩ := h
  rw [scanBlock.eq_def] at h
  simp only at h
  exact ⟨refs, _, q, h⟩

end Texts

end Scans

end ScriptHost.Declaration
