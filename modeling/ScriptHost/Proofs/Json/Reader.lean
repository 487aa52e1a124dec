import ScriptHost.Json.Reader
import ScriptHost.Json.Writer
import ScriptHost.Proofs.Json.Numeral

/-!
# Reader — a written value is read back

The indented text of a value gives the value back, with any blanks around it: every character of a string
literal is escaped to something that is read as that character, and the bound on the steps of the reader is the
length of the text.  Left out are numbers that are not whole and literals that are broken.
-/

namespace ScriptHost.Json

variable {c : Char} {cs rest : List Char} {j : Json} {items : List Json} {members : List (String × Json)}
  {depth fuel : Nat}

/-! ## 1. Blanks -/

/-- A character that may stand between values. -/
def isBlank (c : Char) : Bool := c == ' ' || c == '\t' || c == '\n' || c == '\r'

theorem skipBlank_append {bs : List Char} (blank : ∀ c ∈ bs, isBlank c = true) (cs : List Char) :
    skipBlank (bs ++ cs) = skipBlank cs := List.dropWhile_append_of_pos blank

theorem skipBlank_cons (other : isBlank c = false) : skipBlank (c :: cs) = c :: cs :=
  List.dropWhile_cons_of_neg (Bool.eq_false_iff.mp other)

theorem isBlank_of_mem_freshLine (h : c ∈ freshLine depth) : isBlank c = true := by
  rcases List.mem_cons.mp h with rfl | h
  · rfl
  · rw [(List.mem_replicate.mp h).2]
    rfl

theorem skipBlank_freshLine (depth : Nat) (cs : List Char) : skipBlank (freshLine depth ++ cs) = skipBlank cs :=
  skipBlank_append (fun _ => isBlank_of_mem_freshLine) cs

/-! ## 2. String literals -/

/-- A control character takes four hexadecimal digits. -/
theorem codeUnit?_hexPadded : ∀ n < 0x20,
    (match (Text.hexPadded 4 n).toList with
    | [a, b, d, e] => codeUnit? a b d e == some n
    | _ => false) = true := by
  decide

theorem readUnits?_escapeChar (c : Char) (rest : List Char) :
    readUnits? (escapeChar c ++ rest) = (readUnits? rest).map fun p => (c.toNat :: p.1, p.2) := by
  unfold escapeChar
  split
  -- The seven characters that have a letter of their own, and then all others.
  iterate 7
    · simp [readUnits?, plainEscape?]
      cases readUnits? rest <;> rfl
  next quote backslash _ _ _ _ _ =>
    split
    · next control =>
      have digits := codeUnit?_hexPadded c.toNat control
      split at digits
      · next a b d e spelled =>
        rw [spelled]
        simp only [List.cons_append, List.nil_append, readUnits?, eq_of_beq digits]
        cases readUnits? rest <;> rfl
      · cases digits
    · next ordinary =>
      have notZero : c ≠ '\x00' := by
        rintro rfl
        exact ordinary (by decide)
      rw [List.singleton_append, readUnits?]
      · rw [if_neg (by simpa [ordinary] using backslash)]
        cases readUnits? rest <;> rfl
      all_goals simp_all

theorem readUnits?_escaped (cs rest : List Char) :
    readUnits? (cs.flatMap escapeChar ++ '"' :: rest) = some (cs.map Char.toNat, rest) := by
  induction cs with
  | nil => rfl
  | cons c cs ih =>
    rw [List.flatMap_cons, List.append_assoc, readUnits?_escapeChar, ih]
    rfl

/-- No character is a half of a pair, and each is the character of its number. -/
theorem joinHalves?_chars (cs : List Char) : joinHalves? (cs.map Char.toNat) = some cs := by
  have whole (c : Char) :
      isHighHalf c.toNat = false ∧ isLowHalf c.toNat = false ∧ (c.toNat == spoiled) = false := by
    have valid : c.toNat < 0xD800 ∨ 0xDFFF < c.toNat ∧ c.toNat < 0x110000 := c.valid
    refine ⟨?_, ?_, ?_⟩
    · simp only [isHighHalf, Bool.and_eq_false_iff, decide_eq_false_iff_not]
      omega
    · simp only [isLowHalf, Bool.and_eq_false_iff, decide_eq_false_iff_not]
      omega
    · simp only [spoiled, beq_eq_false_iff_ne]
      omega
  induction cs with
  | nil => rfl
  | cons c cs ih =>
    obtain ⟨high, low, clean⟩ := whole c
    cases cs with
    | nil => simp [joinHalves?, high, low, clean]
    | cons d cs =>
      simp only [List.map_cons] at ih ⊢
      simp [joinHalves?, high, low, clean, ih]

/-- A string literal is read back, whatever its characters are. -/
theorem readString?_escaped (s : String) (rest : List Char) :
    readString? (s.toList.flatMap escapeChar ++ '"' :: rest) = some (some s, rest) := by
  simp [readString?, readUnits?_escaped, joinHalves?_chars]

/-! ## 3. Values -/

/-- The numbers in the value are whole, and no literal in it is broken. -/
inductive Readable : Json → Prop where
  | null : Readable .null
  | bool (b : Bool) : Readable (.bool b)
  | whole (n : Int) : Readable (.ofInt n)
  | string (s : String) : Readable (.string s)
  | array {items : List Json} : (∀ j ∈ items, Readable j) → Readable (.array items)
  | object {members : List (String × Json)} : (∀ m ∈ members, Readable m.2) → Readable (.object members)

theorem prettyItems_eq_map (depth : Nat) (items : List Json) :
    prettyItems depth items = items.map (prettyValue depth) := by
  induction items with
  | nil => rfl
  | cons j items ih => rw [prettyItems, ih, List.map_cons]

/-- One member with its name. -/
def prettyMember (depth : Nat) (m : String × Json) : List Char :=
  writeString m.1 ++ [':', ' '] ++ prettyValue depth m.2

theorem prettyMembers_eq_map (depth : Nat) (members : List (String × Json)) :
    prettyMembers depth members = members.map (prettyMember depth) := by
  induction members with
  | nil => rfl
  | cons m members ih =>
    obtain ⟨name, j⟩ := m
    rw [prettyMembers, ih, List.map_cons, prettyMember]

theorem writeBlock_of_ne_nil {opening closing : Char} {texts : List (List Char)} (h : texts ≠ []) :
    writeBlock opening closing depth texts = opening :: (freshLine (depth + 1) ++
      (joinWith (',' :: freshLine (depth + 1)) texts ++ (freshLine depth ++ [closing]))) := by
  simp [writeBlock, h]

/-- The text starts with a character that neither is blank nor closes a bracket. -/
def Solid (text : List Char) : Prop :=
  ∃ c cs, text = c :: cs ∧ isBlank c = false ∧ c ≠ ']' ∧ c ≠ '\x7d'

theorem Solid.append {text : List Char} (h : Solid text) (cs : List Char) : Solid (text ++ cs) := by
  obtain ⟨c, front, rfl, other⟩ := h
  exact ⟨c, front ++ cs, rfl, other⟩

theorem Solid.skipBlank {text : List Char} (h : Solid text) : skipBlank text = text := by
  obtain ⟨c, front, rfl, other, -⟩ := h
  exact skipBlank_cons other

theorem solid_writeBlock {opening : Char} (h : isBlank opening = false ∧ opening ≠ ']' ∧ opening ≠ '\x7d')
    (closing : Char) (depth : Nat) (texts : List (List Char)) :
    Solid (writeBlock opening closing depth texts) := by
  unfold writeBlock
  split
  · exact ⟨opening, [closing], rfl, h⟩
  · exact ⟨opening, _, rfl, h⟩

theorem solid_write (n : Int) : Solid (Numeral.ofInt n).write := by
  obtain ⟨c, cs, starts, sign⟩ := Numeral.write_starts n
  refine ⟨c, cs, starts, ?_⟩
  split at sign
  · subst sign
    exact ⟨rfl, by decide, by decide⟩
  · refine ⟨?_, ?_, ?_⟩
    · apply Bool.eq_false_iff.mpr
      intro blank
      simp only [isBlank, Bool.or_eq_true, beq_iff_eq] at blank
      rcases blank with ((rfl | rfl) | rfl) | rfl <;> exact absurd sign (by decide)
    · rintro rfl
      exact absurd sign (by decide)
    · rintro rfl
      exact absurd sign (by decide)

theorem Readable.solid (h : Readable j) (depth : Nat) : Solid (prettyValue depth j) := by
  cases h with
  | null => exact ⟨'n', _, rfl, rfl, by decide, by decide⟩
  | bool b => cases b <;> exact ⟨_, _, rfl, rfl, by decide, by decide⟩
  | whole n => exact solid_write n
  | string s => exact ⟨'"', _, rfl, rfl, by decide, by decide⟩
  | array _ => exact solid_writeBlock (by decide) ']' depth _
  | object _ => exact solid_writeBlock (by decide) '\x7d' depth _

theorem solid_prettyMember (depth : Nat) (m : String × Json) : Solid (prettyMember depth m) :=
  ⟨'"', _, rfl, rfl, by decide, by decide⟩

theorem joinWith_cons {separator text : List Char} {texts : List (List Char)} (h : texts ≠ []) :
    joinWith separator (text :: texts) = text ++ separator ++ joinWith separator texts := by
  cases texts with
  | nil => exact absurd rfl h
  | cons => rfl

theorem solid_joinWith {texts : List (List Char)} (solid : ∀ t ∈ texts, Solid t) (h : texts ≠ [])
    (separator : List Char) : Solid (joinWith separator texts) := by
  cases texts with
  | nil => exact absurd rfl h
  | cons text texts =>
    have first := solid text List.mem_cons_self
    cases texts with
    | nil => exact first
    | cons => exact (first.append _).append _

/-! ## 4. A value and its parts -/

/-- The text of the value gives the value back, if there are more steps than characters. -/
def ReadBack (j : Json) : Prop :=
  ∀ depth rest fuel, Numeral.Ends rest → (prettyValue depth j).length < fuel →
    readValue? fuel (prettyValue depth j ++ rest) = some (j, rest)

theorem ends_comma : Numeral.Ends (',' :: rest) := Numeral.ends_cons (by decide)

theorem ends_freshLine : Numeral.Ends (freshLine depth ++ rest) := Numeral.ends_cons (by decide)

/-- The items of an array are read back one after the other; each comma leaves a step over for the next. -/
theorem readItems?_joined (readable : ∀ j ∈ items, Readable j) (back : ∀ j ∈ items, ReadBack j)
    (some' : items ≠ [])
    (enough : (joinWith (',' :: freshLine depth) (items.map (prettyValue depth))).length + 1 < fuel)
    (outer : Nat) (rest : List Char) :
    readItems? fuel (joinWith (',' :: freshLine depth) (items.map (prettyValue depth)) ++
      (freshLine outer ++ ']' :: rest)) = some (items, rest) := by
  -- The last item has the closing bracket behind it, and every other one a comma and the next.
  induction items generalizing fuel with
  | nil => exact absurd rfl some'
  | cons j items ih =>
    obtain ⟨first, later⟩ := List.forall_mem_cons.mp back
    obtain ⟨-, readable⟩ := List.forall_mem_cons.mp readable
    cases fuel with
    | zero => omega
    | succ fuel =>
      by_cases last : items = []
      · subst last
        simp only [List.map_cons, List.map_nil, joinWith] at enough ⊢
        simp only [readItems?, first depth _ fuel ends_freshLine (by omega), Option.bind_eq_bind,
          Option.bind_some, skipBlank_freshLine, skipBlank_cons (show isBlank ']' = false from rfl)]
      · have more : items.map (prettyValue depth) ≠ [] := by simpa using last
        have solid := solid_joinWith (List.forall_mem_map.mpr fun k hk => (readable k hk).solid depth) more
          (',' :: freshLine depth)
        rw [List.map_cons, joinWith_cons more] at enough ⊢
        simp only [List.length_append, List.length_cons] at enough
        simp only [List.append_assoc, List.cons_append, readItems?, first depth _ fuel ends_comma (by omega),
          Option.bind_eq_bind, Option.bind_some, skipBlank_cons (show isBlank ',' = false from rfl),
          skipBlank_freshLine, (solid.append _).skipBlank, ih readable later last (show _ + 1 < fuel by omega)]

/-- So are the members of an object, each with its name in front. -/
theorem readMembers?_joined (readable : ∀ m ∈ members, Readable m.2) (back : ∀ m ∈ members, ReadBack m.2)
    (some' : members ≠ [])
    (enough : (joinWith (',' :: freshLine depth) (members.map (prettyMember depth))).length + 1 < fuel)
    (outer : Nat) (rest : List Char) :
    readMembers? fuel (joinWith (',' :: freshLine depth) (members.map (prettyMember depth)) ++
      (freshLine outer ++ '\x7d' :: rest)) = some (some members, rest) := by
  induction members generalizing fuel with
  | nil => exact absurd rfl some'
  | cons m members ih =>
    obtain ⟨name, j⟩ := m
    have first : ReadBack j := back _ List.mem_cons_self
    have value := (readable _ List.mem_cons_self).solid depth
    obtain ⟨-, later⟩ := List.forall_mem_cons.mp back
    obtain ⟨-, readable⟩ := List.forall_mem_cons.mp readable
    have text : prettyMember depth (name, j) =
        '"' :: (name.toList.flatMap escapeChar ++ '"' :: ':' :: ' ' :: prettyValue depth j) := by
      simp [prettyMember, writeString]
    -- The value behind the colon and its blank.
    have value (after : List Char) : skipBlank (' ' :: (prettyValue depth j ++ after)) =
        prettyValue depth j ++ after := (value.append after).skipBlank
    cases fuel with
    | zero => omega
    | succ fuel =>
      by_cases last : members = []
      · subst last
        simp only [List.map_cons, List.map_nil, joinWith, text, List.length_cons, List.length_append] at enough ⊢
        simp only [List.cons_append, List.append_assoc, readMembers?, readString?_escaped, Option.bind_eq_bind,
          Option.bind_some, skipBlank_cons (show isBlank ':' = false from rfl), value,
          first depth _ fuel ends_freshLine (by omega), skipBlank_freshLine,
          skipBlank_cons (show isBlank '\x7d' = false from rfl), Option.map_some]
      · have more : members.map (prettyMember depth) ≠ [] := by simpa using last
        have solid := solid_joinWith (List.forall_mem_map.mpr fun m _ => solid_prettyMember depth m) more
          (',' :: freshLine depth)
        rw [List.map_cons, joinWith_cons more, text] at enough ⊢
        simp only [List.length_append, List.length_cons] at enough
        simp only [List.append_assoc, List.cons_append, readMembers?, readString?_escaped,
          Option.bind_eq_bind, Option.bind_some, skipBlank_cons (show isBlank ':' = false from rfl), value,
          first depth _ fuel ends_comma (by omega), skipBlank_cons (show isBlank ',' = false from rfl),
          skipBlank_freshLine, (solid.append _).skipBlank, ih readable later last (show _ + 1 < fuel by omega),
          Option.map_some]

theorem length_writeBlock (opening closing : Char) {texts : List (List Char)} (h : texts ≠ []) (depth : Nat) :
    (joinWith (',' :: freshLine (depth + 1)) texts).length + 2 <
      (writeBlock opening closing depth texts).length := by
  rw [writeBlock_of_ne_nil h]
  simp [freshLine]
  omega

/-- What starts with no bracket, quote or letter of a word is read as a number. -/
theorem readValue?_number {text : List Char} (starts : c = '-' ∨ c.isDigit = true) (h : text = c :: cs) :
    readValue? (fuel + 1) text = (Numeral.read? text).map fun p => (.number p.1, p.2) := by
  have other : ∀ d ∈ ['"', '[', '\x7b', 'n', 't', 'f'], c ≠ d := by
    rintro d hd rfl
    rcases starts with rfl | digit
    · exact absurd hd (by decide)
    · have noDigit : ['"', '[', '\x7b', 'n', 't', 'f'].all (fun d => !d.isDigit) = true := by decide
      have none' := List.all_eq_true.mp noDigit c hd
      rw [digit] at none'
      exact Bool.false_ne_true none'
  subst h
  rw [readValue?]
  · exact List.cons_ne_nil _ _
  all_goals
    intro _ same
    exact other _ (by decide) (List.cons.inj same).1

theorem readValue?_array {text : List Char} (solid : Solid text) (depth fuel : Nat) :
    readValue? (fuel + 1) ('[' :: (freshLine depth ++ text)) =
      (readItems? fuel text).map fun p => (.array p.1, p.2) := by
  have opened : skipBlank (freshLine depth ++ text) = text := by rw [skipBlank_freshLine, solid.skipBlank]
  obtain ⟨c, cs, rfl, -, notClosing, -⟩ := solid
  rw [readValue?, opened]
  split
  · next same => exact absurd (List.cons.inj same).1 notClosing
  · cases readItems? fuel (c :: cs) <;> rfl

theorem readValue?_object {text : List Char} (solid : Solid text) (depth fuel : Nat) :
    readValue? (fuel + 1) ('\x7b' :: (freshLine depth ++ text)) =
      (readMembers? fuel text).map fun p => (p.1.elim .broken .object, p.2) := by
  have opened : skipBlank (freshLine depth ++ text) = text := by rw [skipBlank_freshLine, solid.skipBlank]
  obtain ⟨c, cs, rfl, -, -, notClosing⟩ := solid
  rw [readValue?, opened]
  split
  · next same => exact absurd (List.cons.inj same).1 notClosing
  · rcases readMembers? fuel (c :: cs) with _ | ⟨_ | members, rest⟩ <;> rfl

/-- Every value without fractions is read back: by induction on the value, whose parts are read by the steps that
    are left behind its opening bracket. -/
theorem Readable.readBack (h : Readable j) : ReadBack j := by
  induction h with
  | null =>
    rintro depth rest (_ | fuel) - enough
    · exact absurd enough (Nat.not_lt_zero _)
    · rfl
  | bool b =>
    rintro depth rest (_ | fuel) - enough
    · exact absurd enough (Nat.not_lt_zero _)
    · cases b <;> rfl
  | whole n =>
    rintro depth rest (_ | fuel) ends enough
    · exact absurd enough (Nat.not_lt_zero _)
    · obtain ⟨c, cs, starts, sign⟩ := Numeral.write_starts n
      have front : c = '-' ∨ c.isDigit = true := by
        split at sign
        · exact .inl sign
        · exact .inr sign
      show readValue? (fuel + 1) ((Numeral.ofInt n).write ++ rest) = _
      rw [readValue?_number front (show _ = c :: (cs ++ rest) by rw [starts]; rfl), Numeral.read?_write n ends]
      rfl
  | string s =>
    rintro depth rest (_ | fuel) - enough
    · exact absurd enough (Nat.not_lt_zero _)
    · simp [prettyValue, writeValue, writeString, readValue?, readString?_escaped]
  | @array items readable back =>
    rintro depth rest (_ | fuel) - enough
    · exact absurd enough (Nat.not_lt_zero _)
    · rw [prettyValue, prettyItems_eq_map] at enough ⊢
      by_cases empty : items = []
      · subst empty
        rfl
      -- The text between the brackets is longer than that of any item, so the fuel is enough for all of them.
      · have more : items.map (prettyValue (depth + 1)) ≠ [] := by simpa using empty
        have solid := solid_joinWith (List.forall_mem_map.mpr fun k hk => (readable k hk).solid (depth + 1)) more
          (',' :: freshLine (depth + 1))
        have length := length_writeBlock '[' ']' more depth
        have parts := readItems?_joined readable back empty
          (show (joinWith (',' :: freshLine (depth + 1)) _).length + 1 < fuel by omega) depth rest
        rw [writeBlock_of_ne_nil more]
        simp only [List.cons_append, List.append_assoc, List.nil_append]
        rw [readValue?_array (solid.append _), parts]
        rfl
  | @object members readable back =>
    rintro depth rest (_ | fuel) - enough
    · exact absurd enough (Nat.not_lt_zero _)
    · rw [prettyValue, prettyMembers_eq_map] at enough ⊢
      by_cases empty : members = []
      · subst empty
        rfl
      · have more : members.map (prettyMember (depth + 1)) ≠ [] := by simpa using empty
        have solid := solid_joinWith (List.forall_mem_map.mpr fun m _ => solid_prettyMember (depth + 1) m) more
          (',' :: freshLine (depth + 1))
        have length := length_writeBlock '\x7b' '\x7d' more depth
        have parts := readMembers?_joined readable back empty
          (show (joinWith (',' :: freshLine (depth + 1)) _).length + 1 < fuel by omega) depth rest
        rw [writeBlock_of_ne_nil more]
        simp only [List.cons_append, List.append_assoc, List.nil_append]
        rw [readValue?_object (solid.append _), parts]
        rfl

/-! ## 5. Whole texts -/

/-- With blanks in front and behind, the indented text is that of the value alone. -/
theorem readChars?_pretty (h : Readable j) {before after : List Char}
    (blankBefore : ∀ c ∈ before, isBlank c = true)
    (blankAfter : ∀ c ∈ after, isBlank c = true) :
    readChars? (before ++ (prettyValue 0 j ++ after)) = some j := by
  have ends : Numeral.Ends after := by
    cases after with
    | nil => exact Numeral.ends_nil
    | cons c after =>
      have blank := blankAfter c List.mem_cons_self
      apply Numeral.ends_cons
      simp only [isBlank, Bool.or_eq_true, beq_iff_eq] at blank
      rcases blank with ((rfl | rfl) | rfl) | rfl <;> decide
  have nothing : skipBlank after = [] := by
    rw [← List.append_nil after, skipBlank_append blankAfter]
    rfl
  have steps : (prettyValue 0 j).length < (prettyValue 0 j ++ after).length + 1 := by
    rw [List.length_append]
    omega
  rw [readChars?, skipBlank_append blankBefore, ((h.solid 0).append after).skipBlank]
  simp only [h.readBack 0 after _ ends steps, Option.bind_eq_bind, Option.bind_some, nothing, List.isEmpty_nil,
    if_true]

/-- No character of a literal is written as the zero character, which no text may hold. -/
theorem zero_notMem_escapeChar (c : Char) : '\x00' ∉ escapeChar c := by
  have padded : ∀ n < 0x20, '\x00' ∉ (Text.hexPadded 4 n).toList := by decide
  unfold escapeChar
  split
  iterate 7
    · decide
  · split
    · next control =>
      rw [List.mem_append, not_or]
      exact ⟨by decide, padded _ control⟩
    · next ordinary =>
      rw [List.mem_singleton]
      rintro rfl
      exact ordinary (by decide)

theorem zero_notMem_writeString (s : String) : '\x00' ∉ writeString s := by
  intro h
  simp only [writeString, List.cons_append, List.mem_cons, List.mem_append, List.mem_flatMap, List.mem_nil_iff,
    or_false] at h
  rcases h with h | ⟨c, -, h⟩ | h
  · exact absurd h (by decide)
  · exact zero_notMem_escapeChar c h
  · exact absurd h (by decide)

theorem mem_joinWith {separator : List Char} {texts : List (List Char)} (h : c ∈ joinWith separator texts) :
    c ∈ separator ∨ ∃ text ∈ texts, c ∈ text := by
  induction texts with
  | nil => cases h
  | cons text texts ih =>
    by_cases last : texts = []
    · subst last
      exact .inr ⟨text, List.mem_cons_self, h⟩
    · rw [joinWith_cons last, List.mem_append, List.mem_append] at h
      rcases h with (h | h) | h
      · exact .inr ⟨text, List.mem_cons_self, h⟩
      · exact .inl h
      · rcases ih h with h | ⟨text, later, h⟩
        · exact .inl h
        · exact .inr ⟨text, List.mem_cons_of_mem _ later, h⟩

theorem zero_notMem_freshLine (depth : Nat) : '\x00' ∉ freshLine depth := by
  intro h
  exact absurd (isBlank_of_mem_freshLine h) (by decide)

theorem zero_notMem_writeBlock {opening closing : Char} (brackets : opening ≠ '\x00' ∧ closing ≠ '\x00')
    {texts : List (List Char)} (h : ∀ text ∈ texts, '\x00' ∉ text) (depth : Nat) :
    '\x00' ∉ writeBlock opening closing depth texts := by
  have inside : '\x00' ∉ joinWith (',' :: freshLine (depth + 1)) texts := by
    intro mem
    rcases mem_joinWith mem with mem | ⟨text, listed, mem⟩
    · rcases List.mem_cons.mp mem with mem | mem
      · exact absurd mem (by decide)
      · exact zero_notMem_freshLine _ mem
    · exact h text listed mem
  unfold writeBlock
  split
  · simp [brackets.1.symm, brackets.2.symm]
  · simp [brackets.1.symm, brackets.2.symm, inside, zero_notMem_freshLine]

theorem Readable.zero_notMem (h : Readable j) (depth : Nat) : '\x00' ∉ prettyValue depth j := by
  induction h generalizing depth with
  | null =>
    show '\x00' ∉ writeValue .null
    decide
  | bool b =>
    show '\x00' ∉ writeValue (.bool b)
    cases b <;> decide
  | whole n =>
    show '\x00' ∉ (Numeral.ofInt n).write
    rw [Numeral.write_ofInt, List.mem_append]
    rintro (h | h)
    · split at h
      · exact absurd h (by decide)
      · cases h
    · exact absurd (Numeral.isDigit_of_mem_digits h) (by decide)
  | string s => exact zero_notMem_writeString s
  | array _ ih =>
    rw [prettyValue, prettyItems_eq_map]
    exact zero_notMem_writeBlock (by decide) (List.forall_mem_map.mpr fun j hj => ih j hj _) depth
  | object _ ih =>
    rw [prettyValue, prettyMembers_eq_map]
    apply zero_notMem_writeBlock (by decide) (List.forall_mem_map.mpr fun m hm => ?_) depth
    rw [prettyMember, List.mem_append, List.mem_append]
    rintro ((h | h) | h)
    · exact zero_notMem_writeString _ h
    · exact absurd h (by decide)
    · exact ih m hm _ h

/-- The indented text of a value is read back as the value, with any blanks around it. -/
theorem read?_pretty (h : Readable j) {before after : List Char} (blankBefore : ∀ c ∈ before, isBlank c = true)
    (blankAfter : ∀ c ∈ after, isBlank c = true) :
    read? (String.ofList before ++ pretty j ++ String.ofList after) = some j := by
  have blank {bs : List Char} (blank : ∀ c ∈ bs, isBlank c = true) : '\x00' ∉ bs := fun h =>
    absurd (blank _ h) (by decide)
  have chars : (String.ofList before ++ pretty j ++ String.ofList after).toList =
      before ++ (prettyValue 0 j ++ after) := by
    simp [pretty]
  rw [read?, chars, if_neg, readChars?_pretty h blankBefore blankAfter]
  simp [blank blankBefore, blank blankAfter, h.zero_notMem]

end ScriptHost.Json
