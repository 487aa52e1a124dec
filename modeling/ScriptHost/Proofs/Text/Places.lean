import Mathlib
import ScriptHost.Proofs.Text.Bytes
import ScriptHost.Proofs.Text.Position

/-!
# Places — places told by bytes

A place counts newlines and characters, and a text is read byte by byte.  Every byte that does not go on with a
character begins one, so that a place is told by the bytes in front of it, also inside of a character: there it is the
place behind the first byte, and the bytes that are left of the character do not move it.
-/

namespace ScriptHost.Text

/-- Whether a byte begins a character; the others go on with one. -/
def begins (b : UInt8) : Bool := b &&& 0xC0 != 0x80

/-- The bytes of characters one behind the other. -/
def encode (cs : List Char) : List UInt8 := cs.flatMap String.utf8EncodeChar

/-- The place of what stands behind some bytes: a line for every newline, a column for every byte behind the last of
    them that begins a character. -/
def Position.behindBytes (bytes : List UInt8) : Position :=
  ⟨1 + bytes.count 10, 1 + (bytes.reverse.takeWhile (· != 10)).countP begins⟩

variable {bytes more : List UInt8} {b : UInt8} {c : Char} {cs ds : List Char}

/-! ## 1. The bytes of a character -/

theorem encode_nil : encode [] = [] := rfl

theorem encode_cons (c : Char) (cs : List Char) : encode (c :: cs) = String.utf8EncodeChar c ++ encode cs := rfl

theorem encode_append (cs ds : List Char) : encode (cs ++ ds) = encode cs ++ encode ds := List.flatMap_append

theorem encode_toList (s : String) : encode s.toList = utf8 s := by
  rw [utf8_eq, ← String.utf8Encode_toList, List.utf8Encode, List.toList_data_toByteArray]
  rfl

/-- How the bytes of a character look: the first one begins it and is a newline just where the character is, and the
    others go on with it. -/
structure Encoded (c : Char) (first : UInt8) (more : List UInt8) : Prop where
  bytes : String.utf8EncodeChar c = first :: more
  newline : first = 10 ↔ c = '\n'
  begins : begins first = true
  others : ∀ b ∈ more, Text.begins b = false

/-- A character has as many bytes as its size says. -/
theorem Encoded.size (h : Encoded c b more) : c.utf8Size = more.length + 1 := by
  rw [← String.length_utf8EncodeChar, h.bytes, List.length_cons]

/-- One byte is enough for the first 128 characters. -/
theorem utf8Size_eq_one_iff_lt : c.utf8Size = 1 ↔ c.toNat < 0x80 := by
  rw [Char.utf8Size_eq_one_iff, UInt32.le_iff_toNat_le]
  exact Nat.lt_succ_iff.symm

/-- The first byte of a longer character is no newline. -/
theorem ne_newline (long : c.utf8Size ≠ 1) : c ≠ '\n' := by
  rintro rfl
  exact long rfl

theorem exists_encoded (c : Char) : ∃ first more, Encoded c first more := by
  have other : ∀ x : BitVec 8, begins ⟨x &&& 63 ||| 128⟩ = false := by decide +kernel
  -- One case for each number of bytes; a longer character has a first byte of its own sort.
  have long {first : UInt8} {more : List UInt8} (size : c.utf8Size ≠ 1)
      (bytes : String.utf8EncodeChar c = first :: more) (starts : begins first = true ∧ first ≠ 10)
      (others : ∀ b ∈ more, begins b = false) : ∃ first more, Encoded c first more :=
    ⟨first, more, bytes, iff_of_false starts.2 (ne_newline size), starts.1, others⟩
  rcases Char.utf8Size_eq c with size | size | size | size
  · have small : c.toNat < 128 := utf8Size_eq_one_iff_lt.mp size
    have value : c.val.toUInt8.toNat = c.toNat := by
      rw [UInt32.toNat_toUInt8]
      exact Nat.mod_eq_of_lt (by change c.toNat < 2 ^ 8; omega)
    have short : ∀ x : BitVec 8, x.toNat < 128 → begins ⟨x⟩ = true := by decide +kernel
    refine ⟨c.val.toUInt8, [], String.utf8EncodeChar_eq_singleton size, ?_, ?_, by simp⟩
    · rw [← UInt8.toNat_inj, value, ← Char.toNat_inj]
      rfl
    · exact short c.val.toUInt8.toBitVec (by rw [← value] at small; exact small)
  · have starts : ∀ x : BitVec 8, begins ⟨x &&& 31 ||| 192⟩ = true ∧ (⟨x &&& 31 ||| 192⟩ : UInt8) ≠ 10 := by
      decide +kernel
    refine long (by omega) (String.utf8EncodeChar_eq_cons_cons size) (starts _) ?_
    simp only [List.mem_cons, List.not_mem_nil, or_false, forall_eq]
    exact other _
  · have starts : ∀ x : BitVec 8, begins ⟨x &&& 15 ||| 224⟩ = true ∧ (⟨x &&& 15 ||| 224⟩ : UInt8) ≠ 10 := by
      decide +kernel
    refine long (by omega) (String.utf8EncodeChar_eq_cons_cons_cons size) (starts _) ?_
    simp only [List.mem_cons, List.not_mem_nil, or_false, forall_eq_or_imp, forall_eq]
    exact ⟨other _, other _⟩
  · have starts : ∀ x : BitVec 8, begins ⟨x &&& 7 ||| 240⟩ = true ∧ (⟨x &&& 7 ||| 240⟩ : UInt8) ≠ 10 := by
      decide +kernel
    refine long (by omega) (String.utf8EncodeChar_eq_cons_cons_cons_cons size) (starts _) ?_
    simp only [List.mem_cons, List.not_mem_nil, or_false, forall_eq_or_imp, forall_eq]
    exact ⟨other _, other _, other _⟩

/-! ## 2. Places -/

/-- One byte further: a newline leads to the next line, the first byte of a character to the next column, and any other
    byte nowhere. -/
theorem Position.behindBytes_concat (bytes : List UInt8) (b : UInt8) :
    behindBytes (bytes ++ [b]) =
      if b = 10 then ⟨(behindBytes bytes).line + 1, 1⟩
      else if begins b then ⟨(behindBytes bytes).line, (behindBytes bytes).column + 1⟩
      else behindBytes bytes := by
  unfold behindBytes
  rw [List.count_append, List.reverse_concat, List.takeWhile_cons, List.count_singleton]
  by_cases newline : b = 10
  · subst newline
    rfl
  · rw [if_neg newline, if_pos (bne_iff_ne.mpr newline), List.countP_cons, beq_false_of_ne newline]
    by_cases starts : begins b = true
    · rw [if_pos starts, if_pos starts]
      exact congrArg (Position.mk _) (Nat.add_assoc 1 _ 1).symm
    · rw [if_neg starts, if_neg starts]
      rfl

/-- What goes on with a character does not move the place. -/
theorem Position.behindBytes_append_others (bytes : List UInt8) (others : ∀ b ∈ more, begins b = false) :
    behindBytes (bytes ++ more) = behindBytes bytes := by
  induction more generalizing bytes with
  | nil => rw [List.append_nil]
  | cons b more ih =>
    rw [List.forall_mem_cons] at others
    have still : behindBytes (bytes ++ [b]) = behindBytes bytes := by
      have newline : b ≠ 10 := by
        rintro rfl
        exact absurd others.1 (by decide)
      rw [behindBytes_concat, if_neg newline, others.1]
      rfl
    rw [← List.singleton_append, ← List.append_assoc, ih _ others.2, still]

/-- The first byte of a character moves the place as the character does. -/
theorem Position.behindBytes_first (coded : Encoded c b more) :
    behindBytes (bytes ++ [b]) = (behindBytes bytes).step c := by
  rw [behindBytes_concat, coded.begins, if_pos rfl, step]
  by_cases newline : c = '\n'
  · rw [if_pos (coded.newline.mpr newline), if_pos (beq_iff_eq.mpr newline)]
  · rw [if_neg fun h => newline (coded.newline.mp h), if_neg (by simpa using newline)]

theorem Position.behindBytes_char (bytes : List UInt8) (c : Char) :
    behindBytes (bytes ++ String.utf8EncodeChar c) = (behindBytes bytes).step c := by
  obtain ⟨first, more, coded⟩ := exists_encoded c
  rw [coded.bytes, ← List.singleton_append, ← List.append_assoc, behindBytes_append_others _ coded.others,
    behindBytes_first coded]

theorem Position.behindBytes_encode (bytes : List UInt8) (cs : List Char) :
    behindBytes (bytes ++ encode cs) = (behindBytes bytes).after cs := by
  induction cs generalizing bytes with
  | nil => rw [encode_nil, List.append_nil, after_nil]
  | cons c cs ih => rw [encode_cons, ← List.append_assoc, ih, behindBytes_char, after_cons]

/-- The place behind characters is the place behind their bytes. -/
theorem Position.start_after_eq (cs : List Char) : start.after cs = behindBytes (encode cs) := by
  rw [← List.nil_append (encode cs), behindBytes_encode]
  rfl

end ScriptHost.Text
