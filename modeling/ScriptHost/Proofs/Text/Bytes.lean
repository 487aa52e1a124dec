import Mathlib.Algebra.Order.BigOperators.Group.List
import Mathlib.Algebra.Order.Group.Nat
import ScriptHost.Source

/-!
# Bytes — the bytes of a text

Some bytes spell at most one text, and the bytes of a text spell that one.
-/

namespace ScriptHost

/-- The walk over an array puts its bytes, from number `i` on, behind those that it has taken. -/
theorem toList_loop (b : ByteArray) (i : Nat) (taken : List UInt8) :
    ByteArray.toList.loop b i taken = taken.reverse ++ b.data.toList.drop i := by
  fun_induction ByteArray.toList.loop b i taken with
  | case1 i taken more ih =>
    have next : b.data.toList.drop i = b.get! i :: b.data.toList.drop (i + 1) := by
      rw [List.drop_eq_getElem_cons (show i < b.data.toList.length from more), Array.getElem_toList]
      exact congrArg (· :: _) (getElem!_pos b.data i more).symm
    rw [ih, next, List.reverse_cons, List.append_assoc, List.singleton_append]
  | case2 i taken done =>
    have behind : b.data.toList.length ≤ i := Nat.le_of_not_lt done
    rw [List.drop_eq_nil_of_le behind, List.append_nil]

theorem utf8_eq (s : String) : utf8 s = s.toByteArray.data.toList := toList_loop s.toUTF8 0 []

/-- A character takes a byte at least. -/
theorem length_le_utf8 (s : String) : s.length ≤ (utf8 s).length := by
  rw [utf8_eq, ← String.utf8Encode_toList, List.utf8Encode, List.toList_data_toByteArray, List.length_flatMap,
    ← s.length_toList, ← List.length_map (fun c => (String.utf8EncodeChar c).length)]
  refine List.length_le_sum_of_one_le _ (List.forall_mem_map.mpr fun c _ => ?_)
  rw [String.length_utf8EncodeChar]
  exact c.utf8Size_pos

/-- A character takes four bytes at most. -/
theorem length_utf8_le (s : String) : (utf8 s).length ≤ s.length * 4 := by
  rw [utf8_eq, ← String.utf8Encode_toList, List.utf8Encode, List.toList_data_toByteArray, List.length_flatMap,
    ← s.length_toList, ← List.length_map (fun c => (String.utf8EncodeChar c).length)]
  refine List.sum_le_card_nsmul _ 4 (List.forall_mem_map.mpr fun c _ => ?_)
  rw [String.length_utf8EncodeChar]
  exact c.utf8Size_le_four

/-- Bytes are read as the text that they are the bytes of. -/
theorem fromUTF8?_eq_some_iff {bytes : List UInt8} {s : String} :
    String.fromUTF8? ⟨bytes.toArray⟩ = some s ↔ bytes = utf8 s := by
  rw [utf8_eq]
  constructor
  · intro h
    unfold String.fromUTF8? at h
    split at h
    · obtain rfl := Option.some.inj h
      rfl
    · cases h
  · rintro rfl
    unfold String.fromUTF8?
    have same : (⟨s.toByteArray.data.toList.toArray⟩ : ByteArray) = s.toByteArray := by
      rw [Array.toArray_toList]
    rw [same, dif_pos s.isValidUTF8]
    rfl

end ScriptHost
