import ScriptHost.Compiler
import ScriptHost.Proofs.Text.Bytes

/-!
# Identity — what the digest of a corpus tells

The digest is taken of the paths and the texts, each closed by a zero byte, and so of the pieces into which zero
characters cut them.  Where there are no such characters the pieces are the paths and the texts themselves, and the
digest tells the files and their order; a text that holds one can pass for the end of one file and the beginning of
another.
-/

namespace ScriptHost

/-! ## 1. Bytes and digits -/

theorem utf8_append (s t : String) : utf8 (s ++ t) = utf8 s ++ utf8 t := by
  rw [utf8_eq, utf8_eq, utf8_eq, String.toByteArray_append, ByteArray.data_append, Array.toList_append]

theorem eq_of_utf8 {s t : String} (h : utf8 s = utf8 t) : s = t :=
  Option.some.inj ((fromUTF8?_eq_some_iff.mpr rfl).symm.trans (fromUTF8?_eq_some_iff.mpr h))

namespace Hash

/-- A byte is written as two digits. -/
theorem hexPadded_byte (b : UInt8) :
    (Text.hexPadded 2 b.toNat).toList = [Nat.digitChar (b.toNat / 16), Nat.digitChar (b.toNat % 16)] := by
  have all : ∀ n < 256, Text.hexPadded 2 n = String.ofList [Nat.digitChar (n / 16), Nat.digitChar (n % 16)] := by
    decide +kernel
  rw [all b.toNat b.toNat_lt, String.toList_ofList]

theorem eq_of_digitChar {m n : Nat} (hm : m < 16) (hn : n < 16) (same : Nat.digitChar m = Nat.digitChar n) :
    m = n := by
  have all : ∀ m < 16, ∀ n < 16, Nat.digitChar m = Nat.digitChar n → m = n := by
    decide +kernel
  exact all m hm n hn same

/-- Different bytes have different digits. -/
theorem eq_of_hexText {xs ys : List UInt8} (h : hexText xs = hexText ys) : xs = ys := by
  replace h := congrArg String.toList h
  simp only [hexText, String.toList_join, List.flatMap_map, hexPadded_byte] at h
  induction xs generalizing ys with
  | nil =>
    cases ys with
    | nil => rfl
    | cons y ys => exact nomatch h
  | cons x xs ih =>
    cases ys with
    | nil => exact nomatch h
    | cons y ys =>
      simp only [List.flatMap_cons, List.cons_append, List.nil_append, List.cons.injEq] at h
      obtain ⟨high, low, others⟩ := h
      have high := eq_of_digitChar (Nat.div_lt_of_lt_mul x.toNat_lt) (Nat.div_lt_of_lt_mul y.toNat_lt) high
      have low := eq_of_digitChar (Nat.mod_lt _ (by decide)) (Nat.mod_lt _ (by decide)) low
      have same : x = y := UInt8.toNat_inj.mp (by omega)
      rw [same, ih others]

theorem length_blake3 (bytes : List UInt8) : (blake3 bytes).length = 32 := by
  have words : ((tree 0 bytes).compress root).toList.length = 8 := by
    rw [Array.length_toList, Node.compress, Array.size_ofFn]
  rw [blake3, List.length_flatMap]
  show (List.map (fun _ => 4) _).sum = 32
  rw [List.map_const', List.sum_replicate_nat, words]

theorem length_hexText (bytes : List UInt8) : (hexText bytes).length = bytes.length * 2 := by
  rw [← String.length_toList, hexText, String.toList_join, List.flatMap_map, List.length_flatMap]
  simp only [hexPadded_byte]
  show (List.map (fun _ => 2) _).sum = _
  rw [List.map_const', List.sum_replicate_nat]

end Hash

/-- A digest is short, whatever it is taken of. -/
theorem Source.length_corpusHash_le (files : List Source) : (utf8 (Source.corpusHash files)).length ≤ 256 := by
  have bytes := length_utf8_le (Source.corpusHash files)
  rwa [Source.corpusHash, Hash.length_hexText, Hash.length_blake3] at bytes

/-! ## 2. Pieces -/

theorem SourcePath.eq_of_isText {p q : SourcePath} (hp : p.isText = true) (hq : q.isText = true)
    (shown : p.shown = q.shown) : p = q := by
  obtain ⟨s, stray⟩ := p
  obtain ⟨t, stray'⟩ := q
  obtain rfl := List.isEmpty_iff.mp hp
  obtain rfl := List.isEmpty_iff.mp hq
  exact congrArg (SourcePath.mk · []) shown

namespace Source

/-- A path and a text, cut at their zero characters. -/
def pieces (f : Source) : List (List Char) := f.path.shown.toList.splitOn '\x00' ++ f.content.toList.splitOn '\x00'

/-- The text whose bytes the digest is taken of. -/
def marked (files : List Source) : String :=
  String.join (files.map fun f => f.path.shown ++ "\x00" ++ f.content ++ "\x00")

theorem preimage_eq (files : List Source) : preimage files = utf8 (marked files) := by
  induction files with
  | nil => exact (utf8_eq "").symm
  | cons f fs ih =>
    have zero : utf8 "\x00" = [0] := utf8_eq "\x00"
    have first : preimage (f :: fs) = utf8 f.path.shown ++ 0 :: utf8 f.content ++ [0] ++ preimage fs := rfl
    rw [first, ih, marked, marked, List.map_cons, String.join_cons]
    simp only [utf8_append, zero, List.append_assoc, List.singleton_append]

theorem splitOn_marked (files : List Source) :
    (marked files).toList.splitOn '\x00' = files.flatMap pieces ++ [[]] := by
  induction files with
  | nil => rfl
  | cons f fs ih =>
    have first : (marked (f :: fs)).toList =
        f.path.shown.toList ++ '\x00' :: (f.content.toList ++ '\x00' :: (marked fs).toList) := by
      simp [marked]
    rw [first, List.splitOn_append_cons_self, List.splitOn_append_cons_self, ih, List.flatMap_cons, pieces,
      List.append_assoc, List.append_assoc]

/-- The digest is taken of the same bytes exactly where the pieces are the same. -/
theorem preimage_eq_iff {files files' : List Source} :
    preimage files = preimage files' ↔ files.flatMap pieces = files'.flatMap pieces := by
  rw [preimage_eq, preimage_eq]
  constructor
  · intro same
    have cut : files.flatMap pieces ++ [[]] = files'.flatMap pieces ++ [[]] := by
      rw [← splitOn_marked, ← splitOn_marked, eq_of_utf8 same]
    exact List.append_cancel_right cut
  · intro same
    have joined (files : List Source) :
        (marked files).toList = ['\x00'].intercalate (files.flatMap pieces ++ [[]]) := by
      rw [← splitOn_marked, List.intercalate_splitOn]
    rw [String.toList_inj.mp ((joined files).trans (same ▸ (joined files').symm))]

/-! ## 3. Files without zero characters -/

/-- The path is text, and there is no zero character in it nor in the text of the file. -/
structure Plain (f : Source) : Prop where
  isText : f.path.isText = true
  path : '\x00' ∉ f.path.shown.toList
  content : '\x00' ∉ f.content.toList

instance (f : Source) : Decidable f.Plain :=
  decidable_of_iff (f.path.isText = true ∧ '\x00' ∉ f.path.shown.toList ∧ '\x00' ∉ f.content.toList)
    ⟨fun ⟨isText, path, content⟩ => ⟨isText, path, content⟩, fun h => ⟨h.isText, h.path, h.content⟩⟩

/-- The path and the text of each file, in order. -/
def contents (files : List Source) : List (SourcePath × String) := files.map fun f => (f.path, f.content)

theorem Plain.pieces_eq {f : Source} (h : f.Plain) : f.pieces = [f.path.shown.toList, f.content.toList] := by
  rw [pieces, List.splitOn_eq_singleton h.path, List.splitOn_eq_singleton h.content]
  rfl

theorem contents_of_pieces {files files' : List Source} (plain : ∀ f ∈ files, f.Plain)
    (plain' : ∀ f ∈ files', f.Plain) (same : files.flatMap pieces = files'.flatMap pieces) :
    contents files = contents files' := by
  -- On the files: a plain one has two pieces, its path and its content, so the pieces of the next one follow.
  induction files generalizing files' with
  | nil =>
    cases files' with
    | nil => rfl
    | cons g gs =>
      rw [List.flatMap_cons, (plain' g List.mem_cons_self).pieces_eq] at same
      exact nomatch same
  | cons f fs ih =>
    have first := plain f List.mem_cons_self
    rw [List.flatMap_cons, first.pieces_eq] at same
    cases files' with
    | nil => exact nomatch same
    | cons g gs =>
      have first' := plain' g List.mem_cons_self
      rw [List.flatMap_cons, first'.pieces_eq] at same
      simp only [List.cons_append, List.nil_append, List.cons.injEq, String.toList_inj] at same
      obtain ⟨shown, content, others⟩ := same
      have path : f.path = g.path := SourcePath.eq_of_isText first.isText first'.isText shown
      have rest := ih (fun x hx => plain x (List.mem_cons_of_mem f hx))
        (fun x hx => plain' x (List.mem_cons_of_mem g hx)) others
      show (f.path, f.content) :: contents fs = (g.path, g.content) :: contents gs
      rw [path, content, rest]

end Source

/-! ## 4. Units -/

namespace Compiler

variable (c c' : Compiler) {batch batch' : Batch}

/-- Where no path and no text holds a zero character, the digest is taken of different bytes for different files,
    and two units with the same digest, for which BLAKE3 does not collide, were compiled from the same files in the
    same order. -/
theorem corpusHash_exact (plain : ∀ f ∈ batch.files, f.Plain) (plain' : ∀ f ∈ batch'.files, f.Plain) :
    (Source.preimage batch.files = Source.preimage batch'.files →
      Source.contents batch.files = Source.contents batch'.files) ∧
    ((Hash.blake3 (Source.preimage batch.files) = Hash.blake3 (Source.preimage batch'.files) →
        Source.preimage batch.files = Source.preimage batch'.files) →
      (c.compile batch).1.corpusHash = (c'.compile batch').1.corpusHash →
      Source.contents batch.files = Source.contents batch'.files) := by
  have told (same : Source.preimage batch.files = Source.preimage batch'.files) :
      Source.contents batch.files = Source.contents batch'.files :=
    Source.contents_of_pieces plain plain' (Source.preimage_eq_iff.mp same)
  exact ⟨told, fun apart same => told (apart (Hash.eq_of_hexText same))⟩

/-- Two files with a comment each. -/
def remarks : Batch := ⟨[⟨"a.ks", "//", .time 0⟩, ⟨"b.ks", "//", .time 0⟩], []⟩

/-- One file whose comment goes on like the second of the two. -/
def joinedRemarks : Batch := ⟨[⟨"a.ks", "//\x00b.ks\x00//", .time 0⟩], []⟩

/-- The two files, changed at another time. -/
def touchedRemarks : Batch := ⟨[⟨"a.ks", "//", .time 1⟩, ⟨"b.ks", "//", .time 2⟩], []⟩

theorem remarks_identified :
    ((create toString false).compile remarks).1.corpusHash =
        ((create toString true).compile touchedRemarks).1.corpusHash ∧
      Source.contents remarks.files = Source.contents touchedRemarks.files := by
  have bytes : Source.preimage remarks.files = Source.preimage touchedRemarks.files := rfl
  have same : ((create toString false).compile remarks).1.corpusHash =
      ((create toString true).compile touchedRemarks).1.corpusHash :=
    congrArg (fun bytes => Hash.hexText (Hash.blake3 bytes)) bytes
  exact ⟨same, (corpusHash_exact _ _ (by decide) (by decide)).2 (fun _ => bytes) same⟩

/-- A zero character in a comment: two files and one have the same digest. -/
theorem joined_remarks_unseen :
    Source.preimage joinedRemarks.files = Source.preimage remarks.files ∧
      ((create toString false).compile joinedRemarks).1.corpusHash =
        ((create toString false).compile remarks).1.corpusHash ∧
      ((create toString false).compile joinedRemarks).1.isActive = true ∧
      ((create toString false).compile remarks).1.isActive = true ∧
      joinedRemarks.files.length = 1 ∧ remarks.files.length = 2 := by
  have same : Source.preimage joinedRemarks.files = Source.preimage remarks.files := by
    decide +kernel
  exact ⟨same, congrArg (fun bytes => Hash.hexText (Hash.blake3 bytes)) same, by decide +kernel,
    by decide +kernel, rfl, rfl⟩

end Compiler

end ScriptHost
