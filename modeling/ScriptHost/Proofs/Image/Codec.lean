import Mathlib.Algebra.Order.Group.Nat
import ScriptHost.Image.Codec
import ScriptHost.Proofs.Text.Bytes

/-!
# Codec — reading is the inverse of writing

What is read off the front of some bytes is what was written there, and nothing else can be read there.  So
the bytes of an image give the image back whatever stands behind them, bytes that give an image start with its
bytes, and no beginning of an image's bytes is enough.  A length takes eight bytes; texts and lists that are
longer than eight bytes can say do not exist outside these definitions, and `Fits` leaves them out.
-/

namespace ScriptHost.Image

/-! ## 1. Parts -/

section Parts

variable {α β : Type} {fits : α → Prop} {put : α → Bytes} {take? : Bytes → Option (α × Bytes)}
  {bs rest : Bytes} {n width : Nat}

/-- A value is taken from the front of exactly those bytes that start with its written form. -/
def Reads (fits : α → Prop) (put : α → Bytes) (take? : Bytes → Option (α × Bytes)) : Prop :=
  ∀ bs a rest, take? bs = some (a, rest) ↔ fits a ∧ bs = put a ++ rest

/-- Reading that goes on behind a first part. -/
theorem Reads.bind_iff (h : Reads fits put take?) {k : α × Bytes → Option β} {b : β} :
    (take? bs).bind k = some b ↔ ∃ a, fits a ∧ ∃ behind, bs = put a ++ behind ∧ k (a, behind) = some b := by
  rw [Option.bind_eq_some_iff]
  constructor
  · rintro ⟨⟨a, behind⟩, taken, found⟩
    obtain ⟨ha, rfl⟩ := (h _ _ _).mp taken
    exact ⟨a, ha, behind, rfl, found⟩
  · rintro ⟨a, ha, behind, rfl, found⟩
    exact ⟨(a, behind), (h _ _ _).mpr ⟨ha, rfl⟩, found⟩

/-- Digits to the base of a byte, the lowest first. -/
theorem takeNat?_eq_some_iff :
    takeNat? width bs = some (n, rest) ↔ n < 256 ^ width ∧ bs = putNat width n ++ rest := by
  -- On the width: the first byte is the lowest digit, and the others are those of the quotient.
  induction width generalizing n bs rest with
  | zero =>
    simp only [takeNat?, putNat, Option.some.injEq, Prod.mk.injEq, List.nil_append, Nat.pow_zero,
      Nat.lt_one_iff]
    exact and_congr_left fun _ => eq_comm
  | succ width ih =>
    cases bs with
    | nil => simp [takeNat?, putNat]
    | cons b bs =>
      simp only [takeNat?, putNat, Option.bind_eq_bind, Option.bind_eq_some_iff, Prod.exists, ih,
        Option.some.injEq, Prod.mk.injEq, List.cons_append, List.cons.injEq]
      have low := b.toNat_lt
      constructor
      · rintro ⟨high, behind, ⟨small, rfl⟩, rfl, rfl⟩
        have digit : (b.toNat + 256 * high).toUInt8 = b := by
          apply UInt8.toNat_inj.mp
          rw [UInt8.toNat_ofNat']
          omega
        have others : (b.toNat + 256 * high) / 256 = high := by omega
        refine ⟨?_, digit.symm, by rw [others]⟩
        rw [Nat.pow_succ]
        omega
      · rintro ⟨small, rfl, rfl⟩
        rw [Nat.pow_succ] at small
        refine ⟨n / 256, rest, ⟨by omega, rfl⟩, ?_, rfl⟩
        rw [UInt8.toNat_ofNat']
        omega

theorem reads_length : Reads (· < 2 ^ 64) putLength takeLength? :=
  fun _ _ _ => takeNat?_eq_some_iff

theorem reads_bool : Reads (fun _ => True) putBool takeBool? := by
  intro bs b rest
  unfold takeBool?
  split
  · cases b <;> simp [putBool, eq_comm]
  · cases b <;> simp [putBool, eq_comm]
  · next notZero notOne =>
    cases b with
    | false => simpa [putBool] using notZero rest
    | true => simpa [putBool] using notOne rest

/-- A text whose length can be written. -/
def TextFits (s : String) : Prop := (utf8 s).length < 2 ^ 64

instance : DecidablePred TextFits := fun _ => inferInstanceAs (Decidable (_ < _))

theorem reads_string : Reads TextFits putString takeString? := by
  intro bs s rest
  rw [takeString?]
  simp only [Option.bind_eq_bind, reads_length.bind_iff]
  constructor
  · rintro ⟨n, small, behind, rfl, found⟩
    split at found
    · cases found
    · next enough =>
      obtain ⟨s', spelled, made⟩ := Option.bind_eq_some_iff.mp found
      obtain ⟨rfl, rfl⟩ := Prod.mk.inj (Option.some.inj made)
      -- The bytes that were taken are those of the text, as many as the length says.
      have bytes := fromUTF8?_eq_some_iff.mp spelled
      have count : (utf8 s').length = n := by
        rw [← bytes, List.length_take]
        omega
      refine ⟨by rw [TextFits, count]; exact small, ?_⟩
      rw [putString, count, List.append_assoc, ← bytes, List.take_append_drop]
  · rintro ⟨small, rfl⟩
    refine ⟨(utf8 s).length, small, utf8 s ++ rest, by rw [putString, List.append_assoc], ?_⟩
    rw [if_neg (by rw [List.length_append]; omega), List.take_left, List.drop_left,
      fromUTF8?_eq_some_iff.mpr rfl]
    rfl

theorem reads_option (h : Reads fits put take?) :
    Reads (fun o => ∀ a ∈ o, fits a) (putOption put) (takeOption? take?) := by
  intro bs o rest
  unfold takeOption?
  split
  · next bs =>
    cases o <;> simp [putOption, eq_comm]
  · next bs =>
    rw [Option.map_eq_some_iff]
    constructor
    · rintro ⟨⟨a, behind⟩, taken, made⟩
      obtain ⟨rfl, rfl⟩ := Prod.mk.inj made
      obtain ⟨ha, rfl⟩ := (h _ _ _).mp taken
      exact ⟨fun b hb => Option.some.inj hb ▸ ha, rfl⟩
    · rintro ⟨ho, there⟩
      cases o with
      | none => simp [putOption] at there
      | some a =>
        obtain ⟨-, rfl⟩ := List.cons.inj there
        exact ⟨(a, rest), (h _ _ _).mpr ⟨ho a rfl, rfl⟩, rfl⟩
  · next notZero notOne =>
    cases o with
    | none => simpa [putOption] using notZero rest
    | some a => simpa [putOption] using fun _ => notOne (put a ++ rest)

/-- Values are taken one after the other, as many as there should be. -/
theorem takeMany?_eq_some_iff (h : Reads fits put take?) {as : List α} :
    takeMany? take? n bs = some (as, rest) ↔
      as.length = n ∧ (∀ a ∈ as, fits a) ∧ bs = as.flatMap put ++ rest := by
  induction n generalizing bs as rest with
  | zero =>
    rw [takeMany?, Option.some.injEq, Prod.mk.injEq, List.length_eq_zero_iff]
    constructor
    · rintro ⟨rfl, rfl⟩
      exact ⟨rfl, fun a ha => absurd ha List.not_mem_nil, rfl⟩
    · rintro ⟨rfl, -, rfl⟩
      exact ⟨rfl, rfl⟩
  | succ n ih =>
    simp only [takeMany?, Option.bind_eq_bind, h.bind_iff, Option.bind_eq_some_iff, Prod.exists, ih,
      Option.some.injEq, Prod.mk.injEq]
    constructor
    · rintro ⟨a, ha, behind, rfl, as, behind', ⟨count, has, rfl⟩, rfl, rfl⟩
      refine ⟨congrArg (· + 1) count, List.forall_mem_cons.mpr ⟨ha, has⟩, ?_⟩
      rw [List.flatMap_cons, List.append_assoc]
    · rintro ⟨count, has, rfl⟩
      cases as with
      | nil => cases count
      | cons a as =>
        obtain ⟨ha, has⟩ := List.forall_mem_cons.mp has
        refine ⟨a, ha, as.flatMap put ++ rest, ?_, as, rest, ⟨Nat.succ.inj count, has, rfl⟩, rfl, rfl⟩
        rw [List.flatMap_cons, List.append_assoc]

/-- A list whose length can be written, of values that can. -/
def ListFits (fits : α → Prop) (as : List α) : Prop := as.length < 2 ^ 64 ∧ ∀ a ∈ as, fits a

instance [DecidablePred fits] : DecidablePred (ListFits fits) :=
  fun _ => inferInstanceAs (Decidable (_ ∧ _))

theorem reads_list (h : Reads fits put take?) : Reads (ListFits fits) (putList put) (takeList? take?) := by
  intro bs as rest
  simp only [takeList?, Option.bind_eq_bind, reads_length.bind_iff, takeMany?_eq_some_iff h, putList]
  constructor
  · rintro ⟨n, small, behind, rfl, rfl, has, rfl⟩
    exact ⟨⟨small, has⟩, by rw [List.append_assoc]⟩
  · rintro ⟨⟨small, has⟩, rfl⟩
    exact ⟨as.length, small, as.flatMap put ++ rest, by rw [List.append_assoc], rfl, has, rfl⟩

end Parts

/-! ## 2. Records -/

def Function.Fits (f : Function) : Prop := TextFits f.name ∧ ListFits TextFits f.params ∧ TextFits f.text

instance : DecidablePred Function.Fits := fun _ => inferInstanceAs (Decidable (_ ∧ _ ∧ _))

def Field.Fits (f : Field) : Prop := TextFits f.name ∧ TextFits f.kind

instance : DecidablePred Field.Fits := fun _ => inferInstanceAs (Decidable (_ ∧ _))

def TypeDecl.Fits (t : TypeDecl) : Prop :=
  TextFits t.name ∧ (∀ base ∈ t.base, TextFits base) ∧ TextFits t.path ∧ ListFits Field.Fits t.fields ∧
    ListFits Function.Fits t.methods

instance : DecidablePred TypeDecl.Fits := fun _ => inferInstanceAs (Decidable (_ ∧ _ ∧ _ ∧ _ ∧ _))

def Module.Fits (m : Module) : Prop := TextFits m.path ∧ ListFits Function.Fits m.functions

instance : DecidablePred Module.Fits := fun _ => inferInstanceAs (Decidable (_ ∧ _))

/-- An image every length of which can be written. -/
def Fits (i : Image) : Prop :=
  TextFits i.unit ∧ TextFits i.corpusHash ∧ ListFits Module.Fits i.modules ∧ ListFits TypeDecl.Fits i.types

instance : DecidablePred Image.Fits := fun _ => inferInstanceAs (Decidable (_ ∧ _ ∧ _ ∧ _))

/-- A part is taken off the front of a record, and the record goes on behind it. -/
theorem Reads.next {α : Type} {fits : α → Prop} {put : α → Bytes} {take? : Bytes → Option (α × Bytes)}
    {β : Type} {k : α × Bytes → Option β} {a : α} {behind : Bytes} (h : Reads fits put take?) (ha : fits a) :
    (take? (put a ++ behind)).bind k = k (a, behind) := by
  rw [(h _ _ _).mpr ⟨ha, rfl⟩]
  rfl

theorem reads_function : Reads Function.Fits Function.put Function.take? := by
  intro bs f rest
  simp only [Function.take?, Option.bind_eq_bind]
  constructor
  · intro h
    simp only [reads_string.bind_iff, (reads_list reads_string).bind_iff] at h
    obtain ⟨name, hname, _, rfl, params, hparams, _, rfl, text, htext, _, rfl, made⟩ := h
    obtain ⟨rfl, rfl⟩ := Prod.mk.inj (Option.some.inj made)
    exact ⟨⟨hname, hparams, htext⟩, by simp only [Function.put, List.append_assoc]⟩
  · rintro ⟨⟨hname, hparams, htext⟩, rfl⟩
    simp only [Function.put, List.append_assoc]
    rw [reads_string.next hname, (reads_list reads_string).next hparams, reads_string.next htext]

theorem reads_field : Reads Field.Fits Field.put Field.take? := by
  intro bs f rest
  simp only [Field.take?, Option.bind_eq_bind]
  constructor
  · intro h
    simp only [reads_string.bind_iff, reads_bool.bind_iff] at h
    obtain ⟨name, hname, _, rfl, kind, hkind, _, rfl, isPublic, -, _, rfl, made⟩ := h
    obtain ⟨rfl, rfl⟩ := Prod.mk.inj (Option.some.inj made)
    exact ⟨⟨hname, hkind⟩, by simp only [Field.put, List.append_assoc]⟩
  · rintro ⟨⟨hname, hkind⟩, rfl⟩
    simp only [Field.put, List.append_assoc]
    rw [reads_string.next hname, reads_string.next hkind, reads_bool.next trivial]

theorem reads_typeDecl : Reads TypeDecl.Fits TypeDecl.put TypeDecl.take? := by
  intro bs t rest
  simp only [TypeDecl.take?, Option.bind_eq_bind]
  constructor
  · intro h
    simp only [reads_string.bind_iff, (reads_option reads_string).bind_iff, reads_bool.bind_iff,
      (reads_list reads_field).bind_iff, (reads_list reads_function).bind_iff] at h
    obtain ⟨name, hname, _, rfl, base, hbase, _, rfl, isAbstract, -, _, rfl, path, hpath, _, rfl, fields,
      hfields, _, rfl, methods, hmethods, _, rfl, made⟩ := h
    obtain ⟨rfl, rfl⟩ := Prod.mk.inj (Option.some.inj made)
    exact ⟨⟨hname, hbase, hpath, hfields, hmethods⟩, by simp only [TypeDecl.put, List.append_assoc]⟩
  · rintro ⟨⟨hname, hbase, hpath, hfields, hmethods⟩, rfl⟩
    simp only [TypeDecl.put, List.append_assoc]
    rw [reads_string.next hname, (reads_option reads_string).next hbase, reads_bool.next trivial,
      reads_string.next hpath, (reads_list reads_field).next hfields,
      (reads_list reads_function).next hmethods]

theorem reads_module : Reads Module.Fits Module.put Module.take? := by
  intro bs m rest
  simp only [Module.take?, Option.bind_eq_bind]
  constructor
  · intro h
    simp only [reads_string.bind_iff, (reads_list reads_function).bind_iff] at h
    obtain ⟨path, hpath, _, rfl, functions, hfunctions, _, rfl, made⟩ := h
    obtain ⟨rfl, rfl⟩ := Prod.mk.inj (Option.some.inj made)
    exact ⟨⟨hpath, hfunctions⟩, by simp only [Module.put, List.append_assoc]⟩
  · rintro ⟨⟨hpath, hfunctions⟩, rfl⟩
    simp only [Module.put, List.append_assoc]
    rw [reads_string.next hpath, (reads_list reads_function).next hfunctions]

/-- A version takes four bytes, and every version fits. -/
theorem reads_version : Reads (· < 256 ^ 4) (putNat 4) (takeNat? 4) := fun _ _ _ => takeNat?_eq_some_iff

/-- An image is taken from the front of exactly those bytes that start with its own. -/
theorem reads_image : Reads Image.Fits encode take? := by
  intro bs i rest
  simp only [take?, Option.bind_eq_bind]
  constructor
  · intro h
    simp only [reads_version.bind_iff, reads_string.bind_iff, (reads_list reads_module).bind_iff,
      (reads_list reads_typeDecl).bind_iff] at h
    obtain ⟨version, small, _, rfl, unit, hunit, _, rfl, hash, hhash, _, rfl, modules, hmodules, _, rfl,
      types, htypes, _, rfl, made⟩ := h
    obtain ⟨rfl, rfl⟩ := Prod.mk.inj (Option.some.inj made)
    have same : version.toUInt32.toNat = version := UInt32.toNat_ofNat_of_lt' small
    exact ⟨⟨hunit, hhash, hmodules, htypes⟩, by simp only [encode, same, List.append_assoc]⟩
  · rintro ⟨⟨hunit, hhash, hmodules, htypes⟩, rfl⟩
    simp only [encode, List.append_assoc]
    rw [reads_version.next i.version.toNat_lt, reads_string.next hunit, reads_string.next hhash,
      (reads_list reads_module).next hmodules, (reads_list reads_typeDecl).next htypes]
    simp only [Nat.toUInt32_eq, UInt32.ofNat_toNat]

/-! ## 3. Lengths -/

section Lengths

variable {α : Type} {fits : α → Prop} {put : α → Bytes}

/-- A value takes some bytes, and where a length can tell how many, it fits. -/
structure Sized (fits : α → Prop) (put : α → Bytes) : Prop where
  takes : ∀ a, 0 < (put a).length
  fits : ∀ a, (put a).length < 2 ^ 64 → fits a

theorem length_putNat (width n : Nat) : (putNat width n).length = width := by
  induction width generalizing n with
  | zero => rfl
  | succ width ih => exact congrArg (· + 1) (ih (n / 256))

theorem sized_string : Sized TextFits putString where
  takes s := by
    rw [putString, putLength, List.length_append, length_putNat]
    omega
  fits s small := by
    rw [putString, List.length_append] at small
    exact Nat.lt_of_le_of_lt (Nat.le_add_left _ _) small

theorem Sized.list (h : Sized fits put) : Sized (ListFits fits) (putList put) where
  takes as := by
    rw [putList, putLength, List.length_append, length_putNat]
    omega
  fits as small := by
    rw [putList, List.length_append, List.length_flatMap] at small
    have count : as.length ≤ (as.map fun a => (put a).length).sum := by
      rw [← List.length_map (fun a => (put a).length)]
      exact List.length_le_sum_of_one_le _ (List.forall_mem_map.mpr fun a _ => h.takes a)
    refine ⟨by omega, fun a ha => h.fits a ?_⟩
    have part := List.le_sum_of_mem (List.mem_map_of_mem (f := fun a => (put a).length) ha)
    omega

theorem sized_function : Sized Function.Fits Function.put where
  takes f := by
    have name := sized_string.takes f.name
    simp only [Function.put, List.length_append]
    omega
  fits f small := by
    simp only [Function.put, List.length_append] at small
    exact ⟨sized_string.fits _ (by omega), sized_string.list.fits _ (by omega), sized_string.fits _ (by omega)⟩

theorem sized_field : Sized Field.Fits Field.put where
  takes f := by
    have name := sized_string.takes f.name
    simp only [Field.put, List.length_append]
    omega
  fits f small := by
    simp only [Field.put, List.length_append] at small
    exact ⟨sized_string.fits _ (by omega), sized_string.fits _ (by omega)⟩

theorem sized_typeDecl : Sized TypeDecl.Fits TypeDecl.put where
  takes t := by
    have name := sized_string.takes t.name
    simp only [TypeDecl.put, List.length_append]
    omega
  fits t small := by
    simp only [TypeDecl.put, List.length_append] at small
    have base : ∀ base ∈ t.base, TextFits base := by
      intro base there
      rw [Option.mem_def.mp there, putOption, List.length_cons] at small
      exact sized_string.fits _ (by omega)
    exact ⟨sized_string.fits _ (by omega), base, sized_string.fits _ (by omega), sized_field.list.fits _ (by omega),
      sized_function.list.fits _ (by omega)⟩

theorem sized_module : Sized Module.Fits Module.put where
  takes m := by
    have path := sized_string.takes m.path
    simp only [Module.put, List.length_append]
    omega
  fits m small := by
    simp only [Module.put, List.length_append] at small
    exact ⟨sized_string.fits _ (by omega), sized_function.list.fits _ (by omega)⟩

/-- An image whose bytes can be counted fits. -/
theorem fits_of_length {i : Image} (small : (encode i).length < 2 ^ 64) : i.Fits := by
  simp only [encode, List.length_append] at small
  exact ⟨sized_string.fits _ (by omega), sized_string.fits _ (by omega), sized_module.list.fits _ (by omega),
    sized_typeDecl.list.fits _ (by omega)⟩

/-- The digest adds its own bytes only. -/
theorem length_encode_le (i : Image) :
    (encode i).length ≤ (encode { i with corpusHash := "" }).length + (utf8 i.corpusHash).length := by
  simp only [encode, putString, putLength, List.length_append, length_putNat]
  omega

end Lengths

/-! ## 4. Whole images -/

variable {i j : Image} {bs rest : Bytes}

theorem take?_encode (h : i.Fits) (rest : Bytes) : take? (encode i ++ rest) = some (i, rest) :=
  (reads_image _ _ _).mpr ⟨h, rfl⟩

/-- What is decoded depends on the image at the front alone. -/
theorem decode_encode (h : i.Fits) (rest : Bytes) : decode (encode i ++ rest) =
    if i.version = hostVersion then .ok i else .error (.version i.unit i.version) := by
  rw [decode, take?_encode h]

theorem decode_eq_ok_iff : decode bs = .ok i ↔ i.version = hostVersion ∧ i.Fits ∧ encode i <+: bs := by
  constructor
  · intro h
    unfold decode at h
    split at h
    · cases h
    · next j behind taken =>
      split at h
      · next current =>
        obtain rfl := Except.ok.inj h
        obtain ⟨fits, rfl⟩ := (reads_image _ _ _).mp taken
        exact ⟨current, fits, List.prefix_append _ _⟩
      · cases h
  · rintro ⟨current, fits, behind, rfl⟩
    rw [decode_encode fits, if_pos current]

/-- Bytes are malformed where they start with no image at all. -/
theorem decode_eq_malformed_iff :
    decode bs = .error .malformed ↔ ∀ i : Image, i.Fits → ¬ encode i <+: bs := by
  constructor
  · rintro h i fits ⟨behind, rfl⟩
    rw [decode_encode fits] at h
    split at h
    · cases h
    · cases h
  · intro none
    unfold decode
    split
    · rfl
    · next i behind taken =>
      obtain ⟨fits, rfl⟩ := (reads_image _ _ _).mp taken
      exact absurd (List.prefix_append _ _) (none i fits)

/-- No image's bytes are the beginning of another's. -/
theorem eq_of_encode_prefix (hi : i.Fits) (hj : j.Fits) (h : encode i <+: encode j) : i = j := by
  obtain ⟨behind, same⟩ := h
  have left := take?_encode hi behind
  have right := take?_encode hj []
  rw [List.append_nil] at right
  rw [same, right] at left
  exact (Prod.mk.inj (Option.some.inj left)).1.symm

/-- Writing and reading images are inverse to each other.  An image of this host's version is read back from its
    bytes whatever follows them, and one of another version is refused by name; whatever is read was written
    there; the bytes that are taken for an image are its own and no others; and no part of them is enough. -/
theorem codec_exact :
    (∀ i : Image, i.Fits → i.version = hostVersion → ∀ rest, decode (encode i ++ rest) = .ok i) ∧
    (∀ i : Image, i.Fits → i.version ≠ hostVersion → ∀ rest, ∃ e, decode (encode i ++ rest) = .error e ∧
      e.message = s!"unit {i.unit} was built for host ABI {i.version} but this host is ABI {hostVersion}") ∧
    (∀ bs i, decode bs = .ok i → encode i <+: bs) ∧
    (∀ taken rest i, take? (taken ++ rest) = some (i, rest) → taken = encode i) ∧
    (∀ i : Image, i.Fits → ∀ bs, bs <+: encode i → bs ≠ encode i → decode bs = .error .malformed) := by
  refine ⟨?_, ?_, ?_, ?_, ?_⟩
  · intro i fits current rest
    rw [decode_encode fits, if_pos current]
  · intro i fits other rest
    exact ⟨.version i.unit i.version, by rw [decode_encode fits, if_neg other], rfl⟩
  · intro bs i h
    exact (decode_eq_ok_iff.mp h).2.2
  · intro taken rest i h
    exact List.append_cancel_right ((reads_image _ _ _).mp h).2
  · intro i fits bs before shorter
    apply decode_eq_malformed_iff.mpr
    intro j fits' within
    -- An image read there would be a beginning of the bytes of `i`, and so all of them.
    obtain rfl := eq_of_encode_prefix fits' fits (within.trans before)
    exact shorter (before.eq_of_length (Nat.le_antisymm before.length_le within.length_le))

/-- An image of two files: a free function, and a type with a base, a field and a method. -/
def turning (version : UInt32) : Image where
  version := version
  unit := "unit"
  corpusHash := "00ff"
  modules := [⟨"a.ks", [⟨"half", ["x"], "fn half(x) \x7b x / 2 \x7d"⟩]⟩, ⟨"b.ks", []⟩]
  types := [⟨"Spinner", some "Behaviour", false, "b.ks", [⟨"speed", "float", true⟩],
    [⟨"update", ["ctx", "dt"], "fn update(ctx, dt) \x7b half(dt); \x7d"⟩]⟩]

theorem turning_read_back :
    (turning 1).Fits ∧ (turning 2).Fits ∧ decode (encode (turning 1) ++ [7, 7]) = .ok (turning 1) ∧
      (∃ e, decode (encode (turning 2) ++ [7, 7]) = .error e ∧
        e.message = "unit unit was built for host ABI 2 but this host is ABI 1") ∧
      decode ((encode (turning 1)).take 40) = .error .malformed := by
  have fits : (turning 1).Fits := by decide +kernel
  have fits' : (turning 2).Fits := by decide +kernel
  obtain ⟨back, refused, -, -, part⟩ := codec_exact
  refine ⟨fits, fits', back _ fits rfl [7, 7], ?_, ?_⟩
  · exact refused _ fits' (by decide) [7, 7]
  · exact part _ fits _ (List.take_prefix _ _) (by decide +kernel)

end ScriptHost.Image
