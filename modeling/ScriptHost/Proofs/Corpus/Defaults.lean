import ScriptHost.Corpus.Field
import ScriptHost.Proofs.Declaration.Grammar
import ScriptHost.Proofs.Script.Entries

/-!
# Defaults — what a field starts with

A literal stands for a value: components are rounded to single precision, items keep their order, and of entries with
one key the last one counts.  A field starts with the value of its literal, a whole number going over to a float where
the field holds floats, or else with the zero of its kind.
-/

namespace ScriptHost.Corpus

open Declaration (FieldDecl TypeDecl Literal Member Item Tree Phrase Derives Piece IsField AreMembers IsType AreItems
  Sentence)
open Script (Value Entries)

/-! ## 1. Literals -/

/-- The value that a literal stands for. -/
inductive Denotes : Literal → Value → Prop where
  | int (n : Int) : Denotes (.int n) (.int n)
  | float (x : Float) : Denotes (.float x) (.float x)
  | bool (b : Bool) : Denotes (.bool b) (.bool b)
  | text (s : String) : Denotes (.text s) (.text s)
  | vector {xs : List Float} (few : 2 ≤ xs.length ∧ xs.length ≤ 4) :
      Denotes (.vector xs) (.vector (xs.map Float.toFloat32))
  | array {ls : List Literal} {vs : List Value} (items : List.Forall₂ Denotes ls vs) : Denotes (.array ls) (.array vs)
  | map {es : List (String × Literal)} {vs : List Value} {m : Entries Value}
      (values : List.Forall₂ Denotes (es.map Prod.snd) vs) (sorted : Entries.Sorted m)
      (last : ∀ key, Entries.get? key m = ((es.map Prod.fst).zip vs).reverse.lookup key) :
      Denotes (.map es) (.map m)

theorem literalEntries_eq (es : List (String × Literal)) :
    literalEntries es = (es.map Prod.fst).zip (literalValues (es.map Prod.snd)) := by
  induction es with
  | nil => rfl
  | cons e es ih =>
    rw [literalEntries, ih]
    rfl

theorem length_of_vectorArity? {w : String} {n : Nat} (h : Declaration.Parse.vectorArity? w = some n) :
    n = 2 ∨ n = 3 ∨ n = 4 := by
  unfold Declaration.Parse.vectorArity? at h
  split at h <;> simp_all

/-- The literal of a rule stands for the value that is made of it. -/
def Valued : Phrase → Prop
  | .literal l => Denotes l (literalValue l)
  | .components _ => True
  | .items ls => List.Forall₂ Denotes ls (literalValues ls)
  | .entries es => List.Forall₂ Denotes (es.map Prod.snd) (literalValues (es.map Prod.snd))

theorem valued_of_derives {φ : Phrase} {ps : List Piece} (h : Derives φ ps) : Valued φ := by
  induction h with
  | int => exact .int _
  | negativeInt => exact .int _
  | float => exact .float _
  | negativeFloat => exact .float _
  | text => exact .text _
  | true => exact .bool _
  | false => exact .bool _
  | @vector _ xs _ _ _ arity =>
    have few : 2 ≤ xs.length ∧ xs.length ≤ 4 := by
      rcases length_of_vectorArity? arity with two | three | four <;> omega
    have value : literalValue (.vector xs) = .vector (xs.map Float.toFloat32) := by
      rw [literalValue, if_pos (by simpa using few)]
      rfl
    show Denotes (.vector xs) _
    exact value.symm ▸ .vector few
  | array _ ih => exact .array ih
  | map _ ih =>
    refine .map ih (Entries.sorted_ofList _) fun key => ?_
    rw [Entries.get?_ofList, literalEntries_eq]
  | lastComponent => trivial
  | component => trivial
  | noItem => exact .nil
  | lastItem _ ih => exact .cons ih .nil
  | item _ _ ih later => exact .cons ih later
  | noEntry => exact .nil
  | lastEntry _ _ ih => exact .cons ih .nil
  | entry _ _ _ ih later => exact .cons ih later

/-! ## 2. Literals of a module -/

/-- A literal that the grammar has. -/
def IsWritten (l : Literal) : Prop := ∃ ps, Derives (.literal l) ps

theorem denotes_of_isWritten {l : Literal} (h : IsWritten l) : Denotes l (literalValue l) := by
  obtain ⟨ps, derives⟩ := h
  exact valued_of_derives derives

section Written

variable {f : FieldDecl} {l : Literal} {ps : List Piece}

theorem isWritten_of_isField (h : IsField f ps) (written : f.default = some l) : IsWritten l := by
  obtain ⟨-, -, default⟩ := h
  change _ = some l at written
  subst written
  obtain _ | derives := default
  exact ⟨_, derives⟩

theorem isField_of_areMembers {ms : List Member} (h : AreMembers ms ps) (hf : .field f ∈ ms) : ∃ qs, IsField f qs := by
  induction h with
  | close => exact absurd hf List.not_mem_nil
  | more member _ ih =>
    rcases List.mem_cons.mp hf with rfl | hf
    · obtain field | - := member
      exact ⟨_, field⟩
    · exact ih hf

theorem isField_of_isType {t : TypeDecl} (h : IsType t ps) (hf : f ∈ t.fields) : ∃ qs, IsField f qs := by
  obtain ⟨-, -, members⟩ := h
  obtain ⟨m, hm, field⟩ := List.mem_filterMap.mp hf
  cases m with
  | field g =>
    obtain rfl := Option.some.inj field
    exact isField_of_areMembers members hm
  | method g => exact nomatch field

theorem isType_of_areItems {items : List Item} {t : TypeDecl} (h : AreItems items ps) (ht : .type t ∈ items) :
    ∃ qs, IsType t qs := by
  induction h with
  | none => exact absurd ht List.not_mem_nil
  | more item _ ih =>
    rcases List.mem_cons.mp ht with rfl | ht
    · obtain - | - | type := item
      exact ⟨_, type⟩
    · exact ih ht

/-- The default of a field that a sentence declares is a literal of the grammar. -/
theorem isWritten_of_sentence {Last : List Char → Prop} {source : String} {tree : Tree} {t : TypeDecl}
    (h : Sentence Last source tree) (ht : t ∈ tree.types) (hf : f ∈ t.fields) (written : f.default = some l) :
    IsWritten l := by
  obtain ⟨items, ps, after, rules, -, -, rfl⟩ := h
  obtain ⟨i, hi, type⟩ := List.mem_filterMap.mp ht
  cases i with
  | type t' =>
    obtain rfl := Option.some.inj type
    obtain ⟨qs, isType⟩ := isType_of_areItems rules hi
    obtain ⟨rs, isField⟩ := isField_of_isType isType hf
    exact isWritten_of_isField isField written
  | use _ => exact nomatch type
  | function _ => exact nomatch type

end Written

/-! ## 3. Fields -/

/-- The value has the kind. -/
inductive HasKind : Field.Kind → Value → Prop where
  | int (n : Int) : HasKind .int (.int n)
  | float (x : Float) : HasKind .float (.float x)
  | bool (b : Bool) : HasKind .bool (.bool b)
  | text (s : String) : HasKind .text (.text s)
  | vec2 (x y : Float32) : HasKind .vec2 (.vector [x, y])
  | vec3 (x y z : Float32) : HasKind .vec3 (.vector [x, y, z])
  | vec4 (x y z w : Float32) : HasKind .vec4 (.vector [x, y, z, w])
  | array (items : List Value) : HasKind .array (.array items)
  | map (entries : Entries Value) : HasKind .map (.map entries)

/-- The value is the one of the kind that stands for nothing. -/
inductive IsZero : Field.Kind → Value → Prop where
  | int : IsZero .int (.int 0)
  | float : IsZero .float (.float 0)
  | bool : IsZero .bool (.bool false)
  | text : IsZero .text (.text "")
  | vec2 : IsZero .vec2 (.vector [0, 0])
  | vec3 : IsZero .vec3 (.vector [0, 0, 0])
  | vec4 : IsZero .vec4 (.vector [0, 0, 0, 0])
  | array : IsZero .array (.array [])
  | map : IsZero .map (.map [])

theorem isZero_zero (kind : Field.Kind) : IsZero kind kind.zero := by cases kind <;> constructor

/-- What a field of a kind starts with, given the literal that is written for it, if any. -/
inductive Starts : Field.Kind → Option Literal → Value → Prop where
  | unwritten {kind : Field.Kind} {v : Value} (zero : IsZero kind v) : Starts kind none v
  | whole (n : Int) : Starts .float (some (.int n)) (.float (Float.ofInt n))
  | written {kind : Field.Kind} {l : Literal} {v : Value} (denotes : Denotes l v) (ofKind : HasKind kind v) :
      Starts kind (some l) v

theorem Starts.hasKind {kind : Field.Kind} {written : Option Literal} {v : Value} (h : Starts kind written v) :
    HasKind kind v := by
  cases h with
  | unwritten zero => cases zero <;> constructor
  | whole => exact .float _
  | written _ ofKind => exact ofKind

/-- A value of a kind that can be edited is shown as it is, and one of another kind is not shown. -/
theorem HasKind.ofScript? {kind : Field.Kind} {v : Value} (h : HasKind kind v) :
    (Field.Value.ofScript? kind v).map Field.Value.toScript = if kind.isSupported then some v else none := by
  cases h <;> rfl

end ScriptHost.Corpus
