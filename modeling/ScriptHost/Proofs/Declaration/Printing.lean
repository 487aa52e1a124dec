import ScriptHost.Proofs.Declaration.Integer

/-!
# Printing — every tree can be written down

A tree is written with a blank in front of each token, and with its bodies as they are.  What is written is a
sentence, and so it is read back without a fault, as the tree that was written, up to the places at which things
stand.
-/

namespace ScriptHost.Declaration

open Text (Position)

/-! ## 1. Trees as they are written -/

/-- How numbers with a fraction are written: which ones with a minus in front, and with which numerals. -/
structure Fractions where
  negative : Float → Bool
  numeral : Float → List Char

/-- The numeral, with the minus if there is one, means the number. -/
def Fractions.Writes (w : Fractions) (x : Float) : Prop :=
  ∃ y, Numeral (w.numeral x) (.float y) ∧ x = if w.negative x then -y else y

def writeWord (w : String) : List Char := ' ' :: w.toList

def escapeChar : Char → List Char
  | '"' => ['\\', '"']
  | '\\' => ['\\', '\\']
  | '\n' => ['\\', 'n']
  | c => [c]

def writeText (s : String) : List Char := ' ' :: '"' :: (s.toList.flatMap escapeChar ++ ['"'])

/-- The minus in front of a number that has one. -/
def writeSign (negative : Bool) : List Char := if negative then [' ', '-'] else []

def Fractions.write (w : Fractions) (x : Float) : List Char := writeSign (w.negative x) ++ ' ' :: w.numeral x

/-- Components with the parenthesis that closes them. -/
def Fractions.writeAll (w : Fractions) : List Float → List Char
  | [] => [' ', ')']
  | [x] => w.write x ++ [' ', ')']
  | x :: y :: xs => w.write x ++ ' ' :: ',' :: w.writeAll (y :: xs)

/-- The word in front of as many components. -/
def vectorWord : Nat → String
  | 2 => "vec2"
  | 3 => "vec3"
  | _ => "vec4"

mutual

def Literal.write (w : Fractions) : Literal → List Char
  | .int n => writeSign (decide (n < 0)) ++ ' ' :: Nat.toDigits 10 n.natAbs
  | .float x => w.write x
  | .bool b => writeWord (if b then "true" else "false")
  | .text s => writeText s
  | .vector xs => writeWord (vectorWord xs.length) ++ ' ' :: '(' :: w.writeAll xs
  | .array vs => ' ' :: '[' :: writeItems w vs
  | .map es => ' ' :: '#' :: ' ' :: '\x7b' :: writeEntries w es

/-- Items with the bracket that closes them. -/
def writeItems (w : Fractions) : List Literal → List Char
  | [] => [' ', ']']
  | v :: vs => v.write w ++ ' ' :: ',' :: writeItems w vs

/-- Entries with the brace that closes them. -/
def writeEntries (w : Fractions) : List (String × Literal) → List Char
  | [] => [' ', '\x7d']
  | (k, v) :: es => writeText k ++ ' ' :: ':' :: (v.write w ++ ' ' :: ',' :: writeEntries w es)

end

/-- Parameters with the parenthesis that closes them. -/
def writeParams : List String → List Char
  | [] => [' ', ')']
  | [x] => writeWord x ++ [' ', ')']
  | x :: y :: xs => writeWord x ++ ' ' :: ',' :: writeParams (y :: xs)

def FnDecl.write (f : FnDecl) : List Char :=
  writeWord "fn" ++ (writeWord f.name ++ ' ' :: '(' ::
    (writeParams f.params ++ ' ' :: '\x7b' :: (f.body.text.toList ++ ['\x7d'])))

def writeDefault (w : Fractions) : Option Literal → List Char
  | none => [' ', ';']
  | some v => ' ' :: '=' :: (v.write w ++ [' ', ';'])

def FieldDecl.write (w : Fractions) (f : FieldDecl) : List Char :=
  writeWord (if f.isPublic then "pub" else "let") ++ (writeWord f.name ++ ' ' :: ':' ::
    (writeWord f.kind.keyword ++ writeDefault w f.default))

def Member.write (w : Fractions) : Member → List Char
  | .field f => f.write w
  | .method f => f.write

/-- The members of a type, the fields first. -/
def TypeDecl.members (t : TypeDecl) : List Member := t.fields.map .field ++ t.methods.map .method

def writeBase : Option (String × Position) → List Char
  | none => []
  | some (b, _) => ' ' :: ':' :: writeWord b

def TypeDecl.write (w : Fractions) (t : TypeDecl) : List Char :=
  (if t.isAbstract then writeWord "abstract" else []) ++ (writeWord "type" ++ (writeWord t.name ++
    (writeBase t.base ++ ' ' :: '\x7b' :: (t.members.flatMap (·.write w) ++ [' ', '\x7d']))))

def Item.write (w : Fractions) : Item → List Char
  | .use u => writeWord "use" ++ (writeWord u.module ++ [' ', ';'])
  | .function f => f.write
  | .type t => t.write w

/-- The items of a module, each sort behind the other. -/
def Tree.items (t : Tree) : List Item := t.uses.map .use ++ t.functions.map .function ++ t.types.map .type

def Tree.write (w : Fractions) (t : Tree) : String := String.ofList (t.items.flatMap (·.write w))

/-! ## 2. Trees that can be written -/

/-- The numbers are ones that numerals mean, and vectors have two, three or four of them. -/
inductive Literal.Writable (w : Fractions) : Literal → Prop
  | int {n} : n.natAbs < 1 <<< 63 → Writable w (.int n)
  | float {x} : w.Writes x → Writable w (.float x)
  | bool {b} : Writable w (.bool b)
  | text {s} : Writable w (.text s)
  | vector {xs} : Parse.vectorArity? (vectorWord xs.length) = some xs.length → (∀ x ∈ xs, w.Writes x) →
      Writable w (.vector xs)
  | array {vs} : (∀ v ∈ vs, Writable w v) → Writable w (.array vs)
  | map {es} : (∀ e ∈ es, Writable w e.2) → Writable w (.map es)

/-- The brace behind the text is the first one that closes it, and the module paths are those of the text. -/
def Body.Closes (b : Body) : Prop :=
  ∃ q, scanBlock .initial (b.text.toList ++ ['\x7d']) b.position = some (['\x7d'], q, b.refs.reverse)

structure FnDecl.Writable (f : FnDecl) : Prop where
  name : IsWord f.name
  params : ∀ x ∈ f.params, IsWord x
  distinct : f.params.Nodup
  body : f.body.Closes

structure FieldDecl.Writable (w : Fractions) (f : FieldDecl) : Prop where
  name : IsWord f.name
  default : ∀ v ∈ f.default, v.Writable w

structure TypeDecl.Writable (w : Fractions) (t : TypeDecl) : Prop where
  name : IsWord t.name
  base : ∀ b ∈ t.base, IsWord b.1
  fields : ∀ f ∈ t.fields, f.Writable w
  methods : ∀ f ∈ t.methods, f.Writable

/-- Names are words, and bodies and literals are as they can be written. -/
structure Tree.Writable (w : Fractions) (t : Tree) : Prop where
  uses : ∀ u ∈ t.uses, IsWord u.module
  functions : ∀ f ∈ t.functions, f.Writable
  types : ∀ d ∈ t.types, d.Writable w

/-! ## 3. Texts and what they tell -/

/-- The end, or a blank. -/
inductive Spaced : List Char → Prop
  | ended : Spaced []
  | blank {cs} : Spaced (' ' :: cs)

variable {t : Token} {cs ds rest : List Char} {P Q R : List Piece → Prop} {w : Fractions}

/-- Every token ends there. -/
theorem Spaced.ends (h : Spaced cs) (t : Token) : Ends t cs := by
  have int : EndsInt cs := by
    cases h with
    | ended => exact ⟨rfl, nofun⟩
    | blank => exact ⟨rfl, fun d ds same => nomatch (List.cons.inj same).1⟩
  unfold Ends
  split
  · cases h <;> rfl
  · exact int
  · cases h <;> rfl
  · trivial

/-- Wherever the text stands, it is read as pieces of which `P` holds. -/
structure Tells (cs : List Char) (P : List Piece → Prop) : Prop where
  spaced : ∀ rest, Spaced rest → Spaced (cs ++ rest)
  reads : ∀ p rest, Spaced rest → ∃ ps q, P ps ∧ Reads ⟨cs ++ rest, p, false⟩ ps ⟨rest, q, false⟩

/-- Pieces of which `P` holds, and behind them pieces of which `Q` holds. -/
def Both (P Q : List Piece → Prop) (ps : List Piece) : Prop := ∃ qs rs, P qs ∧ Q rs ∧ ps = qs ++ rs

/-- A token, and behind it pieces of which `Q` holds. -/
def Front (t : Token) (Q : List Piece → Prop) (ps : List Piece) : Prop := ∃ p qs, Q qs ∧ ps = tok t p :: qs

namespace Tells

theorem nothing (h : P []) : Tells [] P := ⟨fun _ spaced => spaced, fun p _ _ => ⟨[], p, h, .nil⟩⟩

theorem mono (h : Tells cs P) (imp : ∀ ps, P ps → Q ps) : Tells cs Q := by
  refine ⟨h.spaced, fun p rest spaced => ?_⟩
  obtain ⟨ps, q, told, reads⟩ := h.reads p rest spaced
  exact ⟨ps, q, imp ps told, reads⟩

theorem append (h : Tells cs P) (h' : Tells ds Q) : Tells (cs ++ ds) (Both P Q) := by
  refine ⟨fun rest spaced => ?_, fun p rest spaced => ?_⟩
  · rw [List.append_assoc]
    exact h.spaced _ (h'.spaced _ spaced)
  · obtain ⟨ps, q, told, reads⟩ := h.reads p (ds ++ rest) (h'.spaced rest spaced)
    obtain ⟨qs, r, told', reads'⟩ := h'.reads q rest spaced
    exact ⟨ps ++ qs, r, ⟨ps, qs, told, told', rfl⟩, List.append_assoc .. ▸ reads.append reads'⟩

theorem token (spelled : Spelled t cs) : Tells (' ' :: cs) fun ps => ∃ p, ps = [tok t p] := by
  refine ⟨fun _ _ => .blank, fun p rest spaced => ?_⟩
  have takes : Cursor.Takes ⟨' ' :: (cs ++ rest), p, false⟩ ⟨t, p.after [' ']⟩
      ⟨rest, (p.after [' ']).after cs, false⟩ :=
    ⟨[' '], cs, .blank rfl .none, spelled, spaced.ends t, rfl, rfl, rfl, rfl⟩
  exact ⟨_, _, ⟨_, rfl⟩, .single takes⟩

theorem sign {x : Char} (sign : Token.ofSign? x = some t) : Tells [' ', x] fun ps => ∃ p, ps = [tok t p] :=
  token (.sign sign)

theorem front (spelled : Spelled t cs) (h : Tells ds Q) : Tells (' ' :: cs ++ ds) (Front t Q) := by
  refine ((token spelled).append h).mono ?_
  rintro _ ⟨_, qs, ⟨p, rfl⟩, told, rfl⟩
  exact ⟨p, qs, told, rfl⟩

theorem frontSign {x : Char} (sign : Token.ofSign? x = some t) (h : Tells ds Q) :
    Tells (' ' :: x :: ds) (Front t Q) := front (.sign sign) h

theorem frontWord {x : String} (word : IsWord x) (h : Tells ds Q) :
    Tells (writeWord x ++ ds) (Front (.ident x) Q) := front (.word word) h

/-- Texts one behind the other, for things that are told apart by `f`. -/
theorem flatMap {α β : Type} (f : α → β) (All : List α → List Piece → Prop) {P : α → List Piece → Prop}
    {write : α → List Char} (none : All [] [])
    (more : ∀ a as ps qs, P a ps → All as qs → All (a :: as) (ps ++ qs)) {as : List α}
    (each : ∀ a ∈ as, Tells (write a) fun ps => ∃ b, f b = f a ∧ P b ps) :
    Tells (as.flatMap write) fun ps => ∃ bs, bs.map f = as.map f ∧ All bs ps := by
  induction as with
  | nil => exact nothing ⟨[], rfl, none⟩
  | cons a as ih =>
    obtain ⟨first, others⟩ := List.forall_mem_cons.mp each
    refine (first.append (ih others)).mono ?_
    rintro _ ⟨ps, qs, ⟨b, same, told⟩, ⟨bs, sames, tolds⟩, rfl⟩
    exact ⟨b :: bs, congrArg₂ List.cons same sames, more b bs ps qs told tolds⟩

end Tells

/-! ## 4. Literals -/

theorem Tells.word {x : String} (word : IsWord x) : Tells (writeWord x) fun ps => ∃ p, ps = [tok (.ident x) p] :=
  token (.word word)

theorem quoted_escapeChar (c : Char) {us vs : List Char} (h : Quoted us vs) :
    Quoted (escapeChar c ++ us) (c :: vs) := by
  unfold escapeChar
  split
  · exact .escape rfl h
  · exact .escape rfl h
  · exact .escape rfl h
  · next quote escape newline => exact .plain quote escape newline h

theorem quoted_escaped (cs : List Char) : Quoted (cs.flatMap escapeChar) cs := by
  induction cs with
  | nil => exact .nil
  | cons c cs ih => exact quoted_escapeChar c ih

theorem spelled_text (s : String) : Spelled (.str s) ('"' :: (s.toList.flatMap escapeChar ++ ['"'])) := by
  have spelled := Spelled.text (quoted_escaped s.toList)
  rwa [String.ofList_toList] at spelled

/-- A numeral with the minus, if there is one. -/
theorem Tells.signed {v : Literal} {negative : Bool} (spelled : Spelled t cs)
    (plain : negative = false → ∀ p, Derives (.literal v) [tok t p])
    (minus : negative = true → ∀ p q, Derives (.literal v) [tok .minus p, tok t q]) :
    Tells (writeSign negative ++ ' ' :: cs) (Derives (.literal v)) := by
  cases negative with
  | false =>
    refine (token spelled).mono ?_
    rintro _ ⟨p, rfl⟩
    exact plain rfl p
  | true =>
    refine (frontSign rfl (token spelled)).mono ?_
    rintro _ ⟨p, _, ⟨q, rfl⟩, rfl⟩
    exact minus rfl p q

theorem tells_fraction {x : Float} (writes : w.Writes x) : Tells (w.write x) (Derives (.literal (.float x))) := by
  obtain ⟨y, numeral, value⟩ := writes
  refine .signed (.number numeral) (fun plain p => ?_) fun minus p q => ?_
  · rw [value, plain]
    exact .float
  · rw [value, minus]
    exact .negativeFloat

theorem tells_int {n : Int} (small : n.natAbs < 1 <<< 63) :
    Tells (writeSign (decide (n < 0)) ++ ' ' :: Nat.toDigits 10 n.natAbs) (Derives (.literal (.int n))) := by
  refine .signed (.number (numeral_toDigits small)) (fun plain p => ?_) fun minus p q => ?_
  · have value : (n.natAbs : Int) = n := Int.natAbs_of_nonneg (Int.not_lt.mp (of_decide_eq_false plain))
    have rule : Derives (.literal (.int n.natAbs)) [tok (.int n.natAbs) p] := .int
    rwa [value] at rule
  · have value : -(n.natAbs : Int) = n := by
      rw [Int.ofNat_natAbs_of_nonpos (Int.le_of_lt (of_decide_eq_true minus)), Int.neg_neg]
    have rule : Derives (.literal (.int (-n.natAbs))) [tok .minus p, tok (.int n.natAbs) q] := .negativeInt
    rwa [value] at rule

theorem tells_components {xs : List Float} (some' : xs ≠ []) (writes : ∀ x ∈ xs, w.Writes x) :
    Tells (w.writeAll xs) (Derives (.components xs)) := by
  induction xs using Fractions.writeAll.induct with
  | case1 => exact absurd rfl some'
  | case2 x =>
    refine ((tells_fraction (writes x List.mem_cons_self)).append (.sign rfl)).mono ?_
    rintro _ ⟨ps, _, told, ⟨p, rfl⟩, rfl⟩
    exact .lastComponent told rfl
  | case3 x y xs ih =>
    obtain ⟨first, others⟩ := List.forall_mem_cons.mp writes
    refine ((tells_fraction first).append ((ih (List.cons_ne_nil y xs) others).frontSign rfl)).mono ?_
    rintro _ ⟨ps, _, told, ⟨p, qs, tolds, rfl⟩, rfl⟩
    exact .component told rfl tolds

theorem tells_items {vs : List Literal} (each : ∀ v ∈ vs, Tells (v.write w) (Derives (.literal v))) :
    Tells (writeItems w vs) (Derives (.items vs)) := by
  induction vs with
  | nil =>
    refine (Tells.sign rfl).mono ?_
    rintro _ ⟨p, rfl⟩
    exact .noItem
  | cons v vs ih =>
    obtain ⟨first, others⟩ := List.forall_mem_cons.mp each
    rw [writeItems]
    refine (first.append ((ih others).frontSign rfl)).mono ?_
    rintro _ ⟨ps, _, told, ⟨p, qs, tolds, rfl⟩, rfl⟩
    exact .item told tolds

theorem tells_entries {es : List (String × Literal)}
    (each : ∀ e ∈ es, Tells (e.2.write w) (Derives (.literal e.2))) :
    Tells (writeEntries w es) (Derives (.entries es)) := by
  induction es with
  | nil =>
    refine (Tells.sign rfl).mono ?_
    rintro _ ⟨p, rfl⟩
    exact .noEntry
  | cons e es ih =>
    obtain ⟨k, v⟩ := e
    obtain ⟨first, others⟩ := List.forall_mem_cons.mp each
    rw [writeEntries]
    refine (Tells.front (spelled_text k) ((first.append ((ih others).frontSign rfl)).frontSign rfl)).mono ?_
    rintro _ ⟨p, _, ⟨q, _, ⟨ps, _, told, ⟨r, qs, tolds, rfl⟩, rfl⟩, rfl⟩, rfl⟩
    exact .entry .text told tolds

theorem isWord_vectorWord (n : Nat) : IsWord (vectorWord n) := by
  unfold vectorWord
  split <;> exact .of_all rfl rfl

/-- A literal that can be written is one of the grammar. -/
theorem tells_literal {v : Literal} (h : v.Writable w) : Tells (v.write w) (Derives (.literal v)) := by
  induction h with
  | int small =>
    rw [Literal.write]
    exact tells_int small
  | float writes =>
    rw [Literal.write]
    exact tells_fraction writes
  | @bool b =>
    rw [Literal.write]
    cases b with
    | false =>
      refine (Tells.word (.of_all rfl rfl)).mono ?_
      rintro _ ⟨p, rfl⟩
      exact .false
    | true =>
      refine (Tells.word (.of_all rfl rfl)).mono ?_
      rintro _ ⟨p, rfl⟩
      exact .true
  | @text s =>
    rw [Literal.write]
    refine (Tells.token (spelled_text s)).mono ?_
    rintro _ ⟨p, rfl⟩
    exact .text
  | @vector xs arity writes =>
    rw [Literal.write]
    have some' : xs ≠ [] := by
      rintro rfl
      exact absurd arity (by decide)
    refine (Tells.frontWord (isWord_vectorWord _) ((tells_components some' writes).frontSign rfl)).mono ?_
    rintro _ ⟨p, _, ⟨q, ps, told, rfl⟩, rfl⟩
    exact .vector arity told
  | array _ ih =>
    rw [Literal.write]
    refine ((tells_items ih).frontSign rfl).mono ?_
    rintro _ ⟨p, ps, told, rfl⟩
    exact .array told
  | map _ ih =>
    rw [Literal.write]
    refine (((tells_entries ih).frontSign rfl).frontSign rfl).mono ?_
    rintro _ ⟨p, _, ⟨q, ps, told, rfl⟩, rfl⟩
    exact .map told

/-! ## 5. Declarations -/

/-- Where things stand is forgotten when all places are moved to the beginning. -/
def toStart (_ : Position) : Position := .start

theorem tells_params {xs : List String} (words : ∀ x ∈ xs, IsWord x) : Tells (writeParams xs) (IsParams xs) := by
  induction xs using writeParams.induct with
  | case1 =>
    refine (Tells.sign rfl).mono ?_
    rintro _ ⟨p, rfl⟩
    exact .none
  | case2 x =>
    refine (Tells.frontWord (words x List.mem_cons_self) (.sign rfl)).mono ?_
    rintro _ ⟨p, _, ⟨q, rfl⟩, rfl⟩
    exact .last
  | case3 x y xs ih =>
    obtain ⟨first, others⟩ := List.forall_mem_cons.mp words
    refine (Tells.frontWord first ((ih others).frontSign rfl)).mono ?_
    rintro _ ⟨p, _, ⟨q, ps, told, rfl⟩, rfl⟩
    exact .more told

/-- A body between its braces is captured as it is, wherever it stands. -/
theorem tells_body {b : Body} (closes : b.Closes) :
    Tells (' ' :: '{' :: (b.text.toList ++ ['}'])) fun ps =>
      ∃ p b', b'.moved toStart = b.moved toStart ∧ ps = [tok .lbrace p, .body b'] := by
  refine ⟨fun _ _ => .blank, fun p rest _ => ?_⟩
  obtain ⟨q, scan⟩ := closes
  -- The text was captured at the place of the body, and here it stands behind the brace just read.
  let opened := (p.after [' ']).after ['{']
  let there := b.position.shift opened
  have brace : Cursor.Takes ⟨' ' :: '{' :: (b.text.toList ++ ['}']) ++ rest, p, false⟩
      ⟨.lbrace, p.after [' ']⟩ ⟨b.text.toList ++ ['}'] ++ rest, opened, false⟩ :=
    ⟨[' '], ['{'], .blank rfl .none, .sign rfl, trivial, rfl, rfl, rfl, rfl⟩
  have again := scanBlock_moved .initial (b.text.toList ++ ['}']) b.position (moves_shift b.position opened)
  rw [scan, Position.shift_self] at again
  have captures : Cursor.Captures ⟨b.text.toList ++ ['}'] ++ rest, opened, false⟩ (b.moved there)
      ⟨rest, (opened.after b.text.toList).step '}', false⟩ := by
    refine ⟨Position.shift_self _ _, by simp [Body.moved], ⟨there q, ?_⟩, rfl, rfl⟩
    show _ = some (['}'], there q, (b.refs.map (·.moved there)).reverse)
    rw [← List.map_reverse]
    exact again
  refine ⟨_, _, ⟨_, b.moved there, ?_, rfl⟩, .token brace (.body captures .nil)⟩
  simp [Body.moved, ModuleRef.moved, toStart]

theorem tells_function {f : FnDecl} (h : f.Writable) :
    Tells f.write fun ps => ∃ f', f'.moved toStart = f.moved toStart ∧ IsFunction f' ps := by
  have inner := (tells_params h.params).append (tells_body h.body)
  refine (Tells.frontWord (.of_all rfl rfl) (.frontWord h.name (inner.frontSign rfl))).mono ?_
  rintro _ ⟨p, _, ⟨q, _, ⟨r, _, ⟨ps, _, params, ⟨s, b, same, rfl⟩, rfl⟩, rfl⟩, rfl⟩, rfl⟩
  refine ⟨⟨f.name, f.params, b, q⟩, ?_, .mk params h.distinct⟩
  rw [FnDecl.moved, FnDecl.moved, same]
  rfl

theorem tells_default {d : Option Literal} (writable : ∀ v ∈ d, v.Writable w) :
    Tells (writeDefault w d) (IsDefault d) := by
  cases d with
  | none =>
    refine (Tells.sign rfl).mono ?_
    rintro _ ⟨p, rfl⟩
    exact .none
  | some v =>
    refine (((tells_literal (writable v rfl)).append (.sign rfl)).frontSign rfl).mono ?_
    rintro _ ⟨p, _, ⟨ps, _, told, ⟨q, rfl⟩, rfl⟩, rfl⟩
    exact .some told

theorem isWord_keyword (k : Field.Kind) : IsWord k.keyword := by
  cases k <;> exact .of_all rfl rfl

theorem tells_field {f : FieldDecl} (h : f.Writable w) :
    Tells (f.write w) fun ps => ∃ f', f'.moved toStart = f.moved toStart ∧ IsField f' ps := by
  obtain ⟨name, kind, isPublic, default, position⟩ := f
  have inner := (tells_default h.default).frontWord (isWord_keyword kind)
  have head : IsWord (if isPublic then "pub" else "let") := by cases isPublic <;> exact .of_all rfl rfl
  refine (Tells.frontWord head (.frontWord h.name (inner.frontSign rfl))).mono ?_
  rintro _ ⟨p, _, ⟨q, _, ⟨r, _, ⟨s, ps, value, rfl⟩, rfl⟩, rfl⟩, rfl⟩
  refine ⟨⟨name, kind, isPublic, default, q⟩, rfl, ?_⟩
  cases isPublic with
  | false => exact .mk (.inr rfl) (Field.Kind.ofKeyword?_keyword kind) value
  | true => exact .mk (.inl rfl) (Field.Kind.ofKeyword?_keyword kind) value

theorem tells_member {m : Member} (field : ∀ f, m = .field f → f.Writable w)
    (method : ∀ f, m = .method f → f.Writable) :
    Tells (m.write w) fun ps => ∃ m', m'.moved toStart = m.moved toStart ∧ IsMember m' ps := by
  cases m with
  | field f =>
    refine (tells_field (field f rfl)).mono ?_
    rintro ps ⟨f', same, rule⟩
    exact ⟨.field f', congrArg Member.field same, .field rule⟩
  | method f =>
    refine (tells_function (method f rfl)).mono ?_
    rintro ps ⟨f', same, rule⟩
    exact ⟨.method f', congrArg Member.method same, .method rule⟩

/-- The members up to the brace that closes the type. -/
theorem tells_members {ms : List Member} (field : ∀ f, .field f ∈ ms → f.Writable w)
    (method : ∀ f, .method f ∈ ms → f.Writable) :
    Tells (ms.flatMap (·.write w) ++ [' ', '}']) fun ps =>
      ∃ ms', ms'.map (·.moved toStart) = ms.map (·.moved toStart) ∧ AreMembers ms' ps := by
  have each : ∀ m ∈ ms, Tells (m.write w) fun ps => ∃ m', m'.moved toStart = m.moved toStart ∧ IsMember m' ps :=
    fun m hm => tells_member (fun f same => field f (same ▸ hm)) fun f same => method f (same ▸ hm)
  have whole : Tells (ms.flatMap (·.write w)) fun ps => ∃ ms', ms'.map (·.moved toStart) = ms.map (·.moved toStart) ∧
      ∀ qs, AreMembers [] qs → AreMembers ms' (ps ++ qs) := by
    refine .flatMap (·.moved toStart) (fun ms' ps => ∀ qs, AreMembers [] qs → AreMembers ms' (ps ++ qs))
      (fun qs close => close) (fun m ms ps qs rule rules rs close => ?_) each
    rw [List.append_assoc]
    exact .more rule (rules rs close)
  refine (whole.append (.sign rfl)).mono ?_
  rintro _ ⟨ps, _, ⟨ms', same, rules⟩, ⟨p, rfl⟩, rfl⟩
  exact ⟨ms', same, rules _ .close⟩

theorem members_fields (t : TypeDecl) : t.members.filterMap Member.field? = t.fields := by
  simp [TypeDecl.members, List.filterMap_append, List.filterMap_map, Function.comp_def, Member.field?]

theorem members_methods (t : TypeDecl) : t.members.filterMap Member.method? = t.methods := by
  simp [TypeDecl.members, List.filterMap_append, List.filterMap_map, Function.comp_def, Member.method?]

theorem tells_abstract (isAbstract : Bool) :
    Tells (if isAbstract then writeWord "abstract" else []) (IsPrefix isAbstract) := by
  cases isAbstract with
  | false => exact .nothing .none
  | true =>
    refine (Tells.word (.of_all rfl rfl)).mono ?_
    rintro _ ⟨p, rfl⟩
    exact .abstract

theorem tells_base {base : Option (String × Position)} (words : ∀ b ∈ base, IsWord b.1) :
    Tells (writeBase base) fun ps =>
      ∃ base', base'.map (fun (b, p) => (b, toStart p)) = base.map (fun (b, p) => (b, toStart p)) ∧
        IsBase base' ps := by
  cases base with
  | none => exact .nothing ⟨none, rfl, .none⟩
  | some b =>
    refine ((Tells.word (words b rfl)).frontSign rfl).mono ?_
    rintro _ ⟨p, _, ⟨q, rfl⟩, rfl⟩
    exact ⟨some (b.1, q), rfl, .some⟩

theorem tells_type {t : TypeDecl} (h : t.Writable w) :
    Tells (t.write w) fun ps => ∃ t', t'.moved toStart = t.moved toStart ∧ IsType t' ps := by
  have fields : ∀ f, .field f ∈ t.members → f.Writable w := fun f hf =>
    h.fields f (members_fields t ▸ List.mem_filterMap.mpr ⟨_, hf, rfl⟩)
  have methods : ∀ f, .method f ∈ t.members → f.Writable := fun f hf =>
    h.methods f (members_methods t ▸ List.mem_filterMap.mpr ⟨_, hf, rfl⟩)
  have members := tells_members fields methods
  have inner := (tells_base h.base).append (members.frontSign (x := '\x7b') rfl)
  refine ((tells_abstract t.isAbstract).append (.frontWord (.of_all rfl rfl) (.frontWord h.name inner))).mono ?_
  rintro _ ⟨ps, _, isPrefix, ⟨p, _, ⟨q, _, ⟨bs, _, ⟨base, sameBase, isBase⟩, ⟨r, qs, ⟨ms, same, rules⟩, rfl⟩, rfl⟩,
    rfl⟩, rfl⟩, rfl⟩
  refine ⟨_, ?_, .mk isPrefix isBase rules⟩
  -- The pieces tell the members as one list, and the tree keeps fields and methods apart.
  have fields := congrArg (List.filterMap Member.field?) same
  have methods := congrArg (List.filterMap Member.method?) same
  rw [fields_moved, fields_moved, members_fields] at fields
  rw [methods_moved, methods_moved, members_methods] at methods
  rw [TypeDecl.moved, TypeDecl.moved, fields, methods, sameBase]
  rfl

/-! ## 6. Round trip -/

/-- The tree with all its places moved. -/
def Tree.moved (f : Position → Position) (t : Tree) : Tree :=
  ⟨t.uses.map (·.moved f), t.functions.map (·.moved f), t.types.map (·.moved f)⟩

theorem ofItems_moved (f : Position → Position) (is : List Item) :
    (Tree.ofItems is).moved f = Tree.ofItems (is.map (·.moved f)) := by
  unfold Tree.moved Tree.ofItems
  simp only [List.filterMap_map, List.map_filterMap, Tree.mk.injEq]
  exact ⟨congrArg (List.filterMap · is) (funext fun i => by cases i <;> rfl),
    congrArg (List.filterMap · is) (funext fun i => by cases i <;> rfl),
    congrArg (List.filterMap · is) (funext fun i => by cases i <;> rfl)⟩

theorem ofItems_items (t : Tree) : Tree.ofItems t.items = t := by
  have none {α β : Type} (xs : List α) : (xs.filterMap fun _ => (none : Option β)) = [] :=
    List.filterMap_eq_nil_iff.mpr fun _ _ => rfl
  simp [Tree.ofItems, Tree.items, List.filterMap_append, List.filterMap_map, Function.comp_def, none]

theorem tells_item {t : Tree} (h : t.Writable w) : ∀ i ∈ t.items,
    Tells (i.write w) fun ps => ∃ i', i'.moved toStart = i.moved toStart ∧ IsItem i' ps := by
  intro i hi
  simp only [Tree.items, List.mem_append, List.mem_map, or_assoc] at hi
  obtain ⟨u, hu, rfl⟩ | ⟨f, hf, rfl⟩ | ⟨d, hd, rfl⟩ := hi
  · refine (Tells.frontWord (.of_all rfl rfl) (.frontWord (h.uses u hu) (.sign rfl))).mono ?_
    rintro _ ⟨p, _, ⟨q, _, ⟨r, rfl⟩, rfl⟩, rfl⟩
    exact ⟨.use ⟨u.module, p⟩, rfl, .use⟩
  · refine (tells_function (h.functions f hf)).mono ?_
    rintro ps ⟨f', same, rule⟩
    exact ⟨.function f', congrArg Item.function same, .function rule⟩
  · refine (tells_type (h.types d hd)).mono ?_
    rintro ps ⟨d', same, rule⟩
    exact ⟨.type d', congrArg Item.type same, .type rule⟩

/-- A tree that is written down is read back without a fault, up to the places at which things stand. -/
theorem parse_write {t : Tree} (h : t.Writable w) :
    ∃ t', parse (t.write w) = (t', []) ∧ t'.moved toStart = t.moved toStart := by
  have told := Tells.flatMap (·.moved toStart) AreItems .none (fun _ _ _ _ => .more) (tells_item h)
  obtain ⟨ps, q, ⟨items, same, rules⟩, reads⟩ := told.reads .start [] .ended
  have start : Cursor.ofString (t.write w) = ⟨t.items.flatMap (·.write w) ++ [], .start, false⟩ := by
    rw [Cursor.ofString, Tree.write, String.toList_ofList, List.append_nil]
  have sentence : Sentence Final (t.write w) (Tree.ofItems items) :=
    ⟨items, ps, _, rules, start ▸ reads, .inl (.gap .none), rfl⟩
  refine ⟨_, parse_of_sentence sentence, ?_⟩
  rw [ofItems_moved, same, ← ofItems_moved, ofItems_items]

example (w : Fractions) : Tree.write w ⟨[⟨"math", .start⟩], [⟨"f", ["x"], ⟨" x ", .start, []⟩, .start⟩], []⟩ =
    " use math ; fn f ( x ) \x7b x \x7d" := rfl

end ScriptHost.Declaration
