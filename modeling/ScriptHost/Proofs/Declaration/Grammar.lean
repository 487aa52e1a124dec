import ScriptHost.Declaration.Parser
import ScriptHost.Proofs.Declaration.Body
import ScriptHost.Proofs.Declaration.Spelling

/-!
# Grammar — the sentences that declare something

The text of a module is read piece by piece: tokens with gaps between them, and the bodies of functions as they
are captured.  Which sequences of pieces are declarations, and of what, is said by rules that know nothing of how
they are read.
-/

namespace ScriptHost.Declaration

open Text (Position Remains)

/-! ## 1. Pieces -/

/-- The body goes on from the cursor to the brace that closes it, and `after` is behind the brace. -/
structure Cursor.Captures (c : Cursor) (b : Body) (after : Cursor) : Prop where
  place : b.position = c.position
  split : c.rest = b.text.toList ++ '\x7d' :: after.rest
  scan : ∃ q, scanBlock .initial (b.text.toList ++ ['\x7d']) c.position = some (['\x7d'], q, b.refs.reverse)
  behind : after.position = (c.position.after b.text.toList).step '\x7d'
  whole : after.torn = false

/-- What a text is read as. -/
inductive Piece where
  | token (l : Lexeme)
  | body (b : Body)

/-- From the first cursor to the last one the text reads so. -/
inductive Reads : Cursor → List Piece → Cursor → Prop
  | nil {c} : Reads c [] c
  | token {c l d ps e} : c.Takes l d → Reads d ps e → Reads c (.token l :: ps) e
  | body {c b d ps e} : c.Captures b d → Reads d ps e → Reads c (.body b :: ps) e

/-- A token that stands there. -/
def tok (t : Token) (p : Position) : Piece := .token ⟨t, p⟩

/-- A word that stands there. -/
def word (w : String) (p : Position) : Piece := tok (.ident w) p

/-! ## 2. Literals -/

/-- What a rule for literals is about.  Components, items and entries are taken with the sign that closes them. -/
inductive Phrase where
  | literal (v : Literal)
  | components (xs : List Float)
  | items (vs : List Literal)
  | entries (es : List (String × Literal))

/-- A token that can be a key, and the key. -/
inductive IsKey : Token → String → Prop
  | word {k} : IsKey (.ident k) k
  | text {k} : IsKey (.str k) k

/-- The rules for literals. -/
inductive Derives : Phrase → List Piece → Prop
  | int {n : Nat} {p} : Derives (.literal (.int n)) [tok (.int n) p]
  | negativeInt {n : Nat} {p q} : Derives (.literal (.int (-n))) [tok .minus p, tok (.int n) q]
  | float {x p} : Derives (.literal (.float x)) [tok (.float x) p]
  | negativeFloat {x p q} : Derives (.literal (.float (-x))) [tok .minus p, tok (.float x) q]
  | text {s p} : Derives (.literal (.text s)) [tok (.str s) p]
  | true {p} : Derives (.literal (.bool true)) [word "true" p]
  | false {p} : Derives (.literal (.bool false)) [word "false" p]
  | vector {w xs ps p q} : Parse.vectorArity? w = some xs.length → Derives (.components xs) ps →
      Derives (.literal (.vector xs)) (word w p :: tok .lparen q :: ps)
  | array {vs ps p} : Derives (.items vs) ps → Derives (.literal (.array vs)) (tok .lbracket p :: ps)
  | map {es ps p q} : Derives (.entries es) ps → Derives (.literal (.map es)) (tok .hash p :: tok .lbrace q :: ps)
  | lastComponent {v x ps p} : Derives (.literal v) ps → Parse.component? v = some x →
      Derives (.components [x]) (ps ++ [tok .rparen p])
  | component {v x xs ps qs p} : Derives (.literal v) ps → Parse.component? v = some x →
      Derives (.components xs) qs → Derives (.components (x :: xs)) (ps ++ tok .comma p :: qs)
  | noItem {p} : Derives (.items []) [tok .rbracket p]
  | lastItem {v ps p} : Derives (.literal v) ps → Derives (.items [v]) (ps ++ [tok .rbracket p])
  | item {v vs ps qs p} : Derives (.literal v) ps → Derives (.items vs) qs →
      Derives (.items (v :: vs)) (ps ++ tok .comma p :: qs)
  | noEntry {p} : Derives (.entries []) [tok .rbrace p]
  | lastEntry {t k v ps p q r} : IsKey t k → Derives (.literal v) ps →
      Derives (.entries [(k, v)]) (tok t p :: tok .colon q :: (ps ++ [tok .rbrace r]))
  | entry {t k v es ps qs p q r} : IsKey t k → Derives (.literal v) ps → Derives (.entries es) qs →
      Derives (.entries ((k, v) :: es)) (tok t p :: tok .colon q :: (ps ++ tok .comma r :: qs))

/-! ## 3. Declarations -/

/-- Parameters with the parenthesis that closes them. -/
inductive IsParams : List String → List Piece → Prop
  | none {p} : IsParams [] [tok .rparen p]
  | last {x p q} : IsParams [x] [word x p, tok .rparen q]
  | more {x y xs ps p q} : IsParams (y :: xs) ps → IsParams (x :: y :: xs) (word x p :: tok .comma q :: ps)

/-- `fn name(params) {body}` -/
inductive IsFunction : FnDecl → List Piece → Prop
  | mk {name params b ps p q r s} : IsParams params ps → params.Nodup →
      IsFunction ⟨name, params, b, q⟩
        (word "fn" p :: word name q :: tok .lparen r :: (ps ++ [tok .lbrace s, .body b]))

/-- The value after `=`, if there is one, and the semicolon. -/
inductive IsDefault : Option Literal → List Piece → Prop
  | none {p} : IsDefault none [tok .semi p]
  | some {v ps p q} : Derives (.literal v) ps → IsDefault (some v) (tok .eq p :: (ps ++ [tok .semi q]))

/-- `pub name: kind = literal;` or the same with `let`. -/
inductive IsField : FieldDecl → List Piece → Prop
  | mk {keyword name w kind default ps p q r s} : keyword = "pub" ∨ keyword = "let" →
      Field.Kind.ofKeyword? w = some kind → IsDefault default ps →
      IsField ⟨name, kind, keyword == "pub", default, q⟩
        (word keyword p :: word name q :: tok .colon r :: word w s :: ps)

inductive IsMember : Member → List Piece → Prop
  | field {f ps} : IsField f ps → IsMember (.field f) ps
  | method {f ps} : IsFunction f ps → IsMember (.method f) ps

/-- The members of a type with the brace that closes it. -/
inductive AreMembers : List Member → List Piece → Prop
  | close {p} : AreMembers [] [tok .rbrace p]
  | more {m ms ps qs} : IsMember m ps → AreMembers ms qs → AreMembers (m :: ms) (ps ++ qs)

/-- Whether a type is called abstract. -/
inductive IsPrefix : Bool → List Piece → Prop
  | abstract {p} : IsPrefix true [word "abstract" p]
  | none : IsPrefix false []

inductive IsBase : Option (String × Position) → List Piece → Prop
  | none : IsBase none []
  | some {b p q} : IsBase (some (b, q)) [tok .colon p, word b q]

def Member.field? : Member → Option FieldDecl
  | .field decl => some decl
  | .method _ => none

def Member.method? : Member → Option FnDecl
  | .method decl => some decl
  | .field _ => none

/-- `abstract type name : base {members}` -/
inductive IsType : TypeDecl → List Piece → Prop
  | mk {name base isAbstract ms ps bs qs p q r} : IsPrefix isAbstract ps → IsBase base bs → AreMembers ms qs →
      IsType ⟨name, base, isAbstract, ms.filterMap Member.field?, ms.filterMap Member.method?, q⟩
        (ps ++ word "type" p :: word name q :: (bs ++ tok .lbrace r :: qs))

/-- `abstract type name : base {` -/
inductive IsHead : TypeDecl → List Piece → Prop
  | mk {name base isAbstract ps bs p q r} : IsPrefix isAbstract ps → IsBase base bs →
      IsHead ⟨name, base, isAbstract, [], [], q⟩ (ps ++ word "type" p :: word name q :: (bs ++ [tok .lbrace r]))

/-- The type with these members. -/
def TypeDecl.withMembers (t : TypeDecl) (ms : List Member) : TypeDecl :=
  { t with fields := ms.filterMap Member.field?, methods := ms.filterMap Member.method? }

inductive IsItem : Item → List Piece → Prop
  | use {name p q r} : IsItem (.use ⟨name, p⟩) [word "use" p, word name q, tok .semi r]
  | function {f ps} : IsFunction f ps → IsItem (.function f) ps
  | type {t ps} : IsType t ps → IsItem (.type t) ps

inductive AreItems : List Item → List Piece → Prop
  | none : AreItems [] []
  | more {i is ps qs} : IsItem i ps → AreItems is qs → AreItems (i :: is) (ps ++ qs)

/-- The text is a sentence that declares the tree; behind its last piece `Last` holds of what is left. -/
def Sentence (Last : List Char → Prop) (source : String) (tree : Tree) : Prop :=
  ∃ items ps after, AreItems items ps ∧ Reads (.ofString source) ps after ∧ Last after.rest ∧
    tree = Tree.ofItems items

theorem isType_iff {t : TypeDecl} {ps : List Piece} : IsType t ps ↔
    ∃ head ms qs rs, IsHead head qs ∧ AreMembers ms rs ∧ t = head.withMembers ms ∧ ps = qs ++ rs := by
  constructor
  · rintro @⟨name, base, isAbstract, ms, ps, bs, qs, p, q, r, isPrefix, isBase, rules⟩
    exact ⟨_, ms, _, qs, .mk (p := p) (r := r) isPrefix isBase, rules, rfl, by simp⟩
  · rintro ⟨_, ms, _, rs, @⟨name, base, isAbstract, ps, bs, p, q, r, isPrefix, isBase⟩, rules, rfl, rfl⟩
    have rule : IsType (TypeDecl.withMembers ⟨name, base, isAbstract, [], [], q⟩ ms)
      (ps ++ word "type" p :: word name q :: (bs ++ tok .lbrace r :: rs)) := .mk isPrefix isBase rules
    simpa using rule

/-! ## 4. Reading piece by piece -/

variable {c d e after : Cursor} {l : Lexeme} {b : Body} {ps qs : List Piece}

theorem Cursor.Takes.whole (h : c.Takes l d) : d.torn = false := by
  obtain ⟨_, _, _, _, _, _, _, _, whole⟩ := h
  exact whole

theorem Cursor.Takes.shorter (h : c.Takes l d) : d.rest.length < c.rest.length := by
  obtain ⟨gap, word, _, spelled, _, split, -⟩ := h
  obtain ⟨x, xs, rfl, -⟩ := spelled.begins
  rw [split]
  simp
  omega

theorem Cursor.Captures.shorter (h : c.Captures b d) : d.rest.length < c.rest.length := by
  rw [h.split]
  simp
  omega

theorem Cursor.Takes.remains (h : c.Takes l d) : Remains c.rest c.position d.rest d.position := by
  obtain ⟨gap, word, -, -, -, split, place, behind, -⟩ := h
  exact ⟨gap ++ word, by rw [split, List.append_assoc], by rw [behind, place, Position.after_append]⟩

/-- A token stands behind the cursor that takes it and in front of the one behind. -/
theorem Cursor.Takes.place (h : c.Takes l d) : ¬l.position.Before c.position ∧ l.position.Before d.position := by
  obtain ⟨gap, word, -, spelled, -, -, place, behind, -⟩ := h
  obtain ⟨x, xs, rfl, -⟩ := spelled.begins
  exact ⟨place ▸ Position.not_after_before _ _, behind ▸ Position.before_after _ x xs⟩

theorem Cursor.Captures.remains (h : c.Captures b d) : Remains c.rest c.position d.rest d.position :=
  ⟨b.text.toList ++ ['\x7d'], by rw [h.split]; simp, by rw [h.behind, Position.after_append]; rfl⟩

theorem Reads.append (h : Reads c ps d) (h' : Reads d qs e) : Reads c (ps ++ qs) e := by
  induction h with
  | nil => exact h'
  | token takes _ ih => exact .token takes (ih h')
  | body captures _ ih => exact .body captures (ih h')

theorem Reads.single (h : c.Takes l d) : Reads c [.token l] d := .token h .nil

/-- A sequence of pieces is read one part after the other. -/
theorem Reads.split (h : Reads c (ps ++ qs) e) : ∃ d, Reads c ps d ∧ Reads d qs e := by
  induction ps generalizing c with
  | nil => exact ⟨c, .nil, h⟩
  | cons p ps ih =>
    cases h with
    | token takes rest =>
      obtain ⟨d, first, second⟩ := ih rest
      exact ⟨d, .token takes first, second⟩
    | body captures rest =>
      obtain ⟨d, first, second⟩ := ih rest
      exact ⟨d, .body captures first, second⟩

theorem Reads.cons_inv {t : Token} {p : Position} (h : Reads c (tok t p :: ps) e) :
    ∃ d, c.Takes ⟨t, p⟩ d ∧ Reads d ps e := by
  cases h with
  | token takes rest => exact ⟨_, takes, rest⟩

theorem Reads.single_inv {t : Token} {p : Position} (h : Reads c [tok t p] d) : c.Takes ⟨t, p⟩ d := by
  obtain ⟨e, takes, rest⟩ := h.cons_inv
  cases rest
  exact takes

theorem Reads.whole (h : Reads c ps d) (whole : c.torn = false) : d.torn = false := by
  induction h with
  | nil => exact whole
  | token takes _ ih => exact ih takes.whole
  | body captures _ ih => exact ih captures.whole

theorem Reads.remains (h : Reads c ps d) : Remains c.rest c.position d.rest d.position := by
  induction h with
  | nil => exact .refl _ _
  | token takes _ ih => exact takes.remains.trans ih
  | body captures _ ih => exact captures.remains.trans ih

/-- Every piece takes a character. -/
theorem Reads.length_le (h : Reads c ps d) : ps.length + d.rest.length ≤ c.rest.length := by
  induction h with
  | nil => simp
  | token takes _ ih =>
    have := takes.shorter
    rw [List.length_cons]
    omega
  | body captures _ ih =>
    have := captures.shorter
    rw [List.length_cons]
    omega

/-- A body is captured as it stands. -/
theorem Cursor.captures_iff (whole : c.torn = false) : c.Captures b after ↔ c.capture? = some (b, after) := by
  rw [Cursor.capture?, Cursor.mend_of_whole whole, Cursor.remnant_of_whole whole]
  constructor
  · rintro ⟨place, split, ⟨q, scan⟩, behind, whole'⟩
    obtain ⟨w, ds, text, tail, rfl, again⟩ := scanBlock_cut scan
    obtain ⟨-, rfl⟩ := List.cons.inj tail
    obtain rfl : b.text.toList = w := List.append_cancel_right text
    have taken : c.rest.take (c.rest.length - ('\x7d' :: after.rest).length) = b.text.toList := by
      rw [split, List.length_append, Nat.add_sub_cancel, List.take_left]
    have found := again after.rest
    rw [← split] at found
    rw [found]
    show some ((⟨String.ofList (c.rest.take (c.rest.length - ('\x7d' :: after.rest).length)), c.position,
      b.refs.reverse.reverse⟩ : Body), (⟨after.rest, _, false⟩ : Cursor)) = _
    rw [taken, String.ofList_toList, List.reverse_reverse, ← behind, ← place, ← whole']
  · intro h
    obtain ⟨⟨tail, closing, refs⟩, found, h⟩ := Option.bind_eq_some_iff.mp h
    obtain ⟨w, ds, split, rfl, rfl, again⟩ := scanBlock_cut found
    have taken : c.rest.take (c.rest.length - ('\x7d' :: ds).length) = w := by
      rw [split, List.length_append, Nat.add_sub_cancel, List.take_left]
    dsimp only at h
    rw [taken] at h
    obtain ⟨rfl, rfl⟩ := Prod.mk.inj (Option.some.inj h)
    refine ⟨rfl, ?_, ⟨c.position.after w, ?_⟩, ?_, rfl⟩
    · simpa using split
    · simp only [String.toList_ofList, List.reverse_reverse]
      exact again []
    · simp

end ScriptHost.Declaration
