import ScriptHost.Proofs.Script.Marks
import ScriptHost.Script.Lexer

/-!
# Enclosed — tokens that end with the braces they stand in

The text of a function ends with the brace that closes its body.  Its tokens are followed from one to the
next with the count of open braces: where none is open the text is at its end, and until then there is
nothing but tokens that obey the marks.
-/

namespace ScriptHost.Script

variable {M : Marks} {d : Nat} {behind : Bool} {l : Lexeme} {ls : List Lexeme}

/-! ## 1. Tokens and braces -/

namespace Token

/-- How many braces are open behind a token, of `d` in front of it. -/
def depthBehind (d : Nat) : Token → Nat
  | .symbol "\x7b" | .symbol "#\x7b" => d + 1
  | .symbol "\x7d" => d - 1
  | _ => d

/-- Whether a token neither counts for the braces nor joins a module path nor ends the tokens. -/
def isPlain : Token → Bool
  | .symbol "\x7b" | .symbol "#\x7b" | .symbol "\x7d" | .symbol "::" | .eof | .fault _ => false
  | _ => true

/-- A token that leaves the braces and the paths alone, if it does not end the tokens with a fault. -/
def IsOrdinary (t : Token) : Prop := t.isPlain = true ∨ ∃ cause, t = .fault cause

theorem depthBehind_of_isPlain {t : Token} (plain : t.isPlain = true) : t.depthBehind d = d := by
  unfold isPlain at plain
  split at plain <;> first | exact absurd plain Bool.false_ne_true | skip
  unfold depthBehind
  split <;> simp_all

theorem isLast_of_isPlain {t : Token} (plain : t.isPlain = true) : t.isLast = false := by
  cases t <;> first | rfl | exact absurd plain Bool.false_ne_true

theorem ne_path_of_isPlain {t : Token} (plain : t.isPlain = true) : (t == .symbol "::") = false := by
  rw [beq_eq_false_iff_ne]
  rintro rfl
  exact absurd plain (by decide)

/-- The word of a name is the name. -/
theorem eq_of_ofWord {w x : String} (h : ofWord w = .name x) : w = x := by
  unfold ofWord at h
  split at h
  · exact nomatch h
  · split at h
    · exact nomatch h
    · split at h
      · exact nomatch h
      · split at h
        · exact Token.name.inj h
        · exact nomatch h

theorem ofWord_ordinary (w : String) : (ofWord w).IsOrdinary := by
  unfold ofWord
  split
  · next underscore =>
    rw [eq_of_beq underscore]
    exact .inl rfl
  · split
    · exact .inl rfl
    · split
      · exact .inl rfl
      · split
        · exact .inl rfl
        · exact .inr ⟨_, rfl⟩

end Token

/-! ## 2. Enclosed tokens -/

/-- Tokens in front of which `d` braces are open; `behind` says that a module path goes on.  A word that
    starts a path is a root of the marks.  Only a fault ends the tokens where a brace is open. -/
inductive Enclosed (M : Marks) : (d : Nat) → (behind : Bool) → List Lexeme → Prop
  | done {behind : Bool} {p : Text.Position} : Enclosed M 0 behind [⟨.eof, p⟩]
  | fault {d : Nat} {behind : Bool} {cause : LexFault} {p : Text.Position} :
      Enclosed M (d + 1) behind [⟨.fault cause, p⟩]
  | token {d : Nat} {behind : Bool} {l : Lexeme} {ls : List Lexeme} (goesOn : l.token.isLast = false)
      (place : M.place l.position)
      (root : behind = false → ∀ w, l.token = .name w →
        (∃ m ∈ ls.head?, m.token = .symbol "::") → M.root ⟨w, l.position⟩)
      (rest : Enclosed M (l.token.depthBehind (d + 1)) (l.token == .symbol "::") ls) :
      Enclosed M (d + 1) behind (l :: ls)

namespace Enclosed

theorem ne_nil (h : Enclosed M d behind ls) : ls ≠ [] := by
  cases h <;> exact List.cons_ne_nil _ _

/-- Where no brace is open there is only the end. -/
theorem eq_done (h : Enclosed M 0 behind ls) : ∃ p, ls = [⟨.eof, p⟩] := by
  cases h with
  | done => exact ⟨_, rfl⟩

theorem place (h : Enclosed M d behind (l :: ls)) (goesOn : l.token.isLast = false) :
    M.place l.position := by
  cases h with
  | done => exact nomatch goesOn
  | fault => exact nomatch goesOn
  | token _ place => exact place

theorem root {w : String} (h : Enclosed M d false (l :: ls)) (name : l.token = .name w)
    (path : ∃ m ∈ ls.head?, m.token = .symbol "::") : M.root ⟨w, l.position⟩ := by
  cases h with
  | done => exact absurd name (by simp)
  | fault => exact absurd name (by simp)
  | token _ _ root => exact root rfl w name path

/-- Behind a token that is not the last one. -/
theorem tail (h : Enclosed M d behind (l :: ls)) (goesOn : l.token.isLast = false) :
    Enclosed M (l.token.depthBehind d) (l.token == .symbol "::") ls := by
  cases h with
  | done => exact nomatch goesOn
  | fault => exact nomatch goesOn
  | token _ _ _ rest => exact rest

theorem mono {N : Marks} (h : Enclosed M d behind ls) (weaker : M.Weakens N) : Enclosed N d behind ls := by
  induction h with
  | done => exact .done
  | fault => exact .fault
  | token goesOn place root _ ih =>
    exact .token goesOn (weaker.place _ place) (fun h w name path => weaker.root _ (root h w name path)) ih

end Enclosed

end ScriptHost.Script
