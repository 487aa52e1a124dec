import ScriptHost.Corpus.Module
import ScriptHost.Proofs.Declaration.Parser
import ScriptHost.Proofs.Script.Lexer.Header
import ScriptHost.Proofs.Script.Parser.Reading

/-!
# Lowered — what a declared function is compiled to

A body goes into a text of its own behind a header.  Where the body is plain that text holds the one
function which was declared: its braces cannot be closed early, and every module path in it starts with a
word that the scan of the body has noted.
-/

namespace ScriptHost

open Declaration (FnDecl)

namespace Script

/-- A brace does not change whether a text is plain. -/
theorem isPlainText_brace {cs : List Char} (h : isPlainText cs = true) :
    isPlainText (cs ++ ['\x7d']) = true := by
  induction cs with
  | nil => rfl
  | cons c cs ih =>
    have later := ih (isPlainText_tail h)
    rw [List.cons_append]
    unfold isPlainText
    split
    · next text split =>
      obtain ⟨rfl, behind⟩ := List.cons.inj split
      have quote : cs.head? ≠ some '"' := not_raw_of_isPlainText h
      cases cs <;> simp_all
    · next text _ split =>
      obtain ⟨rfl, rfl⟩ := List.cons.inj split
      have newline : cs.head? = some '\n' := newline_of_isPlainText h
      obtain ⟨ds, rfl⟩ := List.head?_eq_some_iff.mp newline
      exact later
    · next text _ _ split =>
      obtain ⟨-, rfl⟩ := List.cons.inj split
      exact later
    · rfl

end Script

namespace Corpus.Lowered

open Script (Marks BodyObeys isPlainText isPlainText_brace)

variable {source : String} {f : FnDecl} {known : Script.Known} {p : Script.Program}

/-- The marks of a declared function: places in its text, and at the root of a path words that were noted. -/
def marksOf (f : FnDecl) : Marks := .ofText f.body.refs.reverse (textOf f).toList

/-- The text of a declared function is read as that function, and its body obeys whatever the marks of the
    function ask for. -/
theorem parse_textOf {M : Marks} (weaker : (marksOf f).Weakens M)
    (declared : f ∈ (Declaration.parse source).1.declarations)
    (plain : isPlainText f.body.text.toList = true) (h : Script.parse known (textOf f) = .ok p) :
    ∃ body, p = ⟨[⟨f.name, f.params, body⟩], []⟩ ∧ BodyObeys M body := by
  have is := Declaration.declared_of_parse declared
  have headed := Script.headed_textOf f is.name is.params is.scanned (isPlainText_brace plain)
  unfold Script.parse at h
  rcases run : Script.parseTokens known (Script.tokens (textOf f)) with ⟨result, state⟩
  rw [run] at h
  cases result with
  | error fault => exact nomatch h
  | ok statements =>
    obtain rfl := Except.ok.inj h
    obtain ⟨rfl, body, functions, obeys⟩ := Script.script_of_headed (headed.mono weaker) run
    exact ⟨body, by rw [functions], obeys⟩

/-- What a text is compiled to is what it is read as, made simple. -/
theorem parse_of_compile {text : String} (h : Script.compile known text = .ok p) :
    ∃ q, Script.parse known text = .ok q ∧ p = q.simplify := by
  unfold Script.compile at h
  cases hq : Script.parse known text with
  | error fault =>
    rw [hq] at h
    exact nomatch h
  | ok q =>
    rw [hq] at h
    exact ⟨q, rfl, (Except.ok.inj h).symm⟩

/-- What is kept of a declared function. -/
theorem compile_of_ofDecl {path : String} {l : Lowered} (h : ofDecl path f = .ok l) :
    ∃ p, Script.compile Lowered.known (textOf f) = .ok p ∧
      l = ⟨f.name, f.params, textOf f, p.functions, originOf path f⟩ := by
  unfold ofDecl at h
  dsimp only at h
  split at h
  · next p hp => exact ⟨p, hp, (Except.ok.inj h).symm⟩
  · exact nomatch h

/-- Braces in a comment, a string and a template close nothing, and a closure is no function of the text. -/
def halving : String :=
  "fn half(x) \x7b /* \x7d */ let s = |y| \x7b `\x7d $\x7bx / y\x7d` \x7d; s.call(2) + \"\x7d\" \x7d"

end Corpus.Lowered

end ScriptHost
