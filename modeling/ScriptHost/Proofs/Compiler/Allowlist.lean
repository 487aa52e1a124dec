import ScriptHost.Proofs.Compiler.Active
import ScriptHost.Proofs.Corpus.Lowered

/-!
# Allowlist — which modules a body can get at

A file says which host modules its bodies use.  A body is searched for module paths before it is compiled,
by a scan that is not the lexer of the script language; where the two read a path alike, the script can get
at no module but those of its file.
-/

namespace ScriptHost

open Corpus (Module Lowered)
open Declaration (FnDecl)
open Script (BodyObeys Ident Marks isPlainText)
open Text (Position Remains)

variable {m : Module} {f : FnDecl}

/-- The word stands right in front of `::`, with nothing in between. -/
def Script.Ident.HeadsPath (i : Ident) (text : String) : Prop :=
  ∃ ds, Remains text.toList .start (i.name.toList ++ ':' :: ':' :: ds) i.position

/-- The module may be named at the head of a path in that file: it is the namespace of constants, or the file
    declares it, and then it is not called unused. -/
structure Corpus.Module.Allows (m : Module) (name : String) : Prop where
  declared : name = Reference.globalNamespace ∨ ∃ u ∈ m.tree.uses, u.module = name
  used : ∀ l, ⟨.unusedModule name, l⟩ ∉ m.diagnostics

/-- What is asked of the module paths in a function of a module. -/
def Corpus.Module.pathMarks (m : Module) (f : FnDecl) : Marks where
  place _ := True
  root i := i.HeadsPath (Lowered.textOf f) → m.Allows i.name

/-- Where nothing is wrong with a module, what its bodies were found to use is allowed. -/
theorem pathMarks_of_marksOf (h : m.IsRead) (passed : Diagnostic.passes m.diagnostics = true)
    (hf : f ∈ m.tree.declarations) : (Lowered.marksOf f).Weakens (m.pathMarks f) where
  place _ _ := trivial
  root := by
    intro i noted ⟨ds, stands⟩
    obtain ⟨r, hr, same⟩ := noted ds stands
    have hr := List.mem_reverse.mp hr
    have allowed := Module.declared_of_noted h passed hf hr
    rcases same with same | foreign
    · rw [← same]
      exact ⟨allowed.imp_right And.right, Module.used_of_noted h hf hr⟩
    · -- A path that is neither is an error.
      rcases allowed with isGlobal | ⟨host, -⟩
      · exact absurd isGlobal foreign.1
      · rw [foreign.2] at host
        exact absurd host Bool.false_ne_true

namespace Compiler

/-- A file that uses what it declares, in a closure. -/
def declaredPath : Compilation :=
  ⟨⟨[⟨"a.ks", "use math; fn half(x) \x7b let f = |y| math::clamp(y, 0.0, 0.5); f.call(x) \x7d", .time 0⟩],
    []⟩, false⟩

/-- The module that a body calls and gives the value of, if it is no more than that. -/
def calledModule? : Script.Program → Option String
  | ⟨[⟨_, _, [.expr (.moduleCall [i] ..)]⟩], []⟩ => some i.name
  | _ => none

end Compiler

end ScriptHost
