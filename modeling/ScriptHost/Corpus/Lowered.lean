import ScriptHost.Declaration.Tree
import ScriptHost.Origin
import ScriptHost.Script.Simplify

/-!
# Lowered — declared functions as scripts of their own

A body is compiled behind a header that is spelled anew from the name and the parameters, so that each
function stands for itself.
-/

namespace ScriptHost.Corpus

open Declaration (FnDecl)

/-- A declared function, its own text, and what that text defines. -/
structure Lowered where
  name : String
  params : List String
  text : String
  functions : List Script.Function
  origin : Origin
deriving Inhabited

namespace Lowered

/-- Everything before the body. -/
def header (f : FnDecl) : String :=
  "fn " ++ f.name ++ "(" ++ String.intercalate ", " f.params ++ ") \x7b"

def textOf (f : FnDecl) : String := header f ++ f.body.text ++ "\x7d"

def originOf (path : String) (f : FnDecl) : Origin :=
  ⟨path, f.position, f.body.position, (header f).length⟩

/-- Host modules are known to a body, variables outside it are not. -/
def known : Script.Known := ⟨[], HostModule.all.map HostModule.name⟩

/-- Compiles a declared function of a file. -/
def ofDecl (path : String) (f : FnDecl) : Except Diagnostic Lowered :=
  let origin := originOf path f
  match Script.compile known (textOf f) with
  | .ok p => .ok ⟨f.name, f.params, textOf f, p.functions, origin⟩
  | .error fault =>
    .error ⟨.bodySyntax f.name fault.cause.message, origin.map fault.position⟩

end Lowered

end ScriptHost.Corpus
