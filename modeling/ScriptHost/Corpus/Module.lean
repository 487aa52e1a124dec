import ScriptHost.Corpus.Lowered
import ScriptHost.Declaration.Parser
import ScriptHost.Reference

/-!
# Module — one file of a corpus, read and compiled by itself

What there is to say about a file does not depend on the other files: first its syntax, then its host
modules, then the bodies of its functions.
-/

namespace ScriptHost.Corpus

open Declaration (FnDecl TypeDecl Tree)

/-- A declared type with those of its methods that could be compiled. -/
structure TypeModule where
  decl : TypeDecl
  methods : List Lowered
deriving Inhabited

/-- A file of a corpus. -/
structure Module where
  path : String
  tree : Tree
  functions : List Lowered
  types : List TypeModule
  diagnostics : List Diagnostic
deriving Inhabited

namespace Module

/-- The functions that could be compiled, and the findings about the others. -/
def split (fs : List (Except Diagnostic Lowered)) : List Lowered × List Diagnostic :=
  (fs.filterMap fun
    | .ok f => some f
    | .error _ => none,
   fs.filterMap fun
    | .ok _ => none
    | .error d => some d)

/-- Reads the text of a file. -/
def read (path content : String) : Module :=
  let (tree, faults) := Declaration.parse content
  let syntaxFindings := faults.map fun f =>
    (⟨.declarationSyntax f.cause, .atPosition path f.position⟩ : Diagnostic)
  let lower (fs : List FnDecl) := split (fs.map (Lowered.ofDecl path))
  let functions := lower tree.functions
  let types := tree.types.map fun t => (t, lower t.methods)
  { path, tree
    functions := functions.1
    types := types.map fun (t, methods) => ⟨t, methods.1⟩
    diagnostics := syntaxFindings ++ Reference.check path tree ++ functions.2 ++
      types.flatMap fun (_, methods) => methods.2 }

end Module

end ScriptHost.Corpus
