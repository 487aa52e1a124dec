import ScriptHost.Corpus.Ancestry

/-!
# Method — the functions of a corpus and the hooks among them

Free functions share one namespace: a name may be used once for each number of parameters.  A type
defines a method name once, and a method named like a hook has the parameters of that hook.
-/

namespace ScriptHost.Corpus

open Declaration (TypeDecl FnDecl)

/-- The hook that a method serves by its name. -/
def hookOf? (f : FnDecl) : Option Hook := Hook.ofName? f.name

/-- The hook that a method serves, if it has the parameters for it. -/
def servedHook? (f : FnDecl) : Option Hook :=
  (hookOf? f).filter fun h => h.arity == f.params.length

/-- The hooks that a type declares, whatever else there is to say about its methods. -/
def declaredHooks (t : TypeDecl) : HookSet :=
  (t.methods.filterMap servedHook?).foldl HookSet.insert .empty

/-- The hooks among the methods of a type and the findings about its methods; only the first method of
    a name counts. -/
def checkMethods (n : Node) : HookSet × List Diagnostic :=
  let (_, hooks, found) := n.decl.methods.foldl (fun (seen, hooks, found) f =>
    let place := Location.atPosition n.path f.position
    if seen.contains f.name then (seen, hooks, found ++ [⟨.duplicateMethod f.name n.name, place⟩])
    else
      match hookOf? f with
      | none => (f.name :: seen, hooks, found)
      | some h =>
        if f.params.length == h.arity then (f.name :: seen, hooks.insert h, found)
        else (f.name :: seen, hooks, found ++ [⟨.hookSignature h f.params.length, place⟩]))
    (([] : List String), HookSet.empty, ([] : List Diagnostic))
  (hooks, found)

/-- The findings about free functions that are defined again, each with the place of the first. -/
def duplicateFunctions (ms : List Module) : List Diagnostic :=
  let all := ms.flatMap fun m =>
    m.tree.functions.map fun f => (f, Location.atPosition m.path f.position)
  let same (f g : FnDecl) : Bool := f.name == g.name && f.params.length == g.params.length
  all.zipIdx.filterMap fun ((f, place), i) =>
    ((all.take i).find? fun e => same e.1 f).map fun first =>
      ⟨.duplicateFunction f.name f.params.length first.2, place⟩

end ScriptHost.Corpus
