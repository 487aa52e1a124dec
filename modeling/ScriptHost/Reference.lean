import ScriptHost.Declaration.Tree
import ScriptHost.Diagnostic

/-!
# Reference — host modules that a module declares and uses

A body may only use host modules that its own file declares; `core` is always there, and so is the
namespace `global` of the script language.
-/

namespace ScriptHost.Reference

open Declaration (Tree UseDecl ModuleRef)

/-- Declared freely, for it is in scope anyway. -/
def core : String := "core"

/-- The namespace of module-level constants, which is no host module. -/
def globalNamespace : String := "global"

/-- The declarations that name a host module, the first of each name only. -/
def declared (uses : List UseDecl) : List UseDecl :=
  uses.foldl (fun ds d =>
    if (HostModule.ofName? d.module).isSome && !ds.any (·.module == d.module) then ds ++ [d]
    else ds) []

/-- The finding about a module path in a body, unless it is in order. -/
def check? (declared : List UseDecl) (name : String) : Option Finding :=
  if name == globalNamespace then none
  else if (HostModule.ofName? name).isNone then some (.unknownModule name)
  else if !declared.any (·.module == name) then some (.undeclaredModule name)
  else none

/-- All findings about the module references of a file. -/
def check (path : String) (t : Tree) : List Diagnostic :=
  let unknown := t.uses.filterMap fun d =>
    if d.module == core || (HostModule.ofName? d.module).isSome then none
    else some ⟨.unknownModule d.module, .atPosition path d.position⟩
  let known := declared t.uses
  let refs := t.bodies.flatMap (·.refs)
  let misused := refs.filterMap fun r =>
    (check? known r.name).map fun f => ⟨f, .atPosition path r.position⟩
  let unused := HostModule.all.filterMap fun m =>
    (known.find? (·.module == m.name)).bind fun d =>
      if refs.any (·.name == m.name) then none
      else some ⟨.unusedModule m.name, .atPosition path d.position⟩
  unknown ++ misused ++ unused

end ScriptHost.Reference
