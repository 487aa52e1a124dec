import ScriptHost.Corpus.Field
import ScriptHost.Corpus.Method

/-!
# Link — the types of a corpus and the programs that run them

Types are resolved over the whole corpus.  Only when nothing is wrong with it does a concrete behaviour
type get a program: all free functions, then the methods of its chain from the root on, where a later
function takes the place of an earlier one with the same name and number of parameters.
-/

namespace ScriptHost.Corpus

open Script (Value Entries)

/-! ## 1. Programs -/

/-- What it takes to run the instances of a type. -/
structure Program where
  typeName : String
  functions : List Script.Function
  hooks : HookSet
  fields : List FieldSpec
  /-- Where a function comes from, by name. -/
  origins : Entries Origin
deriving Inhabited

namespace Program

/-- Whether a call cannot tell two functions apart. -/
def sameCall (f g : Script.Function) : Bool :=
  f.name == g.name && f.params.length == g.params.length

/-- Adds a function in place of the one that is called alike. -/
def define (fs : List Script.Function) (f : Script.Function) : List Script.Function :=
  fs.filter (fun g => !sameCall g f) ++ [f]

/-- The functions that the given ones define, later ones taking the places of earlier ones. -/
def combine (ls : List Lowered) : List Script.Function :=
  ls.foldl (fun fs l => l.functions.foldl define fs) []

/-- The origin of each name; the last function of a name counts. -/
def originsOf (ls : List Lowered) : Entries Origin :=
  ls.foldl (fun os l => Entries.insert l.name l.origin os) []

/-- The function that a call of `name` with so many arguments runs. -/
def function? (p : Program) (name : String) (arity : Nat) : Option Script.Function :=
  p.functions.find? fun f => f.name == name && f.params.length == arity

/-- The fields that a fresh instance starts with. -/
def initialFields (p : Program) : Entries Value :=
  Entries.ofList (p.fields.map fun f => (f.name, f.default))

end Program

/-! ## 2. Types -/

/-- A type of a compiled corpus; `ancestry` starts with its own name. -/
structure ScriptType where
  name : String
  base : Option String
  ancestry : List String
  isAbstract : Bool
  isBehaviour : Bool
  hooks : HookSet
  fields : List FieldSpec
  location : Location
  program : Option Program
deriving Inhabited

namespace ScriptType

/-- Whether entities can carry instances of the type. -/
def isInstantiable (t : ScriptType) : Bool := t.isBehaviour && !t.isAbstract

def publicFields (t : ScriptType) : List FieldSpec := t.fields.filter (·.isPublic)

def withoutProgram (t : ScriptType) : ScriptType := { t with program := none }

end ScriptType

/-! ## 3. Linking -/

/-- A type resolved within its corpus: the type, the chain it descends by, and what there is to say
    about it besides its bases and its own fields. -/
structure Resolved where
  type : ScriptType
  chain : List Nat
  findings : List Diagnostic
deriving Inhabited

/-- Resolves the type `i`, given how every type descends and what fields it declares. -/
def resolveType (ns : List Node) (own : Nat → List FieldSpec) (i : Nat) (n : Node) (a : Ancestry) :
    Resolved :=
  let chain := a.chain i
  let bases := chain.filter (· != i)
  let inherited := FieldSpec.ofChain own bases
  let (ownHooks, methodFindings) :=
    if a.isBehaviour then checkMethods n else (HookSet.empty, [])
  let hooks := bases.foldl (fun hs j =>
    match ns[j]? with
    | some b => hs.union (declaredHooks b.decl)
    | none => hs) ownHooks
  let remarks : List Diagnostic := match a with
    | .behaviour _ =>
      if !n.decl.isAbstract && hooks.isEmpty then [⟨.noHooks n.name, n.location⟩] else []
    | .plain _ => [⟨.notABehaviour n.name, n.location⟩]
    | .broken => []
  { chain
    findings := FieldSpec.shadowed n inherited (own i) ++ methodFindings ++ remarks
    type :=
      { name := n.name
        base := n.decl.base.map (·.1)
        ancestry := chain.reverse.filterMap fun j => (ns[j]?).map Node.name
        isAbstract := n.decl.isAbstract
        isBehaviour := a.isBehaviour
        hooks
        fields := FieldSpec.ofChain own chain
        location := n.location
        program := none } }

/-- The types of a corpus, each resolved by its walk. -/
def resolveAll (ns : List Node) : List Resolved :=
  let own := ns.map fun n => (FieldSpec.own n).1
  ns.zipIdx.map fun (n, i) => resolveType ns (fun j => (own[j]?).getD []) i n (walk ns i).ancestry

/-- The program of a resolved type. -/
def programOf (ms : List Module) (ns : List Node) (r : Resolved) : Program :=
  let methods := r.chain.flatMap fun j => ((ns[j]?).map Node.methods).getD []
  let functions := ms.flatMap (·.functions) ++ methods
  { typeName := r.type.name
    functions := Program.combine functions
    hooks := r.type.hooks
    fields := r.type.fields
    origins := Program.originsOf functions }

/-- A resolved type with its program, if it is one to have instances. -/
def equip (ms : List Module) (ns : List Node) (r : Resolved) : ScriptType :=
  if r.type.isInstantiable then { r.type with program := some (programOf ms ns r) } else r.type

/-- The findings about types named like the built-in base. -/
def reservedNames (ns : List Node) : List Diagnostic :=
  ns.filterMap fun n =>
    if n.name == behaviourBase then some ⟨.reservedTypeName, n.location⟩ else none

/-- The findings about bases: what each walk says of the type that it starts from. -/
def baseFindings (ns : List Node) : List Diagnostic :=
  (List.range ns.length).flatMap fun i => (walk ns i).findings ns i

/-- Everything there is to say about a corpus as a whole. -/
def linkFindings (ms : List Module) : List Diagnostic :=
  let ns := Node.ofModules ms
  duplicateFunctions ms ++ reservedNames ns ++ baseFindings ns ++
    ns.flatMap (fun n => (FieldSpec.own n).2) ++ (resolveAll ns).flatMap (·.findings)

/-- The types of a corpus and the findings about them. -/
structure Linked where
  types : List ScriptType
  diagnostics : List Diagnostic
deriving Inhabited

/-- Links the files of a corpus.  Programs are made only where `emit` asks for them and linking itself
    finds no error. -/
def link (ms : List Module) (emit : Bool) : Linked :=
  let ns := Node.ofModules ms
  let diagnostics := linkFindings ms
  let types :=
    if emit && Diagnostic.passes diagnostics then (resolveAll ns).map (equip ms ns)
    else (resolveAll ns).map (·.type)
  ⟨types, diagnostics⟩

end ScriptHost.Corpus
