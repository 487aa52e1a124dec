import ScriptHost.Corpus.Module

/-!
# Ancestry — from a type to its bases

A base is named, and the name is looked up among the types of the whole corpus.  From a type the walk
goes from base to base until it meets the built-in base, a type without a base, or a name that leads
nowhere, to several types, or back to a type on the way.
-/

namespace ScriptHost.Corpus

open Declaration (TypeDecl)

/-- A declared type, its file, and its compiled methods. -/
structure Node where
  path : String
  decl : TypeDecl
  methods : List Lowered
deriving Inhabited

namespace Node

def name (n : Node) : String := n.decl.name

def location (n : Node) : Location := .atPosition n.path n.decl.position

/-- The name of the base and its place. -/
def base? (n : Node) : Option (String × Location) :=
  n.decl.base.map fun b => (b.1, .atPosition n.path b.2)

/-- All types of a corpus, file by file. -/
def ofModules (ms : List Module) : List Node :=
  ms.flatMap fun m => m.types.map fun t => ⟨m.path, t.decl, t.methods⟩

end Node

/-- The numbers of the types of that name. -/
def candidates (ns : List Node) (name : String) : List Nat :=
  (List.range ns.length).filter fun i => (ns[i]?).any (·.name == name)

/-! ## 1. The walk -/

/-- How a walk ends.  A chain holds the types passed, the one the walk started at last. -/
inductive Walk where
  | behaviour (chain : List Nat)
  | plain (chain : List Nat)
  | unknown (chain : List Nat) (base : String)
  | ambiguous (chain : List Nat) (base : String) (found : List Nat)
  | cycle (chain : List Nat) (again : Nat)
deriving DecidableEq, Inhabited

/-- Goes on from the type `i` with the types in `chain` behind it, itself included.  `fuel` bounds the
    number of steps; a chain longer than the corpus repeats a type. -/
def walkFrom (ns : List Node) : Nat → Nat → List Nat → Walk
  | 0, i, chain => .cycle chain i
  | fuel + 1, i, chain =>
    match (ns[i]?).bind Node.base? with
    | none => .plain chain
    | some (base, _) =>
      if base == behaviourBase then .behaviour chain
      else
        match candidates ns base with
        | [] => .unknown chain base
        | [next] =>
          if chain.contains next then .cycle chain next else walkFrom ns fuel next (next :: chain)
        | found => .ambiguous chain base found

/-- The walk from the type `i`. -/
def walk (ns : List Node) (i : Nat) : Walk := walkFrom ns (ns.length + 1) i [i]

/-! ## 2. What a walk says -/

/-- What a type descends from: a chain holds the root first and the type itself last. -/
inductive Ancestry where
  | behaviour (chain : List Nat)
  | plain (chain : List Nat)
  | broken
deriving DecidableEq, Inhabited

namespace Walk

def ancestry : Walk → Ancestry
  | behaviour chain => .behaviour chain
  | plain chain => .plain chain
  | _ => .broken

/-- The findings about the type `i` itself: a base further up is reported with the type that names it,
    but an ambiguous one with every type below it. -/
def findings (ns : List Node) (i : Nat) (w : Walk) : List Diagnostic :=
  match ns[i]? with
  | none => []
  | some n =>
    let baseLocation := (n.base?.map (·.2)).getD n.location
    match w with
    | unknown chain base => if chain == [i] then [⟨.unknownBase base, baseLocation⟩] else []
    | ambiguous chain base found =>
      let direct := chain == [i]
      let places := found.filterMap fun j => (ns[j]?).map Node.location
      [⟨.ambiguousBase direct base places n.name, if direct then baseLocation else n.location⟩]
    | cycle chain again =>
      if again == i then
        let names := chain.reverse.filterMap fun j => (ns[j]?).map Node.name
        [⟨.inheritanceCycle (names ++ [n.name]), baseLocation⟩]
      else []
    | _ => []

end Walk

namespace Ancestry

/-- The chain, or the type `i` alone where it is broken. -/
def chain (i : Nat) : Ancestry → List Nat
  | behaviour chain | plain chain => chain
  | broken => [i]

def isBehaviour : Ancestry → Bool
  | behaviour _ => true
  | _ => false

end Ancestry

end ScriptHost.Corpus
