import Mathlib.Data.List.Pairwise
import ScriptHost.Proofs.Compiler.Active
import ScriptHost.Proofs.Corpus.Functions

/-!
# Dispatch — which declared function answers a call

A program takes the free functions and then the methods of a chain from the root on, later ones in place of
earlier ones that are called alike.  So a call is answered by the most derived type of the chain that has a
method for it, else by the free function, else by nothing that was declared.
-/

namespace ScriptHost.Corpus

open Declaration (FnDecl)
open Diagnostic (passes passes_append)

variable {ms : List Module} {ns : List Node} {r : Resolved} {name : String} {arity i : Nat}
  {chain : List Nat}

/-! ## 1. Declared functions -/

/-- A declared function and the file that it stands in. -/
structure Definition where
  path : String
  decl : FnDecl
deriving Inhabited

namespace Definition

/-- Whether a call of that name with so many arguments means the function. -/
def isCalled (name : String) (arity : Nat) (d : Definition) : Bool :=
  d.decl.name == name && d.decl.params.length == arity

/-- What the function was compiled to, if it could be compiled. -/
def lowered? (d : Definition) : Option Lowered := (Lowered.ofDecl d.path d.decl).toOption

/-- The function of the script language that was compiled of this one and of nothing else. -/
def Compiles (d : Definition) (f : Script.Function) : Prop :=
  ∃ l, Lowered.ofDecl d.path d.decl = .ok l ∧ l.Defines f

end Definition

/-- The free functions of a corpus, file by file. -/
def freeFunctions (ms : List Module) : List Definition :=
  ms.flatMap fun m => m.tree.functions.map fun f => ⟨m.path, f⟩

/-- The methods that the type `j` declares itself. -/
def methodsOf (ns : List Node) (j : Nat) : List Definition :=
  ((ns[j]?).map fun n => n.decl.methods.map fun f => (⟨n.path, f⟩ : Definition)).getD []

/-- The declared function that a call means within a type: that of the most derived type of its chain which has
    one, else the free function. -/
def answer? (ms : List Module) (ns : List Node) (chain : List Nat) (name : String) (arity : Nat) :
    Option Definition :=
  (chain.reverse.findSome? fun j => (methodsOf ns j).find? (·.isCalled name arity)).or
    ((freeFunctions ms).find? (·.isCalled name arity))

/-! ## 2. What goes into a program -/

theorem mem_methodsOf {j : Nat} {n : Node} (hn : ns[j]? = some n) {d : Definition} :
    d ∈ methodsOf ns j ↔ d.path = n.path ∧ d.decl ∈ n.decl.methods := by
  rw [methodsOf, hn]
  show d ∈ n.decl.methods.map _ ↔ _
  rw [List.mem_map]
  constructor
  · rintro ⟨f, hf, rfl⟩
    exact ⟨rfl, hf⟩
  · rintro ⟨path, hf⟩
    exact ⟨d.decl, hf, path ▸ rfl⟩

theorem split_ok (fs : List (Except Diagnostic Lowered)) :
    (Module.split fs).1 = fs.filterMap Except.toOption := by
  show fs.filterMap _ = _
  refine List.filterMap_congr fun e _ => ?_
  cases e <;> rfl

theorem lowered_functions {m : Module} (read : m.IsRead) :
    m.functions = (m.tree.functions.map (Definition.mk m.path)).filterMap (·.lowered?) := by
  obtain ⟨path, content, rfl⟩ := read
  rw [Module.functions_read, split_ok, List.filterMap_map, List.filterMap_map]
  rfl

theorem lowered_methods {m : Module} (read : m.IsRead) {t : TypeModule} (ht : t ∈ m.types) :
    t.methods = (t.decl.methods.map (Definition.mk m.path)).filterMap (·.lowered?) := by
  obtain ⟨path, content, rfl⟩ := read
  rw [Module.types_read] at ht
  obtain ⟨decl, -, rfl⟩ := List.mem_map.mp ht
  show (Module.split _).1 = _
  rw [split_ok, List.filterMap_map, List.filterMap_map]
  rfl

/-- A program is made of declared functions, all of them in the order in which they are taken. -/
theorem parts_eq (read : ∀ m ∈ ms, m.IsRead) : parts ms (Node.ofModules ms) r =
    (freeFunctions ms ++ r.chain.flatMap (methodsOf (Node.ofModules ms))).filterMap (·.lowered?) := by
  have free : ms.flatMap (·.functions) = (freeFunctions ms).filterMap (·.lowered?) := by
    rw [freeFunctions, List.filterMap_flatMap]
    exact List.flatMap_congr fun m hm => lowered_functions (read m hm)
  have methods (j : Nat) : (((Node.ofModules ms)[j]?).map Node.methods).getD [] =
      (methodsOf (Node.ofModules ms) j).filterMap (·.lowered?) := by
    rw [methodsOf]
    cases hn : (Node.ofModules ms)[j]? with
    | none => rfl
    | some n =>
      obtain ⟨m, hm, t, ht, rfl⟩ := exists_of_mem_ofModules (List.mem_of_getElem? hn)
      exact lowered_methods (read m hm) ht
  rw [parts, free, List.filterMap_append, List.filterMap_flatMap]
  simp only [methods]

/-! ## 3. The last function that is called so -/

namespace Program

variable {fs : List Script.Function} {f g : Script.Function}

/-- Whether a call of that name with so many arguments runs the function. -/
def isCalled (name : String) (arity : Nat) (f : Script.Function) : Bool :=
  f.name == name && f.params.length == arity

theorem isCalled_iff : isCalled name arity f = true ↔ f.name = name ∧ f.params.length = arity := by
  rw [isCalled, Bool.and_eq_true, beq_iff_eq, beq_iff_eq]

/-- A function that is put last answers its calls. -/
theorem find?_define_of_called (called : isCalled name arity g = true) :
    (define fs g).find? (isCalled name arity) = some g := by
  have gone : (fs.filter fun f => !sameCall f g).find? (isCalled name arity) = none := by
    refine List.find?_eq_none.mpr fun f hf called' => ?_
    obtain ⟨named, counted⟩ := isCalled_iff.mp called
    obtain ⟨named', counted'⟩ := isCalled_iff.mp called'
    have alike : sameCall f g = true :=
      sameCall_iff.mpr ⟨named'.trans named.symm, counted'.trans counted.symm⟩
    have other := (List.mem_filter.mp hf).2
    rw [alike] at other
    exact absurd other Bool.false_ne_true
  rw [define, List.find?_append, gone, Option.none_or, List.find?_cons, called]

/-- Calls that it does not answer are answered as before. -/
theorem find?_define_of_not_called (notCalled : isCalled name arity g = false) :
    (define fs g).find? (isCalled name arity) = fs.find? (isCalled name arity) := by
  have other : ∀ f ∈ fs, (isCalled name arity f && !sameCall f g) = isCalled name arity f := by
    intro f _
    cases called : isCalled name arity f with
    | false => rfl
    | true =>
      refine (Bool.true_and _).trans ((Bool.not_eq_true' _).mpr (Bool.eq_false_iff.mpr fun alike => ?_))
      obtain ⟨named, counted⟩ := sameCall_iff.mp alike
      rw [isCalled, named, counted] at called
      exact absurd (called.symm.trans notCalled) (by decide)
  have kept : (fs.filter fun f => !sameCall f g).find? (isCalled name arity) =
      fs.find? (isCalled name arity) := by
    rw [← List.head?_filter, ← List.head?_filter, List.filter_filter, List.filter_congr other]
  rw [define, List.find?_append, kept, List.find?_cons, notCalled]
  exact Option.or_none

/-- Of the functions that are called alike a program has the last one. -/
theorem find?_combine {ls : List Lowered} (sole : ∀ l ∈ ls, ∃ f, l.Defines f) (name : String)
    (arity : Nat) :
    (combine ls).find? (isCalled name arity) =
      (ls.reverse.find? fun l => l.name == name && l.params.length == arity).bind (·.functions.head?) := by
  induction ls using List.reverseRecOn with
  | nil => rfl
  | append_singleton ls l ih =>
    obtain ⟨before, g, defines⟩ := forall_mem_concat sole
    have same : isCalled name arity g = (l.name == name && l.params.length == arity) := by
      rw [isCalled, defines.name, defines.params]
    rw [combine_concat defines, List.reverse_append, List.reverse_singleton, List.singleton_append,
      List.find?_cons, ← same]
    cases called : isCalled name arity g with
    | true =>
      rw [find?_define_of_called called]
      show some g = l.functions.head?
      rw [defines.functions]
      rfl
    | false =>
      rw [find?_define_of_not_called called]
      exact ih before

end Program

/-! ## 4. One function for a call -/

/-- No call means two functions of the list. -/
def Unambiguous (ds : List Definition) : Prop :=
  ds.Pairwise fun d e => ∀ name arity, ¬ (d.isCalled name arity = true ∧ e.isCalled name arity = true)

theorem Definition.isCalled_iff {d : Definition} :
    d.isCalled name arity = true ↔ d.decl.name = name ∧ d.decl.params.length = arity := by
  rw [isCalled, Bool.and_eq_true, beq_iff_eq, beq_iff_eq]

theorem Unambiguous.eq {ds : List Definition} (h : Unambiguous ds) {d e : Definition} (hd : d ∈ ds)
    (he : e ∈ ds) (called : d.isCalled name arity = true) (called' : e.isCalled name arity = true) :
    d = e := by
  by_contra different
  have : Std.Symm fun d e : Definition =>
      ∀ name arity, ¬ (d.isCalled name arity = true ∧ e.isCalled name arity = true) :=
    ⟨fun _ _ other name arity both => other name arity both.symm⟩
  exact List.Pairwise.forall h hd he different name arity ⟨called, called'⟩

/-- A call that a type of the chain has a method for means such a method. -/
theorem exists_answer {j : Nat} (hj : j ∈ chain) {d : Definition} (hd : d ∈ methodsOf ns j)
    (called : d.isCalled name arity = true) :
    ∃ k ∈ chain, ∃ e ∈ methodsOf ns k, e.isCalled name arity = true ∧
      answer? ms ns chain name arity = some e := by
  have some' : (chain.reverse.findSome? fun j =>
      (methodsOf ns j).find? (·.isCalled name arity)).isSome = true :=
    List.findSome?_isSome_iff.mpr
      ⟨j, List.mem_reverse.mpr hj, List.find?_isSome.mpr ⟨d, hd, called⟩⟩
  obtain ⟨e, found⟩ := Option.isSome_iff_exists.mp some'
  obtain ⟨k, hk, he⟩ := List.exists_of_findSome?_eq_some found
  refine ⟨k, List.mem_reverse.mp hk, e, List.mem_of_find?_eq_some he, List.find?_some he, ?_⟩
  rw [answer?, found, Option.some_or]

/-- The search for the function that a call means may as well start at the end. -/
theorem Unambiguous.find?_reverse {ds : List Definition} (h : Unambiguous ds) (name : String)
    (arity : Nat) :
    ds.reverse.find? (·.isCalled name arity) = ds.find? (·.isCalled name arity) := by
  cases found : ds.find? (·.isCalled name arity) with
  | none =>
    refine List.find?_eq_none.mpr fun d hd => ?_
    exact List.find?_eq_none.mp found d (List.mem_reverse.mp hd)
  | some d =>
    have hd := List.mem_of_find?_eq_some found
    have called := List.find?_some found
    cases found' : ds.reverse.find? (·.isCalled name arity) with
    | none => exact absurd called (List.find?_eq_none.mp found' d (List.mem_reverse.mpr hd))
    | some e =>
      have he := List.mem_reverse.mp (List.mem_of_find?_eq_some found')
      rw [h.eq he hd (List.find?_some found') called]

/-- The place of a declared function. -/
def Definition.place (d : Definition) : Location := .atPosition d.path d.decl.position

theorem duplicateFunctions_eq (ms : List Module) : duplicateFunctions ms =
    (freeFunctions ms).zipIdx.filterMap fun (d, i) =>
      (((freeFunctions ms).take i).find? (·.isCalled d.decl.name d.decl.params.length)).map fun first =>
        ⟨.duplicateFunction d.decl.name d.decl.params.length first.place, d.place⟩ := by
  have all : (ms.flatMap fun m => m.tree.functions.map fun f => (f, Location.atPosition m.path f.position)) =
      (freeFunctions ms).map fun d => (d.decl, d.place) := by
    rw [freeFunctions, List.map_flatMap]
    simp only [List.map_map]
    rfl
  rw [duplicateFunctions, all, List.zipIdx_map, List.filterMap_map]
  refine List.filterMap_congr fun e _ => ?_
  simp only [Function.comp_apply, Prod.map, ← List.map_take, List.find?_map, Option.map_map]
  rfl

/-- Where nothing is found about the free functions, no call means two of them. -/
theorem unambiguous_freeFunctions (passed : passes (duplicateFunctions ms) = true) :
    Unambiguous (freeFunctions ms) := by
  have none : duplicateFunctions ms = [] := by
    refine List.eq_nil_iff_forall_not_mem.mpr fun d hd => ?_
    have clean := Module.isError_of_mem passed hd
    rw [Diagnostic.isError, Diagnostic.severity, duplicateFunctions_code hd] at clean
    exact absurd clean.symm Bool.false_ne_true
  rw [duplicateFunctions_eq, List.filterMap_eq_nil_iff] at none
  refine List.pairwise_iff_getElem.mpr fun i j hi hj before name arity both => ?_
  -- The later one would have been found to be defined again.
  have missed := none ((freeFunctions ms)[j], j)
    (List.mem_zipIdx_iff_getElem?.mpr (List.getElem?_eq_getElem hj))
  rw [Option.map_eq_none_iff, List.find?_eq_none] at missed
  refine missed (freeFunctions ms)[i] (List.mem_take_iff_getElem.mpr ⟨i, Nat.lt_min.mpr ⟨before, hi⟩, rfl⟩) ?_
  obtain ⟨named, counted⟩ := Definition.isCalled_iff.mp both.2
  rw [named, counted]
  exact both.1

/-- Where nothing is found about the methods of a type, no call means two of them. -/
theorem unambiguous_methodsOf {j : Nat} {n : Node} (hn : ns[j]? = some n)
    (passed : passes (checkMethods n).2 = true) : Unambiguous (methodsOf ns j) := by
  obtain ⟨distinct, -⟩ := wellChecked_of_passes passed
  rw [methodsOf, hn]
  refine List.pairwise_map.mpr ((List.pairwise_map.mp distinct).imp fun different name arity both => ?_)
  obtain ⟨named, -⟩ := Definition.isCalled_iff.mp both.1
  obtain ⟨named', -⟩ := Definition.isCalled_iff.mp both.2
  exact different (named.trans named'.symm)

/-! ## 5. Declarations of a corpus -/

namespace Definition

/-- The function is declared in one of the files. -/
def IsDeclared (ms : List Module) (d : Definition) : Prop :=
  ∃ m ∈ ms, d.path = m.path ∧ d.decl ∈ m.tree.declarations

variable {d : Definition}

theorem isDeclared_of_free (hd : d ∈ freeFunctions ms) : d.IsDeclared ms := by
  obtain ⟨m, hm, hd⟩ := List.mem_flatMap.mp hd
  obtain ⟨f, hf, rfl⟩ := List.mem_map.mp hd
  exact ⟨m, hm, rfl, List.mem_append_left _ hf⟩

theorem isDeclared_of_method (read : ∀ m ∈ ms, m.IsRead) {j : Nat}
    (hd : d ∈ methodsOf (Node.ofModules ms) j) : d.IsDeclared ms := by
  cases hn : (Node.ofModules ms)[j]? with
  | none =>
    rw [methodsOf, hn] at hd
    exact absurd hd List.not_mem_nil
  | some n =>
    obtain ⟨path, hf⟩ := (mem_methodsOf hn).mp hd
    obtain ⟨m, hm, t, ht, rfl⟩ := exists_of_mem_ofModules (List.mem_of_getElem? hn)
    exact ⟨m, hm, path, Module.declared_of_method (read m hm) ht hf⟩

theorem isDeclared_of_answer (read : ∀ m ∈ ms, m.IsRead)
    (means : answer? ms (Node.ofModules ms) chain name arity = some d) : d.IsDeclared ms := by
  rcases Option.or_eq_some_iff.mp means with found | ⟨-, found⟩
  · obtain ⟨j, -, found⟩ := List.exists_of_findSome?_eq_some found
    exact isDeclared_of_method read (List.mem_of_find?_eq_some found)
  · exact isDeclared_of_free (List.mem_of_find?_eq_some found)

end Definition

/-! ## 6. Corpora without errors -/

/-- What a program is made from where nothing is wrong: files that were read, with no error in any of them nor
    in all of them together, and declarations each compiled to one function. -/
structure WellLinked (ms : List Module) : Prop where
  read : ∀ m ∈ ms, m.IsRead
  passed : ∀ m ∈ ms, passes m.diagnostics = true
  linked : passes (linkFindings ms) = true
  sole : ∀ m ∈ ms, m.IsSole

namespace WellLinked

variable {n : Node} {d : Definition}

theorem compiles (w : WellLinked ms) (declared : d.IsDeclared ms) : ∃ f, d.Compiles f := by
  obtain ⟨m, hm, path, hd⟩ := declared
  obtain ⟨l, hl⟩ := Module.compiled_of_passes (w.read m hm) (w.passed m hm) hd
  obtain ⟨f, defines⟩ := w.sole m hm d.decl hd l hl
  exact ⟨f, l, path ▸ hl, defines⟩

theorem passes_of_subset {ds es : List Diagnostic} (passed : passes es = true) (sub : ds ⊆ es) :
    passes ds = true :=
  Diagnostic.passes_iff.mpr fun d hd => Diagnostic.passes_iff.mp passed d (sub hd)

theorem passes_functions (w : WellLinked ms) : passes (duplicateFunctions ms) = true := by
  refine passes_of_subset w.linked fun d hd => ?_
  simp only [linkFindings, List.mem_append]
  exact .inl (.inl (.inl (.inl hd)))

/-- Nothing is found about the methods of a behaviour type. -/
theorem passes_methods (w : WellLinked ms) (hn : (Node.ofModules ms)[i]? = some n)
    (reaches : ReachesBuiltIn (Node.ofModules ms) i chain) : passes (checkMethods n).2 = true := by
  have inside : i < (Node.ofModules ms).length := (List.getElem?_eq_some_iff.mp hn).1
  have ha := (ancestry_behaviour_iff inside).mpr reaches
  refine passes_of_subset w.linked fun d hd => ?_
  refine List.mem_append_right _ (List.mem_flatMap.mpr ⟨_, mem_resolveAll.mpr ⟨i, n, hn, rfl⟩, ?_⟩)
  rw [resolvedAt, ha]
  exact List.mem_append_left _ (List.mem_append_right _ hd)

end WellLinked

/-- The rest of a trail from any of its types on is a trail from there. -/
theorem Trail.beyond {j k : Nat} (t : Trail ns i (j :: chain)) (hk : k ∈ j :: chain) :
    ∃ rest, Trail ns k (j :: rest) ∧ j :: rest <+: j :: chain := by
  generalize hc : j :: chain = c at t hk
  induction t generalizing j chain with
  | start =>
    obtain ⟨rfl, rfl⟩ := List.cons.inj hc
    rw [List.mem_singleton.mp hk]
    exact ⟨[], .start, List.prefix_rfl⟩
  | step t up ih =>
    obtain ⟨rfl, rfl⟩ := List.cons.inj hc
    rcases List.mem_cons.mp hk with rfl | hk
    · exact ⟨[], .start, (List.prefix_cons_inj _).mpr List.nil_prefix⟩
    · obtain ⟨rest, ht, hp⟩ := ih rfl hk
      exact ⟨_, ht.step up, (List.prefix_cons_inj _).mpr hp⟩

/-- Whatever a walk to the built-in base passes has such a walk itself, a beginning of the chain. -/
theorem ReachesBuiltIn.of_mem {j : Nat} (reaches : ReachesBuiltIn ns i chain) (hj : j ∈ chain) :
    ∃ chain', ReachesBuiltIn ns j chain' ∧ chain' <+: chain := by
  obtain ⟨k, rest, rfl, trail, builtIn⟩ := reaches
  obtain ⟨rest', trail', before⟩ := trail.beyond hj
  exact ⟨_, ⟨k, rest', rfl, trail', builtIn⟩, before⟩

theorem ReachesBuiltIn.exists_node {j : Nat} (reaches : ReachesBuiltIn ns i chain)
    (inside : i < ns.length) (hj : j ∈ chain) : ∃ n, ns[j]? = some n := by
  obtain ⟨k, rest, rfl, trail, -⟩ := reaches
  exact ⟨_, List.getElem?_eq_getElem (trail.lt_length inside j hj)⟩

/-! ## 7. Calls -/

section Calls

variable {n : Node}

theorem Definition.compiled_of_lowered? {d : Definition} {l : Lowered} (h : d.lowered? = some l) :
    Lowered.ofDecl d.path d.decl = .ok l := by
  rw [lowered?] at h
  cases result : Lowered.ofDecl d.path d.decl with
  | ok l' =>
    rw [result] at h
    rw [Option.some.inj h]
  | error e =>
    rw [result] at h
    cases h

theorem Definition.lowered?_isCalled {d : Definition} {l : Lowered} (h : d.lowered? = some l) :
    (l.name == name && l.params.length == arity) = d.isCalled name arity := by
  obtain ⟨p, -, rfl⟩ := Lowered.compile_of_ofDecl (compiled_of_lowered? h)
  rfl

theorem Definition.Compiles.lowered? {d : Definition} {f : Script.Function} (h : d.Compiles f) :
    ∃ l, d.lowered? = some l ∧ l.functions.head? = some f := by
  obtain ⟨l, hl, defines⟩ := h
  refine ⟨l, ?_, by rw [defines.functions]; rfl⟩
  rw [Definition.lowered?, hl]
  rfl

/-- Where everything was compiled, what is found of a call among the compiled functions was compiled of what is
    found among the declared ones. -/
theorem find?_lowered {ds : List Definition} (compiled : ∀ d ∈ ds, ∃ f, d.Compiles f) :
    (ds.filterMap (·.lowered?)).find? (fun l => l.name == name && l.params.length == arity) =
      (ds.find? (·.isCalled name arity)).bind (·.lowered?) := by
  have same : ∀ d ∈ ds, (d.lowered?.any fun l => l.name == name && l.params.length == arity) =
      d.isCalled name arity := by
    intro d hd
    obtain ⟨f, hf⟩ := compiled d hd
    obtain ⟨l, hl, -⟩ := hf.lowered?
    rw [hl]
    exact Definition.lowered?_isCalled hl
  rw [List.find?_filterMap, ← List.head?_filter, ← List.head?_filter, List.filter_congr same]

theorem chain_of_reaches (hn : ns[i]? = some n) (reaches : ReachesBuiltIn ns i chain) :
    (resolvedAt ns i n).chain = chain := by
  have inside : i < ns.length := (List.getElem?_eq_some_iff.mp hn).1
  rw [chain_resolvedAt, (ancestry_behaviour_iff inside).mpr reaches]
  rfl

/-- A behaviour type has a walk to the built-in base. -/
theorem exists_chain (hn : ns[i]? = some n) (behaviour : (resolvedAt ns i n).type.isBehaviour = true) :
    ∃ chain, (walk ns i).ancestry = .behaviour chain ∧ ReachesBuiltIn ns i chain := by
  have inside : i < ns.length := (List.getElem?_eq_some_iff.mp hn).1
  change (walk ns i).ancestry.isBehaviour = true at behaviour
  cases ha : (walk ns i).ancestry with
  | behaviour chain => exact ⟨chain, rfl, (ancestry_behaviour_iff inside).mp ha⟩
  | plain | broken =>
    rw [ha] at behaviour
    exact absurd behaviour Bool.false_ne_true

/-- The last function that goes into a program and is called so was compiled of the declared function that the
    call means. -/
theorem find?_parts (w : WellLinked ms) (hn : (Node.ofModules ms)[i]? = some n)
    (reaches : ReachesBuiltIn (Node.ofModules ms) i chain) (name : String) (arity : Nat) :
    ((parts ms (Node.ofModules ms) (resolvedAt (Node.ofModules ms) i n)).reverse.find? fun l =>
      l.name == name && l.params.length == arity) =
      (answer? ms (Node.ofModules ms) chain name arity).bind (·.lowered?) := by
  have inside : i < (Node.ofModules ms).length := (List.getElem?_eq_some_iff.mp hn).1
  have compiled : ∀ d ∈ freeFunctions ms ++ chain.flatMap (methodsOf (Node.ofModules ms)),
      ∃ f, d.Compiles f := by
    intro d hd
    rcases List.mem_append.mp hd with hd | hd
    · exact w.compiles (Definition.isDeclared_of_free hd)
    · obtain ⟨j, -, hd⟩ := List.mem_flatMap.mp hd
      exact w.compiles (Definition.isDeclared_of_method w.read hd)
  -- The last one among the methods is the one of the most derived type.
  have methods : (chain.flatMap (methodsOf (Node.ofModules ms))).reverse.find? (·.isCalled name arity) =
      chain.reverse.findSome? fun j =>
        (methodsOf (Node.ofModules ms) j).find? (·.isCalled name arity) := by
    rw [List.reverse_flatMap, List.find?_flatMap]
    have unambiguous : ∀ j ∈ chain.reverse, Unambiguous (methodsOf (Node.ofModules ms) j) := by
      intro j hj
      have hj := List.mem_reverse.mp hj
      obtain ⟨b, hb⟩ := reaches.exists_node inside hj
      obtain ⟨chain', reaches', -⟩ := reaches.of_mem hj
      exact unambiguous_methodsOf hb (w.passes_methods hb reaches')
    generalize chain.reverse = js at unambiguous
    induction js with
    | nil => rfl
    | cons j js ih =>
      obtain ⟨first, later⟩ := List.forall_mem_cons.mp unambiguous
      rw [List.findSome?_cons, List.findSome?_cons, ih later, Function.comp_apply,
        first.find?_reverse]
  rw [parts_eq w.read, chain_of_reaches hn reaches, ← List.filterMap_reverse,
    find?_lowered fun d hd => compiled d (List.mem_reverse.mp hd), List.reverse_append, List.find?_append, methods,
    (unambiguous_freeFunctions w.passes_functions).find?_reverse]
  rfl

/-- A program runs for a call what the declared function was compiled to that the call means. -/
theorem function?_programOf (w : WellLinked ms) (hn : (Node.ofModules ms)[i]? = some n)
    (reaches : ReachesBuiltIn (Node.ofModules ms) i chain) (name : String) (arity : Nat) :
    (programOf ms (Node.ofModules ms) (resolvedAt (Node.ofModules ms) i n)).function? name arity =
      ((answer? ms (Node.ofModules ms) chain name arity).bind (·.lowered?)).bind (·.functions.head?) := by
  rw [← find?_parts w hn reaches]
  exact Program.find?_combine (fun l hl => defines_of_mem_parts w.read w.sole hl) name arity

end Calls

end ScriptHost.Corpus
