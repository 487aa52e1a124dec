import ScriptHost.Instance
import ScriptHost.Proofs.Corpus.Descent
import ScriptHost.Proofs.Corpus.Dispatch

/-!
# Dispatch — which declared function a type runs

The hooks of a type and the functions of its program are made up separately.  In an active unit both follow its
chain: a call runs what the most derived type declares for it, and there is a hook wherever some type of the
chain serves one.
-/

namespace ScriptHost

open Corpus
open Diagnostic (passes)

variable {ms : List Module} {ns : List Node} {chain : List Nat} {p : Program} {i : Nat} {n : Node}

/-- A program answers calls as the declarations of a chain and the free functions have it. -/
structure Corpus.Dispatches (ms : List Module) (ns : List Node) (chain : List Nat) (p : Program) : Prop where
  /-- What a call means is what it runs, -/
  answered : ∀ name arity d, answer? ms ns chain name arity = some d →
    ∃ f, d.Compiles f ∧ p.function? name arity = some f
  /-- and nothing declared answers a call that means nothing. -/
  unanswered : ∀ name arity, answer? ms ns chain name arity = none → p.function? name arity = none
  /-- There is one function for a call to mean, in each type and among the free ones. -/
  methods : ∀ j ∈ chain, Unambiguous (methodsOf ns j)
  free : Unambiguous (freeFunctions ms)
  /-- A hook that is there runs a method of the chain that serves it; one that is not runs nothing. -/
  runs : ∀ (s : Surroundings) (x : Instance) (c : HookCall), x.program = p →
    if p.hooks.contains c.hook then
      ∃ j ∈ chain, ∃ d ∈ methodsOf ns j, Serves d.decl c.hook ∧
        answer? ms ns chain c.hook.name c.hook.arity = some d ∧ ∃ f, d.Compiles f ∧ x.call s c = x.run s c f
    else x.call s c = ⟨x, [], [], none⟩

/-- A type has the hooks that its chain serves. -/
def Corpus.HooksOf (ns : List Node) (chain : List Nat) (hooks : HookSet) : Prop :=
  ∀ h, hooks.contains h = true ↔ ∃ j ∈ chain, ∃ d ∈ methodsOf ns j, Serves d.decl h

theorem Instance.call_of_function? {s : Surroundings} {x : Instance} {c : HookCall} {f : Script.Function}
    (has : x.program.hooks.contains c.hook = true)
    (found : x.program.function? c.hook.name c.hook.arity = some f) : x.call s c = x.run s c f := by
  rw [call, if_pos has, found]

namespace Corpus.WellLinked

theorem hooksOf (w : WellLinked ms) (hn : (Node.ofModules ms)[i]? = some n)
    (reaches : ReachesBuiltIn (Node.ofModules ms) i chain) :
    HooksOf (Node.ofModules ms) chain (resolvedAt (Node.ofModules ms) i n).type.hooks := by
  intro h
  refine (contains_hooks_iff hn reaches (w.passes_methods hn reaches)).trans ?_
  constructor
  · rintro ⟨j, hj, b, hb, f, hf, serves⟩
    exact ⟨j, hj, ⟨b.path, f⟩, (mem_methodsOf hb).mpr ⟨rfl, hf⟩, serves⟩
  · rintro ⟨j, hj, d, hd, serves⟩
    have inside : i < (Node.ofModules ms).length := (List.getElem?_eq_some_iff.mp hn).1
    obtain ⟨b, hb⟩ := reaches.exists_node inside hj
    exact ⟨j, hj, b, hb, d.decl, ((mem_methodsOf hb).mp hd).2, serves⟩

theorem dispatches (w : WellLinked ms) (hn : (Node.ofModules ms)[i]? = some n)
    (reaches : ReachesBuiltIn (Node.ofModules ms) i chain) :
    Dispatches ms (Node.ofModules ms) chain
      (programOf ms (Node.ofModules ms) (resolvedAt (Node.ofModules ms) i n)) := by
  have inside : i < (Node.ofModules ms).length := (List.getElem?_eq_some_iff.mp hn).1
  have answered : ∀ name arity d, answer? ms (Node.ofModules ms) chain name arity = some d →
      ∃ f, d.Compiles f ∧ (programOf ms (Node.ofModules ms)
        (resolvedAt (Node.ofModules ms) i n)).function? name arity = some f := by
    intro name arity d means
    obtain ⟨f, compiles⟩ := w.compiles (Definition.isDeclared_of_answer w.read means)
    obtain ⟨l, lowered, head⟩ := compiles.lowered?
    refine ⟨f, compiles, ?_⟩
    rw [function?_programOf w hn reaches, means, Option.bind_some, lowered, Option.bind_some, head]
  constructor
  case answered => exact answered
  case unanswered =>
    intro name arity nothing
    rw [function?_programOf w hn reaches, nothing]
    rfl
  case methods =>
    intro j hj
    obtain ⟨b, hb⟩ := reaches.exists_node inside hj
    obtain ⟨chain', reaches', -⟩ := reaches.of_mem hj
    exact unambiguous_methodsOf hb (w.passes_methods hb reaches')
  case free => exact unambiguous_freeFunctions w.passes_functions
  case runs =>
    intro s x c program
    split
    -- The hook is in the list of some declaration of the chain, and the one that answers is the nearest of those.
    · next has =>
      obtain ⟨j, hj, d, hd, serves⟩ := (w.hooksOf hn reaches c.hook).mp has
      have called : d.isCalled c.hook.name c.hook.arity = true :=
        Definition.isCalled_iff.mpr ⟨serves.name, serves.count⟩
      obtain ⟨k, hk, e, he, called', means⟩ := exists_answer hj hd called
      obtain ⟨name, count⟩ := Definition.isCalled_iff.mp called'
      obtain ⟨f, compiles, found⟩ := answered _ _ e means
      refine ⟨k, hk, e, he, ⟨name, count⟩, means, f, compiles, ?_⟩
      exact Instance.call_of_function? (program ▸ has) (program ▸ found)
    · next absent =>
      exact Instance.call_of_not_contains (program ▸ Bool.eq_false_iff.mpr absent)

end Corpus.WellLinked

namespace Compiler

theorem Stands.wellLinked {batch : Batch} {u : ScriptUnit} (stands : Stands batch ms u)
    (read : ∀ m ∈ ms, m.IsRead) (sole : ∀ m ∈ ms, m.IsSole) : WellLinked ms := by
  have linked := stands.linked
  rw [makesPrograms, Bool.and_eq_true] at linked
  exact ⟨read, stands.passed, linked.2, sole⟩

/-- The types of an active unit stand in the order of their declarations, each as it was resolved. -/
theorem exists_resolvedAt {c : Compiler} {batch : Batch} {t : ScriptType}
    (stands : Stands batch (c.modules batch.files) (c.compile batch).1)
    (ht : (c.compile batch).1.types[i]? = some t) :
    ∃ n, (Node.ofModules (c.modules batch.files))[i]? = some n ∧
      t = equip (c.modules batch.files) (Node.ofModules (c.modules batch.files))
        (resolvedAt (Node.ofModules (c.modules batch.files)) i n) := by
  rw [stands.types, linkedTypes, types_of_makes stands.linked, resolveAll, List.map_map,
    List.getElem?_map, Option.map_eq_some_iff] at ht
  obtain ⟨⟨n, j⟩, there, rfl⟩ := ht
  rw [List.getElem?_zipIdx, Option.map_eq_some_iff] at there
  obtain ⟨n', there, same⟩ := there
  obtain ⟨rfl, rfl⟩ := Prod.mk.inj same
  refine ⟨n', there, ?_⟩
  rw [Nat.zero_add]
  rfl

theorem equip_rest (ms : List Module) (ns : List Node) (r : Resolved) :
    (equip ms ns r).withoutProgram = r.type.withoutProgram := by
  by_cases instantiable : r.type.isInstantiable = true
  · rw [equip_of_instantiable instantiable]
    rfl
  · rw [equip_of_not_instantiable instantiable]

theorem equip_hooks (ms : List Module) (ns : List Node) (r : Resolved) :
    (equip ms ns r).hooks = r.type.hooks := by
  have same := congrArg ScriptType.hooks (equip_rest ms ns r)
  exact same

variable {t : ScriptType}

/-- In every active unit, whatever its compiler was asked before, a behaviour type has the hooks that its chain
    serves, those of its bases among them, and the program of a concrete one answers calls as the chain and the
    free functions have it.  Each declaration is taken to compile to one function, its own. -/
theorem dispatch_exact (naming : Nat → String) (debugSymbols : Bool) (history : List Compilation)
    (now : Compilation)
    (active : (((create naming debugSymbols).after history).perform now).1.isActive = true)
    (sole : ∀ m ∈ ((create naming debugSymbols).after history).modules now.batch.files, m.IsSole)
    (ht : (((create naming debugSymbols).after history).perform now).1.types[i]? = some t)
    (behaviour : t.isBehaviour = true) :
    let ms := ((create naming debugSymbols).after history).modules now.batch.files
    let ns := Node.ofModules ms
    ∃ chain, ReachesBuiltIn ns i chain ∧ t.ancestry = namesOf ns chain ∧ HooksOf ns chain t.hooks ∧
      (∀ j ∈ chain, ∀ b, (((create naming debugSymbols).after history).perform now).1.types[j]? = some b →
        ∀ h, b.hooks.contains h = true → t.hooks.contains h = true) ∧
      (t.isAbstract = false → ∃ p, t.program = some p ∧ p.hooks = t.hooks ∧ Dispatches ms ns chain p) := by
  intro ms ns
  have stands := stands_of_active active
  have w : WellLinked ms := stands.wellLinked
    (fun m hm => isRead_of_mem_modules (made_of_history naming debugSymbols history) hm) sole
  obtain ⟨n, hn, made⟩ := exists_resolvedAt stands ht
  change ns[i]? = some n at hn
  change t = equip ms ns (resolvedAt ns i n) at made
  have rest := equip_rest ms ns (resolvedAt ns i n)
  rw [← made] at rest
  have walked := congrArg ScriptType.isBehaviour rest
  change t.isBehaviour = (resolvedAt ns i n).type.isBehaviour at walked
  obtain ⟨chain, ha, reaches⟩ := exists_chain hn (walked.symm.trans behaviour)
  have hooks : HooksOf ns chain t.hooks := by
    rw [made, equip_hooks]
    exact w.hooksOf hn reaches
  refine ⟨chain, reaches, ?_, hooks, ?_, ?_⟩
  · have named : t.ancestry = namesOf ns ((walk ns i).ancestry.chain i) :=
      congrArg ScriptType.ancestry rest
    rw [named, ha]
    rfl
  · intro j hj b hb h has
    -- The chain of a base is a beginning of the chain.
    obtain ⟨chain', reaches', before⟩ := reaches.of_mem hj
    obtain ⟨n', hn', made'⟩ := exists_resolvedAt stands hb
    rw [made', equip_hooks] at has
    obtain ⟨k, hk, serving⟩ := (w.hooksOf hn' reaches' h).mp has
    exact (hooks h).mpr ⟨k, before.subset hk, serving⟩
  · intro concrete
    have instantiable : (resolvedAt ns i n).type.isInstantiable = true := by
      have kind := congrArg ScriptType.isInstantiable rest
      refine kind.symm.trans ?_
      show (t.isBehaviour && !t.isAbstract) = true
      rw [behaviour, concrete]
      rfl
    refine ⟨programOf ms ns (resolvedAt ns i n), ?_, ?_, w.dispatches hn reaches⟩
    · rw [made, equip_of_instantiable instantiable]
    · rw [made, equip_hooks]
      rfl

/-- A type that declares a method again which its base has, beside a free function that goes by the name of a
    hook. -/
def spinners : Compilation :=
  ⟨⟨[⟨"a.ks", "fn on_create(ctx) \x7b \x7d fn speed(x) \x7b x \x7d", .time 0⟩,
    ⟨"b.ks", "abstract type Turning : Behaviour \x7b fn update(ctx, dt) \x7b \x7d fn speed(x) \x7b 2 \x7d \x7d",
      .time 0⟩,
    ⟨"c.ks", "type Spinner : Turning \x7b fn speed(x) \x7b 3 \x7d \x7d", .time 0⟩], []⟩, false⟩

theorem spinner_dispatches :
    let c := (create toString false).after []
    let ms := c.modules spinners.batch.files
    let ns := Node.ofModules ms
    (c.perform spinners).1.isActive = true ∧ (∀ m ∈ ms, m.IsSole) ∧
      ∃ t, (c.perform spinners).1.types[1]? = some t ∧ t.isBehaviour = true ∧ t.isAbstract = false ∧
        ∃ chain, ReachesBuiltIn ns 1 chain ∧ HooksOf ns chain t.hooks ∧
          ∃ p, t.program = some p ∧ Dispatches ms ns chain p := by
  intro c ms ns
  obtain ⟨active, plain, second⟩ : (c.perform spinners).1.isActive = true ∧
      (∀ m ∈ ms, ∀ d ∈ m.tree.declarations, Script.isPlainText d.body.text.toList = true) ∧
      ((c.perform spinners).1.types[1]?).map (fun t => (t.isBehaviour, t.isAbstract)) = some (true, false) := by
    decide +kernel
  have read : ∀ m ∈ ms, m.IsRead := fun m hm =>
    isRead_of_mem_modules (made_of_history toString false []) hm
  have sole : ∀ m ∈ ms, m.IsSole := fun m hm => Module.IsPlain.isSole (plain m hm) (read m hm)
  obtain ⟨t, ht, kind⟩ := Option.map_eq_some_iff.mp second
  obtain ⟨behaviour, concrete⟩ := Prod.mk.inj kind
  obtain ⟨chain, reaches, -, hooks, -, program⟩ :=
    dispatch_exact toString false [] spinners active sole ht behaviour
  obtain ⟨p, hp, -, dispatches⟩ := program concrete
  exact ⟨active, sole, t, ht, behaviour, concrete, chain, reaches, hooks, p, hp, dispatches⟩

end Compiler

end ScriptHost
