import Mathlib.Tactic.Choose
import ScriptHost.Config
import ScriptHost.Instance
import ScriptHost.Proofs.Compiler.Dispatch
import ScriptHost.Proofs.Origin
import ScriptHost.Proofs.Script.Confined

/-!
# Located — failures lead to the function that failed

A failure tells the name of the function in which it arose and a place in the text of that function.  The origin
of the function takes the place back to the file; origins are kept by name, so this holds of a function that
shares its name with no other.
-/

namespace ScriptHost

open Corpus
open Script (BodyObeys Entries Failure Marks Site)

variable {ms : List Module} {chain : List Nat} {p : Program} {f g : Script.Function} {failure : Failure}

/-! ## 1. Origins by name -/

/-- No declaration has the name of a closure. -/
theorem Script.not_isWord_closureName (q : Text.Position) : ¬ Declaration.IsWord (closureName q) := by
  intro word
  have dollar : '$' ∈ (closureName q).toList := by simp [closureName]
  exact absurd (word.parts '$' dollar) (by decide)

namespace Corpus.Program

variable {ls : List Lowered} {l : Lowered}

/-- No other function of the program has the name of that one. -/
def Alone (fs : List Script.Function) (f : Script.Function) : Prop := ∀ g ∈ fs, g.name = f.name → g = f

/-- The origin that is kept for a name is that of the last function of the name. -/
theorem get?_originsOf (name : String) :
    Entries.get? name (originsOf ls) = (ls.reverse.find? (·.name == name)).map (·.origin) := by
  induction ls using List.reverseRecOn with
  | nil => rfl
  | append_singleton ls l ih =>
    rw [originsOf_concat, List.reverse_append, List.reverse_singleton, List.singleton_append, List.find?_cons]
    by_cases same : l.name = name
    · rw [beq_iff_eq.mpr same, ← same, Entries.get?_insert_self]
      rfl
    · rw [beq_eq_false_iff_ne.mpr same, Entries.get?_insert_of_ne (Ne.symm same)]
      exact ih

/-- The first one of a sort is also the first one with whatever it has besides. -/
theorem find?_and_of_find? {α : Type} {as : List α} {a : α} {q r : α → Bool} (found : as.find? q = some a)
    (besides : r a = true) : as.find? (fun a => q a && r a) = some a := by
  rw [← List.head?_filter] at found ⊢
  obtain ⟨rest, same⟩ := List.head?_eq_some_iff.mp found
  have narrowed : as.filter (fun a => q a && r a) = (as.filter q).filter r := by
    rw [List.filter_filter]
    exact List.filter_congr fun b _ => Bool.and_comm _ _
  rw [narrowed, same, List.filter_cons_of_pos besides]
  rfl

/-- The last function of its name is in the program. -/
theorem exists_of_last {name : String} (sole : ∀ l ∈ ls, ∃ f, l.Defines f)
    (last : ls.reverse.find? (·.name == name) = some l) :
    ∃ g ∈ combine ls, g.name = name ∧
      (ls.reverse.find? fun l => l.name == name && l.params.length == g.params.length) = some l := by
  obtain ⟨g, defines⟩ := sole l (List.mem_reverse.mp (List.mem_of_find?_eq_some last))
  have first : (ls.reverse.find? fun l => l.name == name && l.params.length == g.params.length) = some l :=
    find?_and_of_find? (r := fun l => l.params.length == g.params.length) last
      (beq_iff_eq.mpr (congrArg List.length defines.params.symm))
  have there : (combine ls).find? (isCalled name g.params.length) = some g := by
    rw [find?_combine sole, first, Option.bind_some, defines.functions]
    rfl
  exact ⟨g, List.mem_of_find?_eq_some there, (isCalled_iff.mp (List.find?_some there)).1, first⟩

/-- The origin that is kept for the name of a function is its own, if no other has that name. -/
theorem origin_of_alone (sole : ∀ l ∈ ls, ∃ f, l.Defines f) (alone : Alone (combine ls) f)
    (found : (ls.reverse.find? fun l => l.name == f.name && l.params.length == f.params.length) = some l) :
    Entries.get? f.name (originsOf ls) = some l.origin := by
  have named : (ls.reverse.find? (·.name == f.name)).isSome = true := by
    refine List.find?_isSome.mpr ⟨l, List.mem_of_find?_eq_some found, ?_⟩
    have both := List.find?_some found
    exact (Bool.and_eq_true_iff.mp both).1
  obtain ⟨last, hlast⟩ := Option.isSome_iff_exists.mp named
  obtain ⟨g, hg, same, first⟩ := exists_of_last sole hlast
  obtain rfl := alone g hg same
  rw [get?_originsOf, hlast, Option.some.inj (first.symm.trans found)]
  rfl

/-- No origin is kept for a name that no function of the program has. -/
theorem origin_of_foreign {name : String} (sole : ∀ l ∈ ls, ∃ f, l.Defines f)
    (foreign : ∀ f ∈ combine ls, f.name ≠ name) : Entries.get? name (originsOf ls) = none := by
  rw [get?_originsOf]
  cases last : ls.reverse.find? (·.name == name) with
  | none => rfl
  | some l =>
    obtain ⟨g, hg, same, -⟩ := exists_of_last sole last
    exact absurd same (foreign g hg)

theorem called_of_function? {name : String} {n : Nat} (called : p.function? name n = some f) :
    f.name = name ∧ f.params.length = n :=
  isCalled_iff.mp (List.find?_some called)

end Corpus.Program

/-! ## 2. Programs of plain files -/

/-- The function was compiled from that declaration, the one that its calls mean. -/
structure Corpus.Definition.Answers (ms : List Module) (chain : List Nat) (d : Definition)
    (f : Script.Function) : Prop where
  means : answer? ms (Node.ofModules ms) chain f.name f.params.length = some d
  compiles : d.Compiles f

/-- The location lies in the declaration of the function. -/
def Location.InDeclaration (ms : List Module) (chain : List Nat) (l : Location) (f : Script.Function) : Prop :=
  ∃ d, Definition.Answers ms chain d f ∧ l.Inside d.path d.decl

namespace Corpus

/-- What the function keeps are places in the text of its declaration, and the origin is that of the
    declaration. -/
def KeepsOrigin (ms : List Module) (chain : List Nat) (M : Marks) (f : Script.Function) (o : Option Origin) :
    Prop :=
  ∃ d, Definition.Answers ms chain d f ∧ o = some (Lowered.originOf d.path d.decl) ∧ M = Lowered.marksOf d.decl

/-- A place that is kept leads into the declaration. -/
theorem KeepsOrigin.inside {M : Marks} {o : Option Origin} {q : Option Text.Position}
    (read : ∀ m ∈ ms, m.IsRead) (kept : KeepsOrigin ms chain M f o) (place : ∀ q' ∈ q, M.place q') :
    ∃ l, o.map (fun o => o.map q) = some l ∧ l.InDeclaration ms chain f := by
  obtain ⟨d, answers, rfl, rfl⟩ := kept
  refine ⟨_, rfl, d, answers, ?_⟩
  obtain ⟨m, hm, -, hd⟩ := Definition.isDeclared_of_answer read answers.means
  obtain ⟨path, content, rfl⟩ := read m hm
  have declared := Declaration.declared_of_parse hd
  cases q with
  | none => exact Lowered.inside_of_none declared
  | some q =>
    obtain ⟨ds, remains⟩ := place q rfl
    exact Lowered.inside_of_place declared remains

/-- The program of a type with such a chain, in plain files without errors. -/
structure Program.IsMade (ms : List Module) (chain : List Nat) (p : Program) : Prop where
  linked : WellLinked ms
  plain : ∀ m ∈ ms, m.IsPlain
  made : ∃ i n, (Node.ofModules ms)[i]? = some n ∧ ReachesBuiltIn (Node.ofModules ms) i chain ∧
    p = programOf ms (Node.ofModules ms) (resolvedAt (Node.ofModules ms) i n)

/-- Whatever program a type is given is made so. -/
theorem Program.isMade_of_equip {i : Nat} {n : Node} (w : WellLinked ms) (plain : ∀ m ∈ ms, m.IsPlain)
    (hn : (Node.ofModules ms)[i]? = some n)
    (hp : (equip ms (Node.ofModules ms) (resolvedAt (Node.ofModules ms) i n)).program = some p) :
    ∃ chain, ReachesBuiltIn (Node.ofModules ms) i chain ∧ p.IsMade ms chain := by
  by_cases instantiable : (resolvedAt (Node.ofModules ms) i n).type.isInstantiable = true
  · rw [equip_of_instantiable instantiable] at hp
    obtain ⟨behaviour, -⟩ := Bool.and_eq_true_iff.mp instantiable
    obtain ⟨chain, -, reaches⟩ := exists_chain hn behaviour
    exact ⟨chain, reaches, w, plain, i, n, hn, reaches, (Option.some.inj hp).symm⟩
  · rw [equip_of_not_instantiable instantiable] at hp
    exact absurd hp.symm (Option.some_ne_none p)

namespace Program.IsMade

theorem dispatches (made : p.IsMade ms chain) : Dispatches ms (Node.ofModules ms) chain p := by
  obtain ⟨i, n, hn, reaches, rfl⟩ := made.made
  exact made.linked.dispatches hn reaches

/-- What is called runs what was compiled from the declaration that the call means. -/
theorem answers_of_function? {name : String} {n : Nat} (made : p.IsMade ms chain)
    (found : p.function? name n = some f) : ∃ d, Definition.Answers ms chain d f := by
  obtain ⟨named, count⟩ := called_of_function? found
  rw [← named, ← count] at found
  cases means : answer? ms (Node.ofModules ms) chain f.name f.params.length with
  | none =>
    rw [made.dispatches.unanswered _ _ means] at found
    exact absurd found.symm (Option.some_ne_none f)
  | some d =>
    obtain ⟨g, compiles, found'⟩ := made.dispatches.answered _ _ d means
    obtain rfl := Option.some.inj (found'.symm.trans found)
    exact ⟨d, means, compiles⟩

/-- The origin that is kept for the name of a function is that of its declaration, if no other has that name. -/
theorem origin_of_answers {d : Definition} (made : p.IsMade ms chain) (alone : Alone p.functions f)
    (answers : Definition.Answers ms chain d f) :
    Entries.get? f.name p.origins = some (Lowered.originOf d.path d.decl) := by
  obtain ⟨i, n, hn, reaches, rfl⟩ := made.made
  have w := made.linked
  obtain ⟨l, lowered, -⟩ := answers.compiles.lowered?
  have last := find?_parts w hn reaches f.name f.params.length
  rw [answers.means, Option.bind_some, lowered] at last
  rw [origins_programOf, origin_of_alone (fun l hl => defines_of_mem_parts w.read w.sole hl) alone last]
  obtain ⟨_, -, rfl⟩ := Lowered.compile_of_ofDecl (Definition.compiled_of_lowered? lowered)
  rfl

/-- The body of every function that can be called keeps places in the text of its declaration, whose origin is
    kept if no other function has its name. -/
theorem exists_marks {name : String} {n : Nat} (made : p.IsMade ms chain)
    (found : p.function? name n = some f) : ∃ M, BodyObeys M f.body ∧
      (Alone p.functions f → KeepsOrigin ms chain M f (Entries.get? f.name p.origins)) := by
  obtain ⟨d, answers⟩ := made.answers_of_function? found
  obtain ⟨m, hm, path, hd⟩ := Definition.isDeclared_of_answer made.linked.read answers.means
  obtain ⟨l, compiled, defines⟩ := answers.compiles
  obtain ⟨g, defines', -, obeys⟩ :=
    exists_of_ofDecl (made.linked.read m hm) hd (made.plain m hm d.decl hd) (path ▸ compiled)
  obtain rfl := defines.unique defines'
  exact ⟨_, obeys, fun alone => ⟨d, answers, made.origin_of_answers alone answers, rfl⟩⟩

/-- What goes into the program of a type has the name of a declaration. -/
theorem isWord_of_mem_parts {r : Resolved} {l : Lowered} (read : ∀ m ∈ ms, m.IsRead)
    (hl : l ∈ parts ms (Node.ofModules ms) r) : Declaration.IsWord l.name := by
  obtain ⟨m, hm, hl⟩ := exists_of_mem_parts hl
  obtain ⟨d, hd, compiled⟩ := Module.declared_of_mem_lowered (read m hm) hl
  obtain ⟨_, -, rfl⟩ := Lowered.compile_of_ofDecl compiled
  obtain ⟨path, content, rfl⟩ := read m hm
  exact (Declaration.declared_of_parse hd).name

/-- No origin is kept for a closure. -/
theorem origin_of_closure (made : p.IsMade ms chain) (q : Text.Position) :
    Entries.get? (Script.closureName q) p.origins = none := by
  obtain ⟨i, n, -, -, rfl⟩ := made.made
  rw [origins_programOf, get?_originsOf]
  cases last : (parts ms (Node.ofModules ms) _).reverse.find? (·.name == Script.closureName q) with
  | none => rfl
  | some l =>
    have word := isWord_of_mem_parts made.linked.read (List.mem_reverse.mp (List.mem_of_find?_eq_some last))
    have named := List.find?_some last
    rw [eq_of_beq named] at word
    exact absurd word (Script.not_isWord_closureName q)

/-- Nor is one kept for a name that no function of the program has. -/
theorem origin_of_foreign {name : String} (made : p.IsMade ms chain) (foreign : ∀ f ∈ p.functions, f.name ≠ name) :
    Entries.get? name p.origins = none := by
  obtain ⟨i, n, -, -, rfl⟩ := made.made
  have w := made.linked
  exact Program.origin_of_foreign (fun l hl => defines_of_mem_parts w.read w.sole hl) foreign

/-- The functions of the program keep places in the texts of their declarations; what else a script runs keeps
    none. -/
theorem exists_siteMarks (made : p.IsMade ms chain) (limits : Script.Limits) :
    ∃ M : Site → Marks, Script.Env.Obeys ⟨p.function?, true, limits⟩ M ∧
      ∀ f name n, p.function? name n = some f → Alone p.functions f →
        KeepsOrigin ms chain (M (.function f)) f (Entries.get? f.name p.origins) := by
  have marked (f : Script.Function) : ∃ M, ∀ name n, p.function? name n = some f → BodyObeys M f.body ∧
      (Alone p.functions f → KeepsOrigin ms chain M f (Entries.get? f.name p.origins)) := by
    by_cases called : ∃ name n, p.function? name n = some f
    · obtain ⟨name, n, called⟩ := called
      obtain ⟨M, hM⟩ := made.exists_marks called
      exact ⟨M, fun _ _ _ => hM⟩
    · exact ⟨.free, fun name n there => absurd ⟨name, n, there⟩ called⟩
  choose M hM using marked
  refine ⟨fun | .function f => M f | _ => .free, ⟨?_, fun _ => rfl, fun _ => rfl⟩, ?_⟩
  · exact fun _ _ f called => (hM f _ _ called).1
  · exact fun f name n called => (hM f name n called).2

end Program.IsMade

end Corpus

/-! ## 3. Calls of hooks -/

/-- Where the error of a failure that arose at a site is located: in the declaration of the function, if no other
    function of the program has its name, and nowhere if it arose in a closure or, where no function of the
    program has its name, in a function of the library. -/
def HookError.IsLocatedAt (ms : List Module) (chain : List Nat) (p : Program) (e : HookError) : Site → Prop
  | .function f => Program.Alone p.functions f → ∃ l, e.location = some l ∧ l.InDeclaration ms chain f
  | .closure _ => e.location = none
  | .library name => (∀ f ∈ p.functions, f.name ≠ name) → e.location = none

/-- The error is that of a failure which arose at some site: in the function that serves the hook, or at one that
    was entered from there.  It is located accordingly. -/
def HookError.IsLocated (ms : List Module) (chain : List Nat) (p : Program) (h : Hook) (e : HookError) : Prop :=
  ∃ g failure site, p.function? h.name h.arity = some g ∧
    Failure.ArisesIn p.function? (.function g) failure site ∧ e = .ofFailure p h failure ∧
      e.IsLocatedAt ms chain p site

namespace Corpus.Program.IsMade

/-- The error of a failure is located by the site where it arose. -/
theorem isLocatedAt {h : Hook} {site : Site} {M : Site → Marks} {n : Nat} (made : p.IsMade ms chain)
    (found : p.function? h.name n = some g)
    (kept : ∀ f name n, p.function? name n = some f → Alone p.functions f →
      KeepsOrigin ms chain (M (.function f)) f (Entries.get? f.name p.origins))
    (arises : failure.ArisesIn p.function? (.function g) site)
    (place : ∀ q ∈ failure.innermost, (M site).place q) :
    (HookError.ofFailure p h failure).IsLocatedAt ms chain p site := by
  have named : (HookError.ofFailure p h failure).location =
      (Entries.get? site.name p.origins).map (·.map failure.innermost) := by
    rw [← arises.name]
    show (Entries.get? (failure.function?.getD h.name) p.origins).map _ = _
    rw [← (called_of_function? found).1]
    rfl
  cases site with
  | function f =>
    intro alone
    have callable : ∃ name n, p.function? name n = some f := by
      rcases arises.callable with same | callable
      · obtain rfl := Site.function.inj same
        exact ⟨_, _, found⟩
      · exact callable
    obtain ⟨name, n, called⟩ := callable
    obtain ⟨l, mapped, inside⟩ := (kept f name n called alone).inside made.linked.read place
    exact ⟨l, named.trans mapped, inside⟩
  | closure q => exact named.trans (by rw [Site.name, made.origin_of_closure q]; rfl)
  | library name =>
    intro foreign
    exact named.trans (by rw [Site.name, made.origin_of_foreign foreign]; rfl)

/-- Whatever the state of an instance, every error of its hooks is located. -/
theorem located_of_call {x : Instance} {s : Surroundings} {c : HookCall} {e : HookError}
    (made : p.IsMade ms chain) (program : x.program = p) (failed : (x.call s c).error = some e) :
    e.IsLocated ms chain p c.hook := by
  subst program
  cases has : x.program.hooks.contains c.hook with
  | false =>
    rw [Instance.call_of_not_contains has] at failed
    cases failed
  | true =>
    have runs := made.dispatches.runs s x c rfl
    rw [if_pos has] at runs
    obtain ⟨-, -, d, -, -, means, -⟩ := runs
    obtain ⟨g, -, found⟩ := made.dispatches.answered _ _ d means
    rw [Instance.call_of_function? has found] at failed
    obtain ⟨failure, ending, rfl⟩ := Option.map_eq_some_iff.mp failed
    obtain ⟨M, obeys, kept⟩ := made.exists_siteMarks s.limits
    unfold Instance.failure? at ending
    split at ending
    · cases ending
    · next failure' raised =>
      obtain rfl := Option.some.inj ending
      obtain ⟨site, arises, place⟩ := Script.from_of_callFunction obeys found raised
      exact ⟨g, _, site, found, arises, rfl, made.isLocatedAt found kept arises place⟩
    all_goals
      obtain rfl := Option.some.inj ending
      exact ⟨g, _, .function g, found, .here, rfl, made.isLocatedAt found kept .here nofun⟩

end Corpus.Program.IsMade

namespace Compiler

variable {t : ScriptType} {x : Instance} {s : Surroundings} {c : HookCall} {e : HookError} {i : Nat}

/-- A hook that calls a function which fails. -/
def throwing : Compilation :=
  ⟨⟨[⟨"a.ks", "fn boom(x) \x7b throw x; \x7d type T : Behaviour \x7b fn on_create(ctx) \x7b boom(1); \x7d \x7d",
    .time 0⟩], []⟩, false⟩

/-- A function that fails, and one of its name with another number of parameters in a later file. -/
def overloaded : Compilation :=
  ⟨⟨[⟨"a.ks", "fn boom(x) \x7b\n    throw x;\n\x7d\n", .time 0⟩,
    ⟨"b.ks",
      "fn boom(x, y) \x7b x \x7d\ntype T : Behaviour \x7b\n    fn update(ctx, dt) \x7b boom(1); \x7d\n\x7d\n",
      .time 0⟩], []⟩, false⟩

end Compiler

end ScriptHost
