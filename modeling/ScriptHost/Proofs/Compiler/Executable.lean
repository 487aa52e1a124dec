import Mathlib.Data.List.Forall2
import ScriptHost.Proofs.Compiler.Dispatch
import ScriptHost.Proofs.Compiler.Identity
import ScriptHost.Proofs.Corpus.Renumbering
import ScriptHost.Proofs.Image.Codec

/-!
# Executable — what the image of a unit tells of its types

An image names every type with its base, its fields and its methods, and holds the text of every function.  Linking
asks for nothing else but the values that fields start with, which an image leaves out: two units with the same
image have the same types, programs and all, as far as these values are the same.
-/

namespace ScriptHost

open Corpus
open Declaration (FnDecl FieldDecl TypeDecl)
open Diagnostic (passes)

/-! ## 1. Types in an image -/

namespace Corpus

variable {ms ms' : List Module} {ns ns' : List Node} {n n' : Node} {l : Lowered} {r r' : Resolved}

/-- What an image tells of a type. -/
def Node.image (n : Node) : Image.TypeDecl := .ofModule n.path ⟨n.decl, n.methods⟩

theorem types_ofModules (unit corpusHash : String) (ms : List Module) :
    (Image.ofModules unit corpusHash ms).types = (Node.ofModules ms).map Node.image := by
  rw [Image.ofModules, Node.ofModules, List.map_flatMap]
  simp only [List.map_map]
  rfl

/-- The name of a function and its parameters. -/
def Lowered.call (l : Lowered) : String × List String := (l.name, l.params)

/-- Every method of the type was compiled. -/
def Node.IsCompiled (n : Node) : Prop := n.methods.map Lowered.call = n.decl.methods.map callOf

theorem isCompiled_of_passes (read : ∀ m ∈ ms, m.IsRead) (passed : ∀ m ∈ ms, passes m.diagnostics = true)
    (h : n ∈ Node.ofModules ms) : n.IsCompiled := by
  obtain ⟨m, hm, t, ht, rfl⟩ := exists_of_mem_ofModules h
  refine Module.map_methods (read m hm) (passed m hm) (fun f l hl => ?_) ht
  obtain ⟨p, -, rfl⟩ := Lowered.compile_of_ofDecl hl
  rfl

/-! ## 2. Fields -/

/-- A field without the value that it starts with. -/
def FieldSpec.heading (f : FieldSpec) : String × Field.Kind × Bool × String :=
  (f.name, f.kind, f.isPublic, f.declaredIn)

/-- The values that the fields which a type declares start with. -/
def Node.starts (n : Node) : List Script.Value := (n.decl.fields.map (FieldSpec.ofDecl n.name)).map (·.default)

theorem headings_of_image (same : n'.image = n.image) :
    (n'.decl.fields.map (FieldSpec.ofDecl n'.name)).map FieldSpec.heading =
      (n.decl.fields.map (FieldSpec.ofDecl n.name)).map FieldSpec.heading := by
  have name : n'.name = n.name := congrArg Image.TypeDecl.name same
  have fields : n'.decl.fields.map Image.Field.ofDecl = n.decl.fields.map Image.Field.ofDecl :=
    congrArg Image.TypeDecl.fields same
  let back (type : String) (f : Image.Field) : String × Field.Kind × Bool × String :=
    (f.name, (Field.Kind.ofKeyword? f.kind).getD .int, f.isPublic, type)
  -- The word for a kind stands for no other.
  have written (n : Node) : (n.decl.fields.map (FieldSpec.ofDecl n.name)).map FieldSpec.heading =
      (n.decl.fields.map Image.Field.ofDecl).map (back n.name) := by
    rw [List.map_map, List.map_map]
    refine List.map_congr_left fun f _ => ?_
    show (f.name, f.kind, f.isPublic, n.name) =
      (f.name, (Field.Kind.ofKeyword? f.kind.keyword).getD .int, f.isPublic, n.name)
    rw [Field.Kind.ofKeyword?_keyword]
    rfl
  rw [written, written, name, fields]

theorem specs_of_image (same : n'.image = n.image) (starts : n'.starts = n.starts) :
    n'.decl.fields.map (FieldSpec.ofDecl n'.name) = n.decl.fields.map (FieldSpec.ofDecl n.name) := by
  have whole : Function.Injective fun f : FieldSpec => (f.heading, f.default) := by
    rintro ⟨name, kind, isPublic, start, declaredIn⟩ ⟨name', kind', isPublic', start', declaredIn'⟩ h
    simp only [FieldSpec.heading, Prod.mk.injEq] at h
    obtain ⟨⟨rfl, rfl, rfl, rfl⟩, rfl⟩ := h
    rfl
  have pairs (fs : List FieldSpec) : fs.map (fun f => (f.heading, f.default)) =
      (fs.map FieldSpec.heading).zip (fs.map (·.default)) := (List.zip_map' ..).symm
  apply List.map_injective_iff.mpr whole
  rw [pairs, pairs, headings_of_image same]
  exact congrArg _ starts

/-! ## 3. Types and their fields -/

/-- Types that an image does not tell apart are resolved alike, but for the values that their fields start with. -/
theorem corresponds_of_images (compiled : ∀ n ∈ ns, n.IsCompiled) (compiled' : ∀ n ∈ ns', n.IsCompiled)
    (same : ns'.map Node.image = ns.map Node.image) :
    Corresponds FieldSpec.heading (Equiv.refl Nat) ns ns' ∧
      (ns'.map Node.starts = ns.map Node.starts → Corresponds id (Equiv.refl Nat) ns ns') := by
  have at' (i : Nat) : (ns'[i]?).map Node.image = (ns[i]?).map Node.image := by
    rw [← List.getElem?_map, ← List.getElem?_map, same]
  have renumbers : Renumbers (Equiv.refl Nat) ns ns' := by
    intro i
    have heading : Node.heading = (fun t => (t.name, t.base)) ∘ Node.image := rfl
    rw [Equiv.refl_apply, heading, ← Option.map_map, ← Option.map_map, at' i]
  have image {i : Nat} {n n' : Node} (hn : ns[i]? = some n) (hn' : ns'[i]? = some n') : n'.image = n.image :=
    eq_of_nodes (at' i) hn hn'
  have calls {i : Nat} {n n' : Node} (hn : ns[i]? = some n) (hn' : ns'[i]? = some n') :
      n'.decl.methods.map callOf = n.decl.methods.map callOf := by
    have texts : n'.methods.map Image.Function.ofLowered = n.methods.map Image.Function.ofLowered :=
      congrArg Image.TypeDecl.methods (image hn hn')
    have call : Lowered.call = (fun f => (f.name, f.params)) ∘ Image.Function.ofLowered := rfl
    rw [← compiled' n' (List.mem_of_getElem? hn'), ← compiled n (List.mem_of_getElem? hn), call,
      ← List.map_map, ← List.map_map, texts]
  have alike {α : Type} {view : FieldSpec → α} {i : Nat} {n n' : Node} (hn : ns[i]? = some n)
      (hn' : ns'[i]? = some n') (own : (FieldSpec.own n').1.map view = (FieldSpec.own n).1.map view) :
      n.Alike view n' :=
    ⟨congrArg Image.TypeDecl.isAbstract (image hn hn'), declaredHooks_of_calls (calls hn hn'),
      (checkMethods_of_calls (calls hn hn')).1, own⟩
  constructor
  · refine ⟨renumbers, fun i n n' hn hn' => alike hn hn' ?_⟩
    rw [FieldSpec.own_eq_extend, FieldSpec.own_eq_extend]
    exact FieldSpec.map_extend Prod.fst (fun _ => rfl) rfl (headings_of_image (image hn hn'))
  · intro starts
    refine ⟨renumbers, fun i n n' hn hn' => alike hn hn' ?_⟩
    have start : n'.starts = n.starts := by
      have same : (ns'[i]?).map Node.starts = (ns[i]?).map Node.starts := by
        rw [← List.getElem?_map, ← List.getElem?_map, starts]
      exact eq_of_nodes same hn hn'
    rw [FieldSpec.own_eq_extend, FieldSpec.own_eq_extend, specs_of_image (image hn hn') start]

/-! ## 4. Programs -/

/-- The functions that a text defines. -/
def functionsOf (text : String) : List Script.Function :=
  ((Script.compile Lowered.known text).toOption.map (·.functions)).getD []

/-- What was compiled is a matter of the text. -/
theorem functions_of_lowered {m : Module} (read : m.IsRead) (h : l ∈ m.lowered) :
    l.functions = functionsOf l.text := by
  obtain ⟨f, -, compiled⟩ := Module.declared_of_mem_lowered read h
  obtain ⟨p, hp, rfl⟩ := Lowered.compile_of_ofDecl compiled
  show p.functions = functionsOf (Lowered.textOf f)
  rw [functionsOf, hp]
  rfl

theorem combine_of_texts (read : ∀ m ∈ ms, m.IsRead) (r : Resolved) :
    (programOf ms (Node.ofModules ms) r).functions =
      (((parts ms (Node.ofModules ms) r).map Image.Function.ofLowered).map fun f => functionsOf f.text).foldl
        (fun fs more => more.foldl Program.define fs) [] := by
  have texts : (parts ms (Node.ofModules ms) r).map Lowered.functions =
      ((parts ms (Node.ofModules ms) r).map Image.Function.ofLowered).map fun f => functionsOf f.text := by
    rw [List.map_map]
    refine List.map_congr_left fun l hl => ?_
    obtain ⟨m, hm, hl⟩ := exists_of_mem_parts hl
    exact functions_of_lowered (read m hm) hl
  rw [← texts, List.foldl_map]
  rfl

/-- The parts of a program as an image has them. -/
theorem map_parts (ms : List Module) (ns : List Node) (r : Resolved) :
    (parts ms ns r).map Image.Function.ofLowered =
      ((Image.ofModules "" "" ms).modules.flatMap (·.functions)) ++
        r.chain.flatMap fun j => (((ns.map Node.image)[j]?).map (·.methods)).getD [] := by
  have free : (ms.flatMap (·.functions)).map Image.Function.ofLowered =
      (Image.ofModules "" "" ms).modules.flatMap (·.functions) := by
    rw [List.map_flatMap, Image.ofModules, List.flatMap_map]
  have methods (j : Nat) : (((ns[j]?).map Node.methods).getD []).map Image.Function.ofLowered =
      (((ns.map Node.image)[j]?).map (·.methods)).getD [] := by
    rw [List.getElem?_map]
    cases ns[j]? with
    | none => rfl
    | some n => rfl
  rw [parts, List.map_append, free, List.map_flatMap]
  simp only [methods]

/-- A program has the functions that the image tells of. -/
theorem functions_of_images (read : ∀ m ∈ ms, m.IsRead) (read' : ∀ m ∈ ms', m.IsRead)
    (modules : (Image.ofModules "" "" ms').modules = (Image.ofModules "" "" ms).modules)
    (types : (Node.ofModules ms').map Node.image = (Node.ofModules ms).map Node.image)
    (chain : r'.chain = r.chain) :
    (programOf ms' (Node.ofModules ms') r').functions = (programOf ms (Node.ofModules ms) r).functions := by
  rw [combine_of_texts read, combine_of_texts read', map_parts, map_parts, modules, types, chain]

/-! ## 5. Tables of types -/

/-- Two types have the same entry in a table of types: besides what a type is resolved to, their programs have the
    same functions. -/
structure ScriptType.SameEntry {α : Type} (view : FieldSpec → α) (t t' : ScriptType) : Prop extends
    t.Alike view t' where
  functions : t'.program.map (·.functions) = t.program.map (·.functions)

theorem sameEntry_equip {α : Type} {view : FieldSpec → α} (alike : r.type.Alike view r'.type)
    (program : r.type.program = none) (program' : r'.type.program = none)
    (functions : (programOf ms' ns' r').functions = (programOf ms ns r).functions) :
    (equip ms ns r).SameEntry view (equip ms' ns' r') := by
  by_cases instantiable : r.type.isInstantiable = true
  · rw [equip_of_instantiable instantiable, equip_of_instantiable (alike.isInstantiable.trans instantiable)]
    exact ⟨⟨alike.name, alike.base, alike.ancestry, alike.isAbstract, alike.isBehaviour, alike.hooks, alike.fields⟩,
      congrArg some functions⟩
  · rw [equip_of_not_instantiable instantiable,
      equip_of_not_instantiable (alike.isInstantiable.trans_ne (by simpa using instantiable))]
    exact ⟨alike, by rw [program, program']⟩

end Corpus

namespace Compiler

variable {c c' : Compiler} {batch batch' : Batch}

/-- The image of a unit as it is written. -/
def imageOf (c : Compiler) (batch : Batch) : Image :=
  .ofModules (c.naming c.serial) (Source.corpusHash batch.files) (c.modules batch.files)

/-- The symbols of a unit, with which it is written where they are wanted. -/
def symbolsOf (c : Compiler) (batch : Batch) : Symbols :=
  .ofModules (c.naming c.serial) (Source.corpusHash batch.files) (c.modules batch.files)

/-- An active unit is written as its image, with its symbols where they are wanted. -/
theorem written_of_active (active : (c.compile batch).1.isActive = true) :
    (c.compile batch).1.executable = (c.imageOf batch).encode ∧
      (c.compile batch).1.symbols = if c.debugSymbols then some (c.symbolsOf batch).write else none := by
  have same : (c.compile batch).1 = build ⟨c.serial, c.naming c.serial⟩ c.debugSymbols batch.files
      batch.notes (c.modules batch.files) := rfl
  rw [same] at active ⊢
  rcases build_cases ⟨c.serial, c.naming c.serial⟩ c.debugSymbols batch.files batch.notes
    (c.modules batch.files) with ⟨-, h⟩ | ⟨_, -, -, h⟩ | ⟨a, -, written, h⟩
  · rw [h] at active
    exact absurd active Bool.false_ne_true
  · rw [h] at active
    exact absurd active Bool.false_ne_true
  · rw [h]
    rw [emit] at written
    split at written
    · obtain rfl := Except.ok.inj written
      exact ⟨rfl, rfl⟩
    · cases written

/-- The size of a unit can be told without its digest. -/
theorem length_executable {n : Nat} {now : Compilation} (active : (c.perform now).1.isActive = true)
    (small : ({ c.imageOf now.batch with corpusHash := "" } : Image).encode.length + 256 < n) :
    (c.perform now).1.executable.length < n := by
  have written : (c.perform now).1.executable = (c.imageOf now.batch).encode := (written_of_active active).1
  have digest : (utf8 (c.imageOf now.batch).corpusHash).length ≤ 256 := Source.length_corpusHash_le now.batch.files
  rw [written]
  exact Nat.lt_of_le_of_lt ((c.imageOf now.batch).length_encode_le.trans (Nat.add_le_add_left digest _)) small

/-- The image is read back from the unit. -/
theorem decode_of_active {now : Compilation} (active : (c.perform now).1.isActive = true)
    (fits : (c.imageOf now.batch).Fits) :
    Image.decode (c.perform now).1.executable = .ok (c.imageOf now.batch) := by
  have written : (c.perform now).1.executable = (c.imageOf now.batch).encode := (written_of_active active).1
  have back : Image.decode ((c.imageOf now.batch).encode ++ []) = .ok (c.imageOf now.batch) :=
    (Image.decode_encode fits []).trans (if_pos rfl)
  rwa [List.append_nil, ← written] at back

/-- The entries of two tables, one by one. -/
theorem sameEntries {α : Type} {view : FieldSpec → α} (key : α → String) (named : ∀ f, key (view f) = f.name)
    (stands : Stands batch (c.modules batch.files) (c.compile batch).1)
    (stands' : Stands batch' (c'.modules batch'.files) (c'.compile batch').1)
    (read : ∀ m ∈ c.modules batch.files, m.IsRead) (read' : ∀ m ∈ c'.modules batch'.files, m.IsRead)
    (modules : (Image.ofModules "" "" (c'.modules batch'.files)).modules =
      (Image.ofModules "" "" (c.modules batch.files)).modules)
    (types : (Node.ofModules (c'.modules batch'.files)).map Node.image =
      (Node.ofModules (c.modules batch.files)).map Node.image)
    (corresponds : Corresponds view (Equiv.refl Nat) (Node.ofModules (c.modules batch.files))
      (Node.ofModules (c'.modules batch'.files))) :
    List.Forall₂ (ScriptType.SameEntry view) (c.compile batch).1.types (c'.compile batch').1.types := by
  have length : (c.compile batch).1.types.length = (c'.compile batch').1.types.length := by
    have names := congrArg List.length (linkedTypes_names batch.notes (c.modules batch.files))
    have names' := congrArg List.length (linkedTypes_names batch'.notes (c'.modules batch'.files))
    have images := congrArg List.length types
    simp only [List.length_map] at names names' images
    rw [stands.types, stands'.types, names, names', images]
  refine List.forall₂_iff_get.mpr ⟨length, fun i hi hi' => ?_⟩
  obtain ⟨n, hn, made⟩ := exists_resolvedAt stands (List.getElem?_eq_getElem hi)
  obtain ⟨n', hn', made'⟩ := exists_resolvedAt stands' (List.getElem?_eq_getElem hi')
  have chain := corresponds.renumbers.chain_eq hn n'
  rw [Equiv.coe_refl, List.map_id] at chain
  rw [List.get_eq_getElem, List.get_eq_getElem, made, made']
  exact sameEntry_equip (corresponds.resolvedAt_alike key named hn hn') rfl rfl
    (functions_of_images read read' modules types chain)

/-- The compiler has been asked something, or nothing yet. -/
def Reached (c : Compiler) : Prop :=
  ∃ naming debugSymbols history, c = (create naming debugSymbols).after history

theorem Reached.read (h : c.Reached) : ∀ m ∈ c.modules batch.files, m.IsRead := by
  obtain ⟨naming, debugSymbols, history, rfl⟩ := h
  exact fun m hm => isRead_of_mem_modules (made_of_history naming debugSymbols history) hm

/-- The image that is read back from a unit determines the table of its types, but for the values that fields
    start with: where another unit has the same image, apart from its name and its hash, both have the same types
    in the same order, and their programs have the same functions; the fields start with the same values where the
    declared ones do.  The lengths in both images are taken to fit 64 bits. -/
theorem image_determines_types (c c' : Compiler) (reached : c.Reached) (reached' : c'.Reached)
    (now now' : Compilation) (i i' : Image)
    (active : (c.perform now).1.isActive = true) (active' : (c'.perform now').1.isActive = true)
    (fits : (c.imageOf now.batch).Fits) (fits' : (c'.imageOf now'.batch).Fits)
    (decoded : Image.decode (c.perform now).1.executable = .ok i)
    (decoded' : Image.decode (c'.perform now').1.executable = .ok i')
    (same : { i' with unit := i.unit, corpusHash := i.corpusHash } = i) :
    List.Forall₂ (ScriptType.SameEntry FieldSpec.heading) (c.perform now).1.types (c'.perform now').1.types ∧
      ((Node.ofModules (c'.modules now'.batch.files)).map Node.starts =
          (Node.ofModules (c.modules now.batch.files)).map Node.starts →
        List.Forall₂ (ScriptType.SameEntry id) (c.perform now).1.types (c'.perform now').1.types) := by
  obtain rfl : i = c.imageOf now.batch := Except.ok.inj (decoded.symm.trans (decode_of_active active fits))
  obtain rfl : i' = c'.imageOf now'.batch := Except.ok.inj (decoded'.symm.trans (decode_of_active active' fits'))
  have modules : (c'.imageOf now'.batch).modules = (c.imageOf now.batch).modules := by
    have kept := congrArg Image.modules same
    exact kept
  have types : (Node.ofModules (c'.modules now'.batch.files)).map Node.image =
      (Node.ofModules (c.modules now.batch.files)).map Node.image := by
    have kept := congrArg Image.types same
    rw [← types_ofModules "" "", ← types_ofModules "" ""]
    exact kept
  have stands := stands_of_active active
  have stands' := stands_of_active active'
  have read : ∀ m ∈ c.modules now.batch.files, m.IsRead := reached.read
  have read' : ∀ m ∈ c'.modules now'.batch.files, m.IsRead := reached'.read
  obtain ⟨headings, wholes⟩ := corresponds_of_images
    (fun _ => isCompiled_of_passes read stands.passed) (fun _ => isCompiled_of_passes read' stands'.passed) types
  constructor
  · exact sameEntries Prod.fst (fun _ => rfl) stands stands' read read' modules types headings
  · intro starts
    exact sameEntries FieldSpec.name (fun _ => rfl) stands stands' read read' modules types (wholes starts)

/-- A type with a field that starts with a number. -/
def counting (front start : String) : Compilation :=
  ⟨⟨[⟨"a.ks", front ++ "type T : Behaviour \x7b pub x: int = " ++ start ++ "; fn update(ctx, dt) \x7b \x7d \x7d",
    .time 0⟩], []⟩, false⟩

/-- A new compiler. -/
def fresh : Compiler := create toString false

theorem reached_fresh : fresh.Reached := ⟨toString, false, [], rfl⟩

/-- The one type in the image of a corpus that counts, without the number. -/
def countedTypes : List Image.TypeDecl :=
  [⟨"T", some "Behaviour", false, "a.ks", [⟨"x", "int", true⟩],
    [⟨"update", ["ctx", "dt"], "fn update(ctx, dt) \x7b \x7d"⟩]⟩]

/-- Whether there is one list of one value, that number. -/
def isNumber (k : Int) : List (List Script.Value) → Bool
  | [[.int n]] => n == k
  | _ => false

theorem eq_of_isNumber {k : Int} {vs : List (List Script.Value)} (h : isNumber k vs = true) : vs = [[.int k]] := by
  unfold isNumber at h
  split at h
  · rw [eq_of_beq h]
  · cases h

/-- The unit of the corpus is active, its image holds that type and no function, and the field starts with the
    number. -/
structure Counts (k : Int) (now : Compilation) : Prop where
  active : (fresh.perform now).1.isActive = true
  modules : (fresh.imageOf now.batch).modules = [⟨"a.ks", []⟩]
  types : (fresh.imageOf now.batch).types = countedTypes
  starts : isNumber k ((Node.ofModules (fresh.modules now.batch.files)).map Node.starts) = true
  defaults : isNumber k ((fresh.perform now).1.types.map fun t => t.fields.map (·.default)) = true

instance (k : Int) (now : Compilation) : Decidable (Counts k now) :=
  decidable_of_iff ((fresh.perform now).1.isActive = true ∧
      (fresh.imageOf now.batch).modules = [⟨"a.ks", []⟩] ∧ (fresh.imageOf now.batch).types = countedTypes ∧
      isNumber k ((Node.ofModules (fresh.modules now.batch.files)).map Node.starts) = true ∧
      isNumber k ((fresh.perform now).1.types.map fun t => t.fields.map (·.default)) = true)
    ⟨fun ⟨active, modules, types, starts, defaults⟩ => ⟨active, modules, types, starts, defaults⟩,
      fun h => ⟨h.active, h.modules, h.types, h.starts, h.defaults⟩⟩

theorem counts_one : Counts 1 (counting "" "1") := by decide +kernel

theorem counts_two : Counts 2 (counting "" "2") := by decide +kernel

theorem counts_commented : Counts 1 (counting "// one\n" "1") := by decide +kernel

theorem Counts.fits {k : Int} {now : Compilation} (h : Counts k now) : (fresh.imageOf now.batch).Fits := by
  have modules : Image.ListFits Image.Module.Fits [⟨"a.ks", []⟩] := by decide +kernel
  have types : Image.ListFits Image.TypeDecl.Fits countedTypes := by decide +kernel
  have digest := Nat.lt_of_le_of_lt (Source.length_corpusHash_le now.batch.files) (by decide : 256 < 2 ^ 64)
  exact ⟨(by decide +kernel : Image.TextFits "0"), digest, h.modules ▸ modules, h.types ▸ types⟩

theorem Counts.same_image {k k' : Int} {now now' : Compilation} (h : Counts k now) (h' : Counts k' now') :
    { fresh.imageOf now'.batch with
      unit := (fresh.imageOf now.batch).unit, corpusHash := (fresh.imageOf now.batch).corpusHash } =
      fresh.imageOf now.batch := by
  show (⟨hostVersion, _, _, (fresh.imageOf now'.batch).modules, (fresh.imageOf now'.batch).types⟩ : Image) = _
  rw [h'.modules, h'.types, ← h.modules, ← h.types]
  rfl

/-- A comment in front makes another corpus with the same image and the same types. -/
theorem commented_counting_same_types :
    (fresh.perform (counting "" "1")).1.isActive = true ∧
      (fresh.perform (counting "// one\n" "1")).1.isActive = true ∧
      List.Forall₂ (ScriptType.SameEntry id) (fresh.perform (counting "" "1")).1.types
        (fresh.perform (counting "// one\n" "1")).1.types := by
  have starts : (Node.ofModules (fresh.modules (counting "// one\n" "1").batch.files)).map Node.starts =
      (Node.ofModules (fresh.modules (counting "" "1").batch.files)).map Node.starts :=
    (eq_of_isNumber counts_commented.starts).trans (eq_of_isNumber counts_one.starts).symm
  obtain ⟨-, same⟩ := image_determines_types fresh fresh reached_fresh reached_fresh (counting "" "1")
    (counting "// one\n" "1") (fresh.imageOf (counting "" "1").batch)
    (fresh.imageOf (counting "// one\n" "1").batch) counts_one.active counts_commented.active counts_one.fits
    counts_commented.fits (decode_of_active counts_one.active counts_one.fits)
    (decode_of_active counts_commented.active counts_commented.fits) (counts_one.same_image counts_commented)
  exact ⟨counts_one.active, counts_commented.active, same starts⟩

/-- The value that a field starts with is missing from the image: two units have the same image, while the field of
    the one type starts with another number. -/
theorem start_missing_from_image :
    (fresh.perform (counting "" "1")).1.isActive = true ∧ (fresh.perform (counting "" "2")).1.isActive = true ∧
      (∃ i i', Image.decode (fresh.perform (counting "" "1")).1.executable = .ok i ∧
        Image.decode (fresh.perform (counting "" "2")).1.executable = .ok i' ∧
        { i' with unit := i.unit, corpusHash := i.corpusHash } = i) ∧
      (fresh.perform (counting "" "1")).1.types.map (fun t => t.fields.map (·.default)) = [[.int 1]] ∧
      (fresh.perform (counting "" "2")).1.types.map (fun t => t.fields.map (·.default)) = [[.int 2]] := by
  refine ⟨counts_one.active, counts_two.active, ⟨_, _, decode_of_active counts_one.active counts_one.fits,
    decode_of_active counts_two.active counts_two.fits, counts_one.same_image counts_two⟩, ?_, ?_⟩
  · exact eq_of_isNumber counts_one.defaults
  · exact eq_of_isNumber counts_two.defaults

end Compiler

end ScriptHost
