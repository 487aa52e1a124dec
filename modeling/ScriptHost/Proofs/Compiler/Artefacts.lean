import ScriptHost.Proofs.Compiler.Executable
import ScriptHost.Proofs.Compiler.Reading
import ScriptHost.Proofs.Declaration.Soundness
import ScriptHost.Proofs.Symbols

/-!
# Artefacts — what a unit tells of its files

The executable and the symbols of an active unit hold what the files declare, file by file and in the order of the
text.  A function is left out only where it cannot be compiled, and that is an error; and a file that was kept from
before was read from the same path and the same text.  So nothing is missing, and everything stands with its own
type and file.
-/

namespace ScriptHost

open Corpus
open Declaration (FnDecl Tree)
open Diagnostic (passes)

/-! ## 1. Outlines -/

/-- A file with what its text declares. -/
structure Outline where
  path : String
  tree : Tree

namespace Outline

/-- What an image tells of a declared function. -/
def function (f : FnDecl) : Image.Function where
  name := f.name
  params := f.params
  text := "fn " ++ f.name ++ "(" ++ String.intercalate ", " f.params ++ ") \x7b" ++ f.body.text ++ "\x7d"

/-- What an image tells of a declared type. -/
def type (path : String) (t : Declaration.TypeDecl) : Image.TypeDecl where
  name := t.name
  base := t.base.map Prod.fst
  isAbstract := t.isAbstract
  path := path
  fields := t.fields.map fun f => { name := f.name, kind := f.kind.keyword, isPublic := f.isPublic }
  methods := t.methods.map function

/-- The image of some files. -/
def image (unit corpusHash : String) (os : List Outline) : Image where
  version := hostVersion
  unit := unit
  corpusHash := corpusHash
  modules := os.map fun o => ⟨o.path, o.tree.functions.map function⟩
  types := os.flatMap fun o => o.tree.types.map (type o.path)

/-- The functions of a file with their types: free functions first, then the methods of each type. -/
def functions (o : Outline) : List (Option String × FnDecl) :=
  o.tree.functions.map (none, ·) ++ o.tree.types.flatMap fun t => t.methods.map (some t.name, ·)

/-- The symbol of a declared function. -/
def symbol (path : String) (f : Option String × FnDecl) : Symbol where
  type := f.1
  function := f.2.name
  arity := f.2.params.length
  origin := ⟨path, f.2.position, f.2.body.position, (Lowered.header f.2).length⟩

/-- The symbols of some files. -/
def symbols (unit corpusHash : String) (os : List Outline) : Symbols where
  version := hostVersion
  unit := unit
  corpusHash := corpusHash
  entries := os.flatMap fun o => o.functions.map (symbol o.path)

variable {o : Outline} {os : List Outline} {unit corpusHash path : String} {f : Option String × FnDecl}

theorem mem_declarations (hf : f ∈ o.functions) : f.2 ∈ o.tree.declarations := by
  rcases List.mem_append.mp hf with hf | hf
  · obtain ⟨d, hd, rfl⟩ := List.mem_map.mp hf
    exact List.mem_append_left _ hd
  · obtain ⟨t, ht, hf⟩ := List.mem_flatMap.mp hf
    obtain ⟨d, hd, rfl⟩ := List.mem_map.mp hf
    exact List.mem_append_right _ (List.mem_flatMap.mpr ⟨t, ht, hd⟩)

/-! ## 2. Lengths and numbers -/

theorem function_fits (fits : (image unit corpusHash os).Fits) (ho : o ∈ os) (hf : f ∈ o.functions) :
    (function f.2).Fits := by
  obtain ⟨-, -, ⟨-, modules⟩, -, types⟩ := fits
  rcases List.mem_append.mp hf with hf | hf
  · obtain ⟨d, hd, rfl⟩ := List.mem_map.mp hf
    obtain ⟨-, -, functions⟩ := modules _ (List.mem_map_of_mem ho)
    exact functions _ (List.mem_map_of_mem hd)
  · obtain ⟨t, ht, hf⟩ := List.mem_flatMap.mp hf
    obtain ⟨d, hd, rfl⟩ := List.mem_map.mp hf
    obtain ⟨-, -, -, -, -, methods⟩ := types _ (List.mem_flatMap.mpr ⟨o, ho, List.mem_map_of_mem ht⟩)
    exact methods _ (List.mem_map_of_mem hd)

/-- The numbers of a symbol count what stands in the image or in the file. -/
theorem symbol_fits {text : List Char} (fits : (function f.2).Fits) (placed : f.2.Declared text)
    (small : text.length < 2 ^ 63) : (symbol path f).Fits := by
  obtain ⟨-, ⟨arity, -⟩, written⟩ := fits
  -- Places stay within the text of the file.
  obtain ⟨_, named⟩ := placed.named
  obtain ⟨_, bodied⟩ := placed.bodied
  have name := named.place_le
  have body := bodied.place_le
  -- The header is a part of the text that the image holds, and that text fits.
  have header : (Lowered.header f.2).length < 2 ^ 64 := by
    have shorter : (Lowered.header f.2).length ≤ (Lowered.textOf f.2).length := by
      rw [Lowered.textOf, String.length_append, String.length_append, Nat.add_assoc]
      exact Nat.le_add_right _ _
    exact Nat.lt_of_le_of_lt (shorter.trans (length_le_utf8 _)) written
  refine ⟨arity, fun n hn => ?_⟩
  simp only [Origin.numbers, symbol, List.mem_cons, List.not_mem_nil, or_false] at hn
  show n < 2 ^ 64
  omega

theorem symbols_fits (fits : (image unit corpusHash os).Fits)
    (placed : ∀ o ∈ os, ∃ text : List Char, text.length < 2 ^ 63 ∧ ∀ d ∈ o.tree.declarations, d.Declared text) :
    (symbols unit corpusHash os).Fits := by
  intro e he
  obtain ⟨o, ho, he⟩ := List.mem_flatMap.mp he
  obtain ⟨f, hf, rfl⟩ := List.mem_map.mp he
  obtain ⟨text, small, declared⟩ := placed o ho
  exact symbol_fits (function_fits fits ho hf) (declared _ (mem_declarations hf)) small

end Outline

/-! ## 3. Modules -/

namespace Corpus

variable {m : Module} {ms : List Module} {l : Lowered} {f : FnDecl} {path : String}

theorem Lowered.image_of_ofDecl (h : ofDecl path f = .ok l) : Image.Function.ofLowered l = Outline.function f := by
  obtain ⟨p, -, rfl⟩ := compile_of_ofDecl h
  rfl

theorem Lowered.symbol_of_ofDecl (type : Option String) (h : ofDecl path f = .ok l) :
    Symbol.ofLowered type l = Outline.symbol path (type, f) := by
  obtain ⟨p, -, rfl⟩ := compile_of_ofDecl h
  rfl

/-- What a module tells of its file. -/
def Module.outline (m : Module) : Outline := ⟨m.path, m.tree⟩

variable (read : ∀ m ∈ ms, m.IsRead) (passed : ∀ m ∈ ms, passes m.diagnostics = true) (unit corpusHash : String)
include read passed

/-- Where nothing is wrong, the image is that of what is declared. -/
theorem image_ofModules :
    Image.ofModules unit corpusHash ms = Outline.image unit corpusHash (ms.map Module.outline) := by
  have functions : ∀ m ∈ ms, m.functions.map Image.Function.ofLowered = m.tree.functions.map Outline.function :=
    fun m hm => Module.map_functions (read m hm) (passed m hm) fun _ _ => Lowered.image_of_ofDecl
  have types : ∀ m ∈ ms, m.types.map (Image.TypeDecl.ofModule m.path) = m.tree.types.map (Outline.type m.path) := by
    intro m hm
    -- A type stands with its own methods, so it is enough to compare these.
    rw [← Module.map_decl (read m hm), List.map_map]
    refine List.map_congr_left fun t ht => ?_
    have methods := Module.map_methods (read m hm) (passed m hm) (fun _ _ => Lowered.image_of_ofDecl) ht
    exact congrArg (Image.TypeDecl.mk t.decl.name (t.decl.base.map (·.1)) t.decl.isAbstract m.path
      (t.decl.fields.map Image.Field.ofDecl)) methods
  rw [Image.ofModules, Outline.image, List.map_map, List.flatMap_map, List.flatMap_congr types]
  exact congrArg (Image.mk hostVersion unit corpusHash · _)
    (List.map_congr_left fun m hm => congrArg (Image.Module.mk m.path) (functions m hm))

/-- So are the symbols. -/
theorem symbols_ofModules :
    Symbols.ofModules unit corpusHash ms = Outline.symbols unit corpusHash (ms.map Module.outline) := by
  have entries : ∀ m ∈ ms, m.functions.map (Symbol.ofLowered none) ++
        m.types.flatMap (fun t => t.methods.map (Symbol.ofLowered (some t.decl.name))) =
      m.outline.functions.map (Outline.symbol m.path) := by
    intro m hm
    have functions := Module.map_functions (read m hm) (passed m hm) fun _ _ => Lowered.symbol_of_ofDecl none
    have methods : ∀ t ∈ m.types, t.methods.map (Symbol.ofLowered (some t.decl.name)) =
        t.decl.methods.map fun f => Outline.symbol m.path (some t.decl.name, f) := fun t ht =>
      Module.map_methods (read m hm) (passed m hm) (fun _ _ => Lowered.symbol_of_ofDecl _) ht
    rw [functions, List.flatMap_congr methods, Outline.functions, Module.outline, ← Module.map_decl (read m hm),
      List.flatMap_map, List.map_append, List.map_map, List.map_flatMap]
    simp only [List.map_map]
    rfl
  rw [Symbols.ofModules, Outline.symbols, List.flatMap_map]
  exact congrArg (Symbols.mk hostVersion unit corpusHash) (List.flatMap_congr entries)

end Corpus

/-! ## 4. Files -/

/-- The outline of a file: its text is a sentence that declares the tree, with each function in its place. -/
structure Source.HasOutline (f : Source) (o : Outline) : Prop where
  path : Path.same o.path f.path.shown = true
  sentence : Declaration.Sentence Declaration.Final f.content o.tree
  placed : ∀ d ∈ o.tree.declarations, d.Declared f.content.toList

/-- The module is what the text of the file is read as, under a path of the same parts. -/
def Source.IsReadAs (f : Source) (m : Module) : Prop :=
  ∃ path, Path.same path f.path.shown = true ∧ m = Module.read path f.content

variable {f : Source} {m : Module} {known files : List Source} {c : Compiler}

theorem Source.IsReadAs.hasOutline (read : f.IsReadAs m) (passed : passes m.diagnostics = true) :
    f.HasOutline m.outline := by
  obtain ⟨path, same, rfl⟩ := read
  exact ⟨same, Declaration.sentence_of_parse (Module.faultless_of_passes passed),
    fun d hd => Declaration.declared_of_parse hd⟩

namespace Compiler

/-- Files are read in order, whatever known files were read before. -/
theorem Kept.isReadAs (kept : Kept known c) (discerned : Source.Discerned known) (hf : ∀ f ∈ files, f ∈ known) :
    List.Forall₂ Source.IsReadAs files (c.modules files) := by
  have given := CachedModule.loadAll_gives kept.made fun f hf' => ⟨f, hf f hf', rfl⟩
  refine ((List.forall₂_and_left files (c.modules files)).mpr ⟨hf, given⟩).imp ?_
  rintro f m ⟨hf, e, ⟨g, hg, rfl⟩, covers, rfl⟩
  obtain ⟨path, digest⟩ := Bool.and_eq_true_iff.mp covers
  -- What was kept of `g` stands for `f`, and only the path may be spelled in another way.
  have content : g.content = f.content := discerned g hg f hf path (eq_of_beq digest)
  exact ⟨g.path.shown, (Bool.and_eq_true_iff.mp path).1, congrArg (Module.read g.path.shown) content⟩

theorem Kept.hasOutlines (kept : Kept known c) (discerned : Source.Discerned known) (hf : ∀ f ∈ files, f ∈ known)
    (passed : ∀ m ∈ c.modules files, passes m.diagnostics = true) :
    List.Forall₂ Source.HasOutline files ((c.modules files).map Module.outline) := by
  rw [List.forall₂_map_right_iff]
  have read := (kept.isReadAs discerned hf).flip
  exact (((List.forall₂_and_left (c.modules files) files).mpr ⟨passed, read⟩).imp
    fun _ _ ⟨passed, read⟩ => Source.IsReadAs.hasOutline read passed).flip

/-- With consistent files, each outline has the path of its file as it is spelled. -/
theorem Kept.map_path (kept : Kept known c) (consistent : Source.Consistent known) (hf : ∀ f ∈ files, f ∈ known) :
    ((c.modules files).map Module.outline).map Outline.path = files.map (·.path.shown) := by
  rw [modules, CachedModule.loadAll_eq_read consistent kept.made hf, List.map_map, List.map_map]
  rfl

/-! ## 5. Artefacts -/

/-- The artefacts of a unit hold what its files declare, and nothing else.  Where all the files that were ever read
    are consistent, the paths are spelled as those of the files are. -/
structure Describes (known : List Source) (now : Compilation) (u : ScriptUnit) (os : List Outline) : Prop where
  outlines : List.Forall₂ Source.HasOutline now.batch.files os
  paths : Source.Consistent known → os.map Outline.path = now.batch.files.map (·.path.shown)
  image : Image.decode u.executable = .ok (Outline.image u.id.text u.corpusHash os)
  symbols : now.debugSymbols = true →
    ∃ text, u.symbols = some text ∧ Symbols.read? text = some (Outline.symbols u.id.text u.corpusHash os)
  absent : now.debugSymbols = false → u.symbols = none

/-- Symbols that are wanted can be read, and are those of what the files declare.  Every file is taken to have a text
    whose places can be counted. -/
theorem exists_symbols {now : Compilation} (read : ∀ m ∈ c.modules now.batch.files, m.IsRead)
    (placed : ∀ m ∈ c.modules now.batch.files, ∃ text : List Char, text.length < 2 ^ 63 ∧
      ∀ d ∈ m.tree.declarations, d.Declared text)
    (active : (c.perform now).1.isActive = true) (held : (c.perform now).1.executable.length < 2 ^ 64)
    (wanted : now.debugSymbols = true) :
    ∃ text, (c.perform now).1.symbols = some text ∧ Symbols.read? text = some (Outline.symbols (c.perform now).1.id.text
      (c.perform now).1.corpusHash ((c.modules now.batch.files).map Module.outline)) := by
  have passed : ∀ m ∈ c.modules now.batch.files, passes m.diagnostics = true := (stands_of_active active).passed
  obtain ⟨executable, symbols⟩ := written_of_active active
  refine ⟨_, symbols.trans (if_pos wanted), ?_⟩
  have fits : (c.imageOf now.batch).Fits := Image.fits_of_length (lt_of_eq_of_lt (congrArg _ executable.symm) held)
  have image := image_ofModules read passed (c.naming c.serial) (Source.corpusHash now.batch.files)
  have entries := symbols_ofModules read passed (c.naming c.serial) (Source.corpusHash now.batch.files)
  -- Numbers that do not fit would be refused when the symbols are read.
  have numbers : (c.symbolsOf now.batch).Fits := by
    rw [symbolsOf, entries]
    exact Outline.symbols_fits (image ▸ fits) (List.forall_mem_map.mpr placed)
  exact (Symbols.read?_write_alone numbers).trans (congrArg some entries)

theorem Kept.describes {now : Compilation} (kept : Kept known c) (discerned : Source.Discerned known)
    (hf : ∀ f ∈ now.batch.files, f ∈ known) (small : ∀ f ∈ now.batch.files, f.content.length < 2 ^ 63)
    (active : (c.perform now).1.isActive = true) (held : (c.perform now).1.executable.length < 2 ^ 64) :
    Describes known now (c.perform now).1 ((c.modules now.batch.files).map Module.outline) := by
  have passed : ∀ m ∈ c.modules now.batch.files, passes m.diagnostics = true := (stands_of_active active).passed
  have read : ∀ m ∈ c.modules now.batch.files, m.IsRead := fun m hm =>
    isRead_of_mem_modules (fun e he => (kept.made e he).imp fun _ h => h.2) hm
  obtain ⟨executable, symbols⟩ := written_of_active active
  have fits : (c.imageOf now.batch).Fits := Image.fits_of_length (lt_of_eq_of_lt (congrArg _ executable.symm) held)
  have image := image_ofModules read passed (c.naming c.serial) (Source.corpusHash now.batch.files)
  have outlines := kept.hasOutlines discerned hf passed
  refine ⟨outlines, fun consistent => kept.map_path consistent hf, ?_, fun wanted => ?_, fun unwanted => ?_⟩
  · rw [decode_of_active active fits]
    exact congrArg Except.ok image
  · refine exists_symbols read (fun m hm => ?_) active held wanted
    obtain ⟨f, hf, outline⟩ := exists_of_forall₂ outlines.flip (List.mem_map_of_mem hm)
    exact ⟨_, lt_of_eq_of_lt f.content.length_toList (small f hf), outline.placed⟩
  · exact symbols.trans (if_neg (Bool.eq_false_iff.mp unwanted))

/-- Whatever a compiler was asked before, the artefacts of an active unit describe its files: decoding the executable
    gives one module for each file with its free functions, and the types of each file with their fields and methods;
    and the symbols, where they are wanted, are those of the same functions in the same order.  Digests are taken to
    tell the texts of a path apart, and what is held in memory to be counted in 64 bits. -/
theorem artefacts_describe (naming : Nat → String) (debugSymbols : Bool) (history : List Compilation)
    (now : Compilation) (discerned : Source.Discerned (filesOf (history ++ [now])))
    (small : ∀ f ∈ now.batch.files, f.content.length < 2 ^ 63)
    (active : (((create naming debugSymbols).after history).perform now).1.isActive = true)
    (held : (((create naming debugSymbols).after history).perform now).1.executable.length < 2 ^ 64) :
    ∃ os, Describes (filesOf (history ++ [now])) now (((create naming debugSymbols).after history).perform now).1
      os := by
  have files : filesOf (history ++ [now]) = filesOf history ++ now.batch.files := by
    rw [filesOf, List.flatMap_append, List.flatMap_singleton]
    rfl
  have kept : Kept (filesOf (history ++ [now])) ((create naming debugSymbols).after history) :=
    (kept_create naming debugSymbols).after fun f h => files ▸ List.mem_append_left _ h
  exact ⟨_, kept.describes discerned (fun f h => files ▸ List.mem_append_right _ h) small active held⟩

/-- A file with one function. -/
def halved : Compilation := ⟨⟨[⟨"a.ks", "fn half(x) \x7b x / 2 \x7d", .time 0⟩], []⟩, false⟩

/-- The file is left as it is, while another is added, and symbols are wanted. -/
def lit : Compilation :=
  ⟨⟨[⟨"a.ks", "fn half(x) \x7b x / 2 \x7d", .time 0⟩,
    ⟨"b.ks", "type Lamp : Behaviour \x7b pub level: int = 4; fn update(ctx, dt) \x7b half(dt); \x7d \x7d",
      .time 1⟩], []⟩, true⟩

theorem lit_described :
    let u := (((create toString false).after [halved]).perform lit).1
    (Source.Discerned (filesOf ([halved] ++ [lit])) ∧ (∀ f ∈ lit.batch.files, f.content.length < 2 ^ 63) ∧
      u.isActive = true ∧ u.executable.length < 2 ^ 64) ∧
      ∃ os, Describes (filesOf ([halved] ++ [lit])) lit u os := by
  dsimp only
  have apart : ∀ f ∈ filesOf ([halved] ++ [lit]), ∀ g ∈ filesOf ([halved] ++ [lit]),
      f.path.same g.path = true → f.content = g.content := by
    decide
  have discerned : Source.Discerned (filesOf ([halved] ++ [lit])) := fun f hf g hg same _ => apart f hf g hg same
  obtain ⟨small, active, image⟩ : (∀ f ∈ lit.batch.files, f.content.length < 2 ^ 63) ∧
      (((create toString false).after [halved]).perform lit).1.isActive = true ∧
      ({ ((create toString false).after [halved]).imageOf lit.batch with corpusHash := "" } : Image).encode.length + 256 <
        2 ^ 64 := by
    decide +kernel
  have held := length_executable active image
  exact ⟨⟨discerned, small, active, held⟩,
    artefacts_describe toString false [halved] lit discerned small active held⟩

end Compiler

end ScriptHost
