import ScriptHost.Proofs.Compiler.Active
import ScriptHost.Proofs.Corpus.Dispatch
import ScriptHost.Proofs.Corpus.Findings

/-!
# Violations — which declarations the linker refuses

The linker goes over the fields of every type, over the methods of every type that reaches the built-in base, and
over the free functions of all files.  What it says of them is said here without it: a declaration is refused for
coming again, for a default that its field cannot start with, or for the parameters of a hook.
-/

namespace ScriptHost

open Corpus
open Declaration (FieldDecl FnDecl Literal)

namespace Corpus

variable {ms : List Module} {ns : List Node} {n : Node} {d : Diagnostic}

/-! ## 1. Going over declarations -/

section Scan

variable {α κ σ : Type} [DecidableEq κ]

/-- What is said of items one after the other: of one whose key was there before that it comes again, of any other
    what there is to say of it alone. -/
def scan (key : α → κ) (again : α → Diagnostic) (alone : α → List Diagnostic) : List κ → List α → List Diagnostic
  | _, [] => []
  | seen, a :: as => (if key a ∈ seen then [again a] else alone a) ++ scan key again alone (key a :: seen) as

variable {key : α → κ} {again : α → Diagnostic} {alone : α → List Diagnostic} {as : List α} {seen : List κ}

theorem mem_scan_iff : d ∈ scan key again alone seen as ↔ ∃ before a after, as = before ++ a :: after ∧
    if key a ∈ before.map key ++ seen then d = again a else d ∈ alone a := by
  -- On the items, for any keys seen so far: those of the items in front come to them.
  induction as generalizing seen with
  | nil => simp [scan]
  | cons b as ih =>
    rw [scan, List.mem_append, ih]
    constructor
    · rintro (first | ⟨before, a, after, rfl, said⟩)
      · refine ⟨[], b, as, rfl, ?_⟩
        rw [List.map_nil, List.nil_append]
        split at first
        · next taken => exact (if_pos taken).mpr (List.mem_singleton.mp first)
        · next new => exact (if_neg new).mpr first
      · refine ⟨b :: before, a, after, rfl, ?_⟩
        simp only [List.mem_append, List.mem_cons, List.map_cons] at said ⊢
        simpa only [or_left_comm, or_assoc] using said
    · rintro ⟨before, a, after, split', said⟩
      rcases List.cons_eq_append_iff.mp split' with ⟨rfl, same⟩ | ⟨rest, rfl, same⟩
      · obtain ⟨rfl, rfl⟩ := List.cons.inj same
        rw [List.map_nil, List.nil_append] at said
        left
        split at said
        · next taken => exact (if_pos taken).symm ▸ List.mem_singleton.mpr said
        · next new => exact (if_neg new).symm ▸ said
      · refine .inr ⟨rest, a, after, same, ?_⟩
        simp only [List.mem_append, List.mem_cons, List.map_cons] at said ⊢
        simpa only [or_left_comm, or_assoc] using said

/-- A fold that holds the keys it has met and adds what it finds goes over its items so. -/
theorem found_foldl {step : σ → α → σ} (holds : σ → κ → Prop) (found : σ → List Diagnostic)
    (new : ∀ s a, ¬ holds s (key a) → found (step s a) = found s ++ alone a)
    (old : ∀ s a, holds s (key a) → found (step s a) = found s ++ [again a])
    (keeps : ∀ s a k, holds (step s a) k ↔ k = key a ∨ holds s k) {s : σ} (held : ∀ k, holds s k ↔ k ∈ seen) :
    found (as.foldl step s) = found s ++ scan key again alone seen as := by
  induction as generalizing s seen with
  | nil => exact (List.append_nil _).symm
  | cons a as ih =>
    have here : found (step s a) = found s ++ if key a ∈ seen then [again a] else alone a := by
      split
      · next taken => exact old s a ((held _).mpr taken)
      · next fresh => exact new s a fun h => fresh ((held _).mp h)
    have after (k : κ) : holds (step s a) k ↔ k ∈ key a :: seen := by
      rw [keeps, List.mem_cons, held]
    rw [List.foldl_cons, ih after, here, scan, List.append_assoc]

omit [DecidableEq κ] in
/-- Keys differ where none of them comes again. -/
theorem nodup_map_iff :
    (as.map key).Nodup ↔ ∀ before a after, as = before ++ a :: after → key a ∉ before.map key := by
  constructor
  · rintro distinct before a after rfl mem
    rw [List.map_append, List.map_cons] at distinct
    exact List.disjoint_of_nodup_append distinct mem List.mem_cons_self
  · intro once
    induction as using List.reverseRecOn with
    | nil => exact List.nodup_nil
    | append_singleton as a ih =>
      have before := ih fun before b after same =>
        once before b (after ++ [a]) (by rw [same, List.append_assoc, List.cons_append])
      rw [List.map_append, List.map_singleton]
      exact List.concat_eq_append ▸ before.concat (once as a [] rfl)

end Scan

/-! ## 2. Fields -/

/-- A literal that a field of the kind can start with. -/
inductive Suits : Field.Kind → Literal → Prop where
  | int (n : Int) : Suits .int (.int n)
  | float (x : Float) : Suits .float (.float x)
  | whole (n : Int) : Suits .float (.int n)
  | bool (b : Bool) : Suits .bool (.bool b)
  | text (s : String) : Suits .text (.text s)
  | vec2 (x y : Float) : Suits .vec2 (.vector [x, y])
  | vec3 (x y z : Float) : Suits .vec3 (.vector [x, y, z])
  | vec4 (x y z w : Float) : Suits .vec4 (.vector [x, y, z, w])
  | array (items : List Literal) : Suits .array (.array items)
  | map (entries : List (String × Literal)) : Suits .map (.map entries)

theorem isSome_defaultValue?_iff {kind : Field.Kind} {l : Literal} :
    (defaultValue? kind l).isSome = true ↔ Suits kind l := by
  constructor
  · intro given
    unfold defaultValue? at given
    split at given
    case h_11 => exact absurd given Bool.false_ne_true
    all_goals constructor
  · rintro (_ | _)
    all_goals rfl

theorem mismatch?_eq_some_iff {f : FieldDecl} : FieldSpec.mismatch? n f = some d ↔
    ∃ l, f.default = some l ∧ ¬ Suits f.kind l ∧
      d = ⟨.defaultKind f.name l.describe f.kind, .atPosition n.path f.position⟩ := by
  simp only [FieldSpec.mismatch?, Option.bind_eq_bind, Option.bind_eq_some_iff, Option.ite_none_left_eq_some,
    Option.some.injEq, isSome_defaultValue?_iff, eq_comm (b := d)]

theorem own_findings (n : Node) : (FieldSpec.own n).2 =
    scan FieldDecl.name (fun f => ⟨.duplicateField f.name n.name, .atPosition n.path f.position⟩)
      (fun f => (FieldSpec.mismatch? n f).toList) [] n.decl.fields := by
  refine found_foldl (fun (s : List FieldSpec × List Diagnostic) name => s.1.any (·.name == name) = true)
    Prod.snd ?_ ?_ ?_ ?_
  · intro s f new
    exact congrArg Prod.snd (if_neg new)
  · intro s f taken
    exact congrArg Prod.snd (if_pos taken)
  · intro s f name
    dsimp only
    split
    · next taken =>
      refine ⟨.inr, fun h => h.elim (fun same => ?_) id⟩
      exact same ▸ taken
    · next new =>
      rw [List.any_append, Bool.or_eq_true, or_comm, List.any_cons, List.any_nil, Bool.or_false, beq_iff_eq,
        eq_comm]
      rfl
  · intro name
    simp

/-! ## 3. Methods and functions -/

/-- The finding about a method that goes by the name of a hook and does not take its parameters. -/
def miscounted? (n : Node) (f : FnDecl) : Option Diagnostic :=
  (hookOf? f).bind fun h =>
    if f.params.length = h.arity then none
    else some ⟨.hookSignature h f.params.length, .atPosition n.path f.position⟩

theorem miscounted?_eq_some_iff {f : FnDecl} : miscounted? n f = some d ↔
    ∃ h : Hook, f.name = h.name ∧ f.params.length ≠ h.arity ∧
      d = ⟨.hookSignature h f.params.length, .atPosition n.path f.position⟩ := by
  simp only [miscounted?, Option.bind_eq_some_iff, hookOf?_eq_some, Option.ite_none_left_eq_some, Option.some.injEq,
    eq_comm (b := d)]

theorem checkMethods_findings (n : Node) : (checkMethods n).2 =
    scan FnDecl.name (fun f => ⟨.duplicateMethod f.name n.name, .atPosition n.path f.position⟩)
      (fun f => (miscounted? n f).toList) [] n.decl.methods := by
  rw [checkMethods_eq]
  refine found_foldl (fun (c : Checked) name => name ∈ c.1) (fun c : Checked => c.2.2) ?_ ?_ ?_ ?_
  · intro c f new
    unfold checkMethod miscounted?
    rw [if_neg fun h => new (List.contains_iff_mem.mp h)]
    cases hookOf? f with
    | none => exact (List.append_nil _).symm
    | some h =>
      by_cases count : f.params.length = h.arity
      · simp [count]
      · simp [count]
  · intro c f taken
    unfold checkMethod
    rw [if_pos (List.contains_iff_mem.mpr taken)]
  · intro c f name
    unfold checkMethod
    by_cases taken : c.1.contains f.name = true
    · rw [if_pos taken]
      have met : f.name ∈ c.1 := List.contains_iff_mem.mp taken
      exact ⟨.inr, fun h => h.elim (fun same => same ▸ met) id⟩
    · rw [if_neg taken]
      split
      · exact List.mem_cons
      · split <;> exact List.mem_cons
  · exact fun _ => Iff.rfl

theorem mem_duplicateFunctions_iff : d ∈ duplicateFunctions ms ↔ ∃ before e after first,
    freeFunctions ms = before ++ e :: after ∧
      before.find? (·.isCalled e.decl.name e.decl.params.length) = some first ∧
      d = ⟨.duplicateFunction e.decl.name e.decl.params.length first.place, e.place⟩ := by
  simp only [duplicateFunctions_eq, List.mem_filterMap, Option.map_eq_some_iff, Prod.exists,
    List.mem_zipIdx_iff_getElem?]
  constructor
  · rintro ⟨e, i, there, first, found, rfl⟩
    obtain ⟨inside, rfl⟩ := List.getElem?_eq_some_iff.mp there
    refine ⟨(freeFunctions ms).take i, _, (freeFunctions ms).drop (i + 1), first, ?_, found, rfl⟩
    rw [List.getElem_cons_drop, List.take_append_drop]
  · rintro ⟨before, e, after, first, all, found, rfl⟩
    refine ⟨e, before.length, ?_, first, ?_, rfl⟩
    · rw [all, List.getElem?_append_right (Nat.le_refl _), Nat.sub_self]
      rfl
    · rwa [all, List.take_left]

/-! ## 4. What is refused -/

/-- The type reaches the built-in base, concrete or not. -/
def ReachesBehaviour (ns : List Node) (n : Node) : Prop := ∃ i chain, ns[i]? = some n ∧ ReachesBuiltIn ns i chain

/-- What is wrong with one declaration of a corpus: the first declaration of a name counts. -/
inductive Violation (ms : List Module) : Diagnostic → Prop where
  | fieldAgain {n : Node} {before after : List FieldDecl} {f : FieldDecl} (declared : n ∈ Node.ofModules ms)
      (fields : n.decl.fields = before ++ f :: after) (again : f.name ∈ before.map FieldDecl.name) :
      Violation ms ⟨.duplicateField f.name n.name, .atPosition n.path f.position⟩
  | default {n : Node} {before after : List FieldDecl} {f : FieldDecl} {l : Literal}
      (declared : n ∈ Node.ofModules ms) (fields : n.decl.fields = before ++ f :: after)
      (first : f.name ∉ before.map FieldDecl.name) (written : f.default = some l) (unsuited : ¬ Suits f.kind l) :
      Violation ms ⟨.defaultKind f.name l.describe f.kind, .atPosition n.path f.position⟩
  | methodAgain {n : Node} {before after : List FnDecl} {f : FnDecl}
      (behaviour : ReachesBehaviour (Node.ofModules ms) n) (methods : n.decl.methods = before ++ f :: after)
      (again : f.name ∈ before.map FnDecl.name) :
      Violation ms ⟨.duplicateMethod f.name n.name, .atPosition n.path f.position⟩
  | hook {n : Node} {before after : List FnDecl} {f : FnDecl} {h : Hook}
      (behaviour : ReachesBehaviour (Node.ofModules ms) n) (methods : n.decl.methods = before ++ f :: after)
      (first : f.name ∉ before.map FnDecl.name) (named : f.name = h.name)
      (miscounted : f.params.length ≠ h.arity) :
      Violation ms ⟨.hookSignature h f.params.length, .atPosition n.path f.position⟩
  | functionAgain {before after : List Definition} {e first : Definition}
      (functions : freeFunctions ms = before ++ e :: after)
      (again : before.find? (·.isCalled e.decl.name e.decl.params.length) = some first) :
      Violation ms ⟨.duplicateFunction e.decl.name e.decl.params.length first.place, e.place⟩

/-- The codes that declarations are refused under. -/
def declarationCodes : List Code := [.duplicateField, .defaultKindMismatch, .duplicateMethod, .hookSignature]

theorem mem_own_iff : d ∈ (FieldSpec.own n).2 ↔ ∃ before f after, n.decl.fields = before ++ f :: after ∧
    if f.name ∈ before.map FieldDecl.name then
      d = ⟨.duplicateField f.name n.name, .atPosition n.path f.position⟩
    else FieldSpec.mismatch? n f = some d := by
  simp only [own_findings, mem_scan_iff, List.append_nil, Option.mem_toList]

theorem mem_checkMethods_iff : d ∈ (checkMethods n).2 ↔ ∃ before f after, n.decl.methods = before ++ f :: after ∧
    if f.name ∈ before.map FnDecl.name then
      d = ⟨.duplicateMethod f.name n.name, .atPosition n.path f.position⟩
    else miscounted? n f = some d := by
  simp only [checkMethods_findings, mem_scan_iff, List.append_nil, Option.mem_toList]

/-- Of a resolved type these two codes come from its methods, which are looked at if it is a behaviour type. -/
theorem mem_findings_resolvedAt {i : Nat} (code : d.code = .duplicateMethod ∨ d.code = .hookSignature) :
    d ∈ (resolvedAt ns i n).findings ↔ (walk ns i).ancestry.isBehaviour = true ∧ d ∈ (checkMethods n).2 := by
  have other {c : Code} (h : d.code = c) (no : c ≠ .duplicateMethod ∧ c ≠ .hookSignature) : False :=
    code.elim (fun e => no.1 (h.symm.trans e)) fun e => no.2 (h.symm.trans e)
  simp only [resolvedAt, resolveType, List.mem_append]
  constructor
  · rintro ((shadows | methods) | remarks)
    · exact (other (shadowed_code shadows) (by decide)).elim
    · split at methods
      · next behaviour => exact ⟨behaviour, methods⟩
      · exact absurd methods List.not_mem_nil
    · split at remarks
      · have code' := congrArg Diagnostic.code (List.mem_singleton.mp (List.mem_ite_nil_right.mp remarks).2)
        exact (other (c := .noHooks) code' (by decide)).elim
      · have code' := congrArg Diagnostic.code (List.mem_singleton.mp remarks)
        exact (other (c := .notABehaviour) code' (by decide)).elim
      · exact absurd remarks List.not_mem_nil
  · rintro ⟨behaviour, methods⟩
    rw [if_pos behaviour]
    exact .inl (.inr methods)

theorem mem_resolveAll_findings_iff (code : d.code = .duplicateMethod ∨ d.code = .hookSignature) :
    d ∈ (resolveAll ns).flatMap (·.findings) ↔ ∃ n, ReachesBehaviour ns n ∧ d ∈ (checkMethods n).2 := by
  rw [List.mem_flatMap]
  constructor
  · rintro ⟨r, hr, found⟩
    obtain ⟨i, n, hn, rfl⟩ := mem_resolveAll.mp hr
    obtain ⟨behaviour, methods⟩ := (mem_findings_resolvedAt code).mp found
    obtain ⟨chain, -, reaches⟩ := exists_chain hn behaviour
    exact ⟨n, ⟨i, chain, hn, reaches⟩, methods⟩
  · rintro ⟨n, ⟨i, chain, hn, reaches⟩, methods⟩
    have walked := (ancestry_behaviour_iff (List.getElem?_eq_some_iff.mp hn).1).mpr reaches
    refine ⟨_, mem_resolveAll.mpr ⟨i, n, hn, rfl⟩, (mem_findings_resolvedAt code).mpr ⟨?_, methods⟩⟩
    rw [walked]
    rfl

theorem Violation.code (h : Violation ms d) : d.code ∈ declarationCodes := by
  cases h
  case fieldAgain => exact List.mem_cons_self
  case default => exact List.mem_cons_of_mem _ List.mem_cons_self
  case methodAgain | functionAgain => exact List.mem_cons_of_mem _ (List.mem_cons_of_mem _ List.mem_cons_self)
  case hook => exact List.mem_cons_of_mem _ (List.mem_cons_of_mem _ (List.mem_cons_of_mem _ List.mem_cons_self))

theorem Violation.isError (h : Violation ms d) : d.isError = true := by
  cases h <;> rfl

/-- What is wrong with declarations is what the linker says of them, no more and no less. -/
theorem violation_iff : Violation ms d ↔ d ∈ linkFindings ms ∧ d.code ∈ declarationCodes := by
  simp only [linkFindings, List.mem_append]
  constructor
  · intro violation
    refine ⟨?_, violation.code⟩
    cases violation with
    | fieldAgain declared fields again =>
      have found := mem_own_iff.mpr ⟨_, _, _, fields, (if_pos again).mpr rfl⟩
      exact .inl (.inr (List.mem_flatMap.mpr ⟨_, declared, found⟩))
    | @default n _ _ _ _ declared fields first written unsuited =>
      have mismatch := (mismatch?_eq_some_iff (n := n)).mpr ⟨_, written, unsuited, rfl⟩
      have found := mem_own_iff.mpr ⟨_, _, _, fields, (if_neg first).mpr mismatch⟩
      exact .inl (.inr (List.mem_flatMap.mpr ⟨_, declared, found⟩))
    | methodAgain behaviour methods again =>
      have found := mem_checkMethods_iff.mpr ⟨_, _, _, methods, (if_pos again).mpr rfl⟩
      exact .inr ((mem_resolveAll_findings_iff (.inl rfl)).mpr ⟨_, behaviour, found⟩)
    | @hook n _ _ _ _ behaviour methods first named miscounted =>
      have miscounted := (miscounted?_eq_some_iff (n := n)).mpr ⟨_, named, miscounted, rfl⟩
      have found := mem_checkMethods_iff.mpr ⟨_, _, _, methods, (if_neg first).mpr miscounted⟩
      exact .inr ((mem_resolveAll_findings_iff (.inr rfl)).mpr ⟨_, behaviour, found⟩)
    | functionAgain functions again =>
      exact .inl (.inl (.inl (.inl (mem_duplicateFunctions_iff.mpr ⟨_, _, _, _, functions, again, rfl⟩))))
  -- Reserved names and bases are refused under other codes.
  · rintro ⟨(((functions | names) | bases) | fields) | types, code⟩
    · obtain ⟨before, e, after, first, all, again, rfl⟩ := mem_duplicateFunctions_iff.mp functions
      exact .functionAgain all again
    · rw [reservedNames_code names] at code
      exact absurd code (by decide)
    · obtain ⟨i, -, said⟩ := List.mem_flatMap.mp bases
      have base := walk_findings_code said
      exfalso
      revert base code
      generalize d.code = c
      cases c <;> decide
    · obtain ⟨n, declared, said⟩ := List.mem_flatMap.mp fields
      obtain ⟨before, f, after, all, said⟩ := mem_own_iff.mp said
      split at said
      · next again => exact said ▸ .fieldAgain declared all again
      · next first =>
        obtain ⟨l, written, unsuited, rfl⟩ := mismatch?_eq_some_iff.mp said
        exact .default declared all first written unsuited
    · have methods : d.code = .duplicateMethod ∨ d.code = .hookSignature := by
        obtain ⟨r, hr, said⟩ := List.mem_flatMap.mp types
        obtain ⟨i, n, -, rfl⟩ := mem_resolveAll.mp hr
        have possible := resolveType_code said
        revert possible code
        generalize d.code = c
        cases c <;> decide
      obtain ⟨n, behaviour, said⟩ := (mem_resolveAll_findings_iff methods).mp types
      obtain ⟨before, f, after, all, said⟩ := mem_checkMethods_iff.mp said
      split at said
      · next again => exact said ▸ .methodAgain behaviour all again
      · next first =>
        obtain ⟨h, named, miscounted, rfl⟩ := miscounted?_eq_some_iff.mp said
        exact .hook behaviour all first named miscounted

/-! ## 5. What is in order -/

/-- The declarations of a corpus as they have to be. -/
structure InOrder (ms : List Module) : Prop where
  fields : ∀ n ∈ Node.ofModules ms, (n.decl.fields.map FieldDecl.name).Nodup
  defaults : ∀ n ∈ Node.ofModules ms, ∀ f ∈ n.decl.fields, ∀ l, f.default = some l → Suits f.kind l
  methods : ∀ n, ReachesBehaviour (Node.ofModules ms) n → (n.decl.methods.map FnDecl.name).Nodup
  hooks : ∀ n, ReachesBehaviour (Node.ofModules ms) n → ∀ f ∈ n.decl.methods, ∀ h : Hook, f.name = h.name →
    f.params.length = h.arity
  functions : Unambiguous (freeFunctions ms)

theorem inOrder_iff : InOrder ms ↔ ∀ d, ¬ Violation ms d := by
  constructor
  · rintro ⟨fields, defaults, methods, hooks, functions⟩ d (⟨declared, all, again⟩ |
      ⟨declared, all, first, written, unsuited⟩ | ⟨behaviour, all, again⟩ |
      ⟨behaviour, all, first, named, miscounted⟩ | ⟨all, again⟩)
    · exact nodup_map_iff.mp (fields _ declared) _ _ _ all again
    · exact unsuited (defaults _ declared _ (all ▸ List.mem_append_right _ List.mem_cons_self) _ written)
    · exact nodup_map_iff.mp (methods _ behaviour) _ _ _ all again
    · exact miscounted (hooks _ behaviour _ (all ▸ List.mem_append_right _ List.mem_cons_self) _ named)
    · have called := List.find?_some again
      rw [Unambiguous, all] at functions
      have apart := (List.pairwise_append.mp functions).2.2 _ (List.mem_of_find?_eq_some again) _ List.mem_cons_self
      exact apart _ _ ⟨called, Definition.isCalled_iff.mpr ⟨rfl, rfl⟩⟩
  · intro none
    have fields : ∀ n ∈ Node.ofModules ms, (n.decl.fields.map FieldDecl.name).Nodup := fun n declared =>
      nodup_map_iff.mpr fun _ _ _ all again => none _ (.fieldAgain declared all again)
    have methods : ∀ n, ReachesBehaviour (Node.ofModules ms) n → (n.decl.methods.map FnDecl.name).Nodup :=
      fun n behaviour => nodup_map_iff.mpr fun _ _ _ all again => none _ (.methodAgain behaviour all again)
    refine ⟨fields, ?_, methods, ?_, ?_⟩
    · intro n declared f hf l written
      obtain ⟨before, after, all⟩ := List.append_of_mem hf
      by_contra unsuited
      have first := nodup_map_iff.mp (fields n declared) before f after all
      exact none _ (.default declared all first written unsuited)
    · intro n behaviour f hf h named
      obtain ⟨before, after, all⟩ := List.append_of_mem hf
      by_contra miscounted
      have first := nodup_map_iff.mp (methods n behaviour) before f after all
      exact none _ (.hook behaviour all first named miscounted)
    · refine unambiguous_freeFunctions (Diagnostic.passes_iff.mpr fun d found => ?_)
      obtain ⟨before, e, after, first, all, again, rfl⟩ := mem_duplicateFunctions_iff.mp found
      exact absurd (.functionAgain all again) (none _)

/-- Linking a corpus without an error takes declarations in order. -/
theorem inOrder_of_passes (passed : Diagnostic.passes (linkFindings ms) = true) : InOrder ms := by
  refine inOrder_iff.mpr fun d violation => ?_
  have clean := Module.isError_of_mem passed (violation_iff.mp violation).1
  exact absurd (violation.isError.symm.trans clean) nofun

end Corpus

/-! ## 6. Units -/

namespace Compiler

/-- Each declaration of a corpus is looked at, the methods of the types that reach the built-in base among them:
    whatever is wrong with one is said of the unit as an error and keeps it from being active, and nothing else is
    said under the same codes while the files are linked.  So every declaration behind an active unit is as it has to
    be. -/
theorem declarations_checked (c : Compiler) (batch : Batch) :
    let ms := c.modules batch.files
    let u := (c.compile batch).1
    (u.isActive = true → InOrder ms) ∧ (InOrder ms ↔ ∀ d, ¬ Violation ms d) ∧
      (∀ d, Violation ms d → d ∈ u.diagnostics ∧ d.severity = .error ∧ u.isActive = false) ∧
      ∀ d ∈ linkFindings ms, d.code ∈ declarationCodes → Violation ms d := by
  intro ms u
  have gated : Gated c.debugSymbols batch ms u := (compile_gated c batch).2
  refine ⟨fun active => ?_, inOrder_iff, ?_, fun d found code => violation_iff.mpr ⟨found, code⟩⟩
  · have linked := (stands_of_active active).linked
    rw [makesPrograms, Bool.and_eq_true] at linked
    exact inOrder_of_passes linked.2
  · intro d violation
    have found := gated.mem_of_linkFindings (violation_iff.mp violation).1
    have error : d.severity = .error := eq_of_beq violation.isError
    refine ⟨found, error, ?_⟩
    rw [gated.isActive_eq, ← Bool.not_eq_true, gated.passed_iff]
    exact fun passed => passed d found error

/-- A file with a field of the type `T` and what follows it there. -/
def lamps (rest : String) : Batch :=
  ⟨[⟨"a.ks", "fn dim(x) \x7b x \x7d fn dim(x, y) \x7b y \x7d type T : Behaviour \x7b pub a: float = 1; " ++ rest ++ " \x7d",
    .time 0⟩], []⟩

theorem lamps_checked :
    let c := create toString false
    ((c.compile (lamps "fn update(ctx, dt) \x7b \x7d")).1.isActive = true ∧
      InOrder (c.modules (lamps "fn update(ctx, dt) \x7b \x7d").files)) ∧
    ∃ d, d.code = .hookSignature ∧ Violation (c.modules (lamps "fn update(dt) \x7b \x7d").files) d ∧
      (c.compile (lamps "fn update(dt) \x7b \x7d")).1.isActive = false := by
  intro c
  obtain ⟨active, said⟩ : (c.compile (lamps "fn update(ctx, dt) \x7b \x7d")).1.isActive = true ∧
      ∃ d ∈ linkFindings (c.modules (lamps "fn update(dt) \x7b \x7d").files), d.code = .hookSignature := by
    decide +kernel
  refine ⟨⟨active, (declarations_checked c _).1 active⟩, ?_⟩
  obtain ⟨-, -, blocked, known⟩ := declarations_checked c (lamps "fn update(dt) \x7b \x7d")
  obtain ⟨d, found, code⟩ := said
  have violation := known d found (by rw [code]; decide)
  exact ⟨d, code, violation, (blocked d violation).2.2⟩

/-- The methods of a type that does not reach the built-in base are not looked at. -/
theorem plain_type_unchecked :
    let c := create toString false
    let batch : Batch := ⟨[⟨"a.ks", "type P \x7b fn a() \x7b \x7d fn a() \x7b \x7d \x7d\n", .time 0⟩], []⟩
    (c.compile batch).1.isActive = true ∧ (∀ d ∈ (c.compile batch).1.diagnostics, d.code ∉ declarationCodes) ∧
      ∃ n ∈ Node.ofModules (c.modules batch.files), ¬ (n.decl.methods.map FnDecl.name).Nodup := by
  decide +kernel

end Compiler

end ScriptHost
