import Mathlib
import ScriptHost.Proofs.Declaration.Integer
import ScriptHost.Proofs.Registry.Inheritance

/-!
# Default — the integer that a field starts with

What a module says a field starts with is what linking gives it, wherever its type descends from.  So a field can start
with every integer of 64 bits with a sign but the least one, and a unit in which it is to start with any other integer
is rejected.
-/

namespace ScriptHost

open Corpus
open Declaration (FieldDecl Slot Tree TypeDecl Written parse tooLarge wanted)
open Diagnostic (passes)
open Text (Position)

namespace Corpus

variable {ms : List Module} {n : Node} {i : Nat} {f : FieldDecl} {t : TypeDecl}

/-- Linked without an error, a type has every field that it declares itself. -/
theorem ofDecl_mem_fields (passed : passes (linkFindings ms) = true) (hn : (Node.ofModules ms)[i]? = some n)
    (hf : f ∈ n.decl.fields) : FieldSpec.ofDecl n.name f ∈ (resolvedAt (Node.ofModules ms) i n).type.fields := by
  have inside : i < (Node.ofModules ms).length := (List.getElem?_eq_some_iff.mp hn).1
  -- A chain that comes to an end has its fields besides others.
  have arrives {chain : List Nat} (h : Arrives (Node.ofModules ms) i chain) :
      FieldSpec.ofDecl n.name f ∈ (resolvedAt (Node.ofModules ms) i n).type.fields := by
    obtain ⟨bases, rfl, -⟩ := h.split_last
    rw [fields_of_passes passed hn h]
    refine List.mem_map.mpr ⟨(n, f), List.mem_flatMap.mpr ⟨i, List.mem_append_right _ (List.mem_singleton_self i), ?_⟩,
      rfl⟩
    rw [hn]
    exact List.mem_map.mpr ⟨f, hf, rfl⟩
  cases descends : (walk (Node.ofModules ms) i).ancestry with
  | behaviour chain => exact arrives (.inl ((ancestry_behaviour_iff inside).mp descends))
  | plain chain => exact arrives (.inr ((ancestry_plain_iff inside).mp descends))
  | broken =>
    -- Without a chain there are no others.
    have alone : (resolvedAt (Node.ofModules ms) i n).type.fields = (FieldSpec.own n).1 := by
      have own : ownFields (Node.ofModules ms) i = (FieldSpec.own n).1 := by
        rw [ownFields, List.getElem?_map, hn]
        rfl
      rw [fields_resolvedAt, chain_resolvedAt, descends, ← own]
      show FieldSpec.extend [] (ownFields (Node.ofModules ms) i) = _
      exact FieldSpec.extend_of_apart (distinct_ownFields _ i) fun _ _ _ h => absurd h List.not_mem_nil
    rw [alone, own_of_nodup ((inOrder_of_passes passed).fields n (List.mem_of_getElem? hn))]
    exact List.mem_map.mpr ⟨f, hf, rfl⟩

/-- So has the type that linking makes of it. -/
theorem exists_linked {path text : String} {emit : Bool} (passed : passes (link ms emit).diagnostics = true)
    (read : Module.read path text ∈ ms) (ht : t ∈ (parse text).1.types) (hf : f ∈ t.fields) :
    ∃ type ∈ (link ms emit).types, type.name = t.name ∧ FieldSpec.ofDecl t.name f ∈ type.fields := by
  have passed : passes (linkFindings ms) = true := passed
  obtain ⟨n, hn, rfl⟩ : ∃ n ∈ Node.ofModules ms, n.decl = t := by
    have declared : t ∈ (Module.read path text).types.map TypeModule.decl := by
      rw [Module.map_decl ⟨_, _, rfl⟩]
      exact ht
    obtain ⟨type, there, rfl⟩ := List.mem_map.mp declared
    exact ⟨_, List.mem_flatMap.mpr ⟨_, read, List.mem_map.mpr ⟨type, there, rfl⟩⟩, rfl⟩
  obtain ⟨i, hi⟩ := List.mem_iff_getElem?.mp hn
  have field := ofDecl_mem_fields passed hi hf
  have resolved := mem_resolveAll.mpr ⟨i, n, hi, rfl⟩
  by_cases made : makesPrograms ms emit = true
  · rw [types_of_makes made]
    refine ⟨_, List.mem_map.mpr ⟨_, resolved, rfl⟩, equip_name _ _ _, ?_⟩
    rw [Compiler.fields_equip]
    exact field
  · rw [types_of_not_makes made]
    exact ⟨_, List.mem_map.mpr ⟨_, resolved, rfl⟩, rfl, field⟩

end Corpus

namespace Compiler

variable {c : Compiler} {batch : Batch}

/-- A fault of a file is reported where it stands, and the unit is rejected. -/
theorem reported_of_fault {path text : String} {fault : Declaration.Fault}
    (read : Module.read path text ∈ c.modules batch.files) (found : fault ∈ (parse text).2) :
    (c.compile batch).1.isActive = false ∧
      ⟨.declarationSyntax fault.cause, .atPosition path fault.position⟩ ∈ (c.compile batch).1.diagnostics := by
  have gated : Gated c.debugSymbols batch (c.modules batch.files) (c.compile batch).1 := build_gated _ _ _ _
  obtain ⟨refused, last, -, reported, -⟩ := gated.reported
  have said : ⟨.declarationSyntax fault.cause, .atPosition path fault.position⟩ ∈
      (c.compile batch).1.diagnostics := by
    rw [reported]
    refine List.mem_append_left _ (List.mem_append_left _ (List.mem_append_left _ (List.mem_append_right _ ?_)))
    exact List.mem_flatMap.mpr ⟨_, read, Module.mem_diagnostics_of_fault path found⟩
  refine ⟨?_, said⟩
  rw [gated.isActive_eq]
  exact Bool.eq_false_iff.mpr fun passed => gated.passed_iff.mp passed _ said rfl

/-- Every integer can be written, and be put in the place of one that a field starts with.  If it and its negation fit
    into 64 bits with a sign, the module is read without a fault, and linking gives it to the field.  With any other
    integer the field is lost, and every unit with the module is rejected, with a syntax error where the digits stand.
    All else is read as before.  A minus in front of an integer that the lexer hands out never leads out of 64 bits. -/
theorem int_default_exact {source : String} {tree : Tree} {t : TypeDecl} {f : FieldDecl} {m : Int}
    (clean : parse source = (tree, [])) (ht : t ∈ tree.types) (hf : f ∈ t.fields) (kind : f.kind = .int)
    (written : f.default = some (.int m)) :
    (∀ n, ∃ sign digits, Written n sign digits) ∧
    (∃ (s : Slot f) (sign digits : List Char), Written m sign digits ∧ source = s.text sign digits ∧
      t = s.type (.field f :: s.others) ∧ tree = s.tree (.field f :: s.others) s.behind ∧
      ∀ n sign digits, Written n sign digits →
        let text := s.text sign digits
        let others := s.others.map (·.moved (s.moved sign digits))
        let behind := s.behind.map (·.moved (s.moved sign digits))
        (-2 ^ 63 < n ∧ n < 2 ^ 63 →
          parse text = (s.tree (.field { f with default := some (.int n) } :: others) behind, []) ∧
          ∀ path ms emit, Module.read path text ∈ ms → passes (link ms emit).diagnostics = true →
            ∃ type ∈ (link ms emit).types, type.name = t.name ∧
              ⟨f.name, .int, f.isPublic, .int n, t.name⟩ ∈ type.fields) ∧
        (¬ (-2 ^ 63 < n ∧ n < 2 ^ 63) →
          ∃ fault, fault.position = Position.start.after (s.front ++ sign) ∧
            fault.cause = .expected (wanted sign) (tooLarge digits) ∧ parse text = (s.tree others behind, [fault]) ∧
            ∀ path (c : Compiler) batch, Module.read path text ∈ c.modules batch.files →
              (c.compile batch).1.isActive = false ∧ ∃ d ∈ (c.compile batch).1.diagnostics,
                d.code.id = "KS0101" ∧ d.location = .atPosition path fault.position)) ∧
    ∀ (c : Declaration.Cursor) k, c.next.1.token = .int k → (-Int64.ofNat k).toInt = -(k : Int) := by
  refine ⟨fun n => ⟨_, _, Declaration.written_toDigits n⟩, ?_, fun c k => Declaration.Cursor.neg_next_int⟩
  -- The text is taken apart at the integer, so that another one can be put there.
  obtain ⟨s, sign, digits, isWritten, same, rfl, rfl⟩ := Declaration.exists_slot clean ht hf written
  refine ⟨s, sign, digits, isWritten, same, rfl, rfl, fun n sign digits isWritten => ⟨fun fits => ?_, fun unfit => ?_⟩⟩
  · have read := s.parse_fits isWritten fits
    refine ⟨read, fun path ms emit mem passed => ?_⟩
    have declared : s.type (.field { f with default := some (.int n) } ::
        s.others.map (·.moved (s.moved sign digits))) ∈ (parse (s.text sign digits)).1.types := by
      rw [read]
      exact s.type_mem_tree _ _
    obtain ⟨type, linked, name, field⟩ := exists_linked passed mem declared (s.field_mem_type _ _)
    rw [FieldSpec.ofDecl, kind] at field
    exact ⟨type, linked, name, field⟩
  · have read := s.parse_unfit isWritten unfit
    refine ⟨_, rfl, rfl, read, fun path c batch mem => ?_⟩
    obtain ⟨rejected, said⟩ := reported_of_fault mem (by rw [read]; exact List.mem_singleton_self _)
    exact ⟨rejected, _, said, rfl, rfl⟩

/-- A lamp whose level starts at zero. -/
def levelled : String := "type Lamp : Behaviour \x7b pub level: int = 0; \x7d"

/-- Its field. -/
def level : FieldDecl := ⟨"level", .int, true, some (.int 0), ⟨1, 29⟩⟩

/-- The level can start one step above the least integer of 64 bits, but not with it. -/
theorem level_starts_above_least :
    ∃ tree t, parse levelled = (tree, []) ∧ t ∈ tree.types ∧ level ∈ t.fields ∧ level.kind = .int ∧
      level.default = some (.int 0) ∧ ∃ (s : Slot level) (sign digits : List Char), levelled = s.text sign digits ∧
        (parse (s.text ['-'] "9_223_372_036_854_775_807".toList)).2 = [] ∧
        (parse (s.text ['-'] "9_223_372_036_854_775_808".toList)).2.length = 1 := by
  have faultless : (parse levelled).2 = [] := by decide +kernel
  have types : (parse levelled).1.types = [⟨"Lamp", some ("Behaviour", ⟨1, 13⟩), false, [level], [], ⟨1, 6⟩⟩] := by cbv
  have clean : parse levelled = ((parse levelled).1, []) := by rw [← faultless]
  have type : ⟨"Lamp", some ("Behaviour", ⟨1, 13⟩), false, [level], [], ⟨1, 6⟩⟩ ∈ (parse levelled).1.types := by
    rw [types]
    exact List.mem_singleton_self _
  have field : level ∈ [level] := List.mem_singleton_self _
  obtain ⟨-, ⟨s, sign, digits, -, same, -, -, every⟩, -⟩ := int_default_exact clean type field rfl rfl
  have run : Declaration.IsRun "9_223_372_036_854_775_807".toList := ⟨rfl, List.all_eq_true.mp (by decide +kernel)⟩
  have run' : Declaration.IsRun "9_223_372_036_854_775_808".toList := ⟨rfl, List.all_eq_true.mp (by decide +kernel)⟩
  obtain ⟨fits, -⟩ := every _ _ _ (.negative .none run)
  obtain ⟨-, unfit⟩ := every _ _ _ (.negative .none run')
  obtain ⟨read, -⟩ := fits (by decide +kernel)
  obtain ⟨fault, -, -, lost, -⟩ := unfit (by decide +kernel)
  exact ⟨_, _, clean, type, field, rfl, rfl, s, sign, digits, same, congrArg Prod.snd read, by rw [lost]; rfl⟩

/-- The least integer of 64 bits is refused like those below it, as its digits are bounded without their sign. -/
theorem least_integer_refused :
    let text := "type T : Behaviour \x7b pub x: int = -9223372036854775808; \x7d\n"
    Written (-2 ^ 63) ['-'] "9223372036854775808".toList ∧
      (parse text).1.types.map (·.fields.length) = [0] ∧ (parse text).2 =
        [⟨.expected "a number after `-`" (.invalid "integer `9223372036854775808` is out of range"), ⟨1, 36⟩⟩] ∧
      ((create toString false).compile ⟨[⟨"a.ks", text, .time 0⟩], []⟩).1.isActive = false := by
  refine ⟨?_, by decide +kernel, by decide +kernel, by decide +kernel⟩
  have run : Declaration.IsRun "9223372036854775808".toList := ⟨rfl, List.all_eq_true.mp (by decide +kernel)⟩
  have value : Decimal.natOfDigits (Declaration.digitsOf "9223372036854775808".toList) = 2 ^ 63 := by decide +kernel
  have written := Written.negative .none run
  rw [value] at written
  exact written

end Compiler

end ScriptHost
