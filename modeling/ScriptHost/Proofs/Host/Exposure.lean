import ScriptHost.Proofs.Compiler.Dispatch
import ScriptHost.Proofs.Corpus.Fields
import ScriptHost.Proofs.Field.Table
import ScriptHost.Proofs.Host.Run

/-!
# Exposure — which fields of an instance can be seen and set

A script may do to its fields what it likes.  What a host shows of them was settled when the active unit was
linked: the table of a registered type lists fields that its chain declares as public, and every access goes
through the table.
-/

namespace ScriptHost

open Corpus (Node ScriptType ReachesBuiltIn resolvedAt equip exposes)

/-! ## 1. Where the active unit comes from -/

theorem Compiler.after_concat (c : Compiler) (history : List Compilation) (now : Compilation) :
    c.after (history ++ [now]) = ((c.after history).perform now).2 := by
  rw [after, List.foldl_append]
  rfl

namespace Host

variable {h h' : Host} {naming : Nat → String} {debugSymbols : Bool}

/-- The compiler of a host has made units one after the other, and the active one is among them. -/
structure Compiled (naming : Nat → String) (debugSymbols : Bool) (h : Host) : Prop where
  compiler : ∃ history, h.compiler = (Compiler.create naming debugSymbols).after history
  active : ∀ u, h.active = some u → u.passed = true ∧
    ∃ past now, u = (((Compiler.create naming debugSymbols).after past).perform now).1

theorem compiled_create (config : Config) (naming : Nat → String) :
    (create config naming).Compiled naming config.scripts.debugSymbols where
  compiler := ⟨[], rfl⟩
  active := nofun

/-- What does not compile changes neither. -/
theorem Compiled.of_same (made : h.Compiled naming debugSymbols) (compiler : h'.compiler = h.compiler)
    (active : h'.active = h.active) : h'.Compiled naming debugSymbols where
  compiler := by
    rw [compiler]
    exact made.compiler
  active := by
    rw [active]
    exact made.active

theorem Compiled.withWatcher (made : h.Compiled naming debugSymbols) (w : Watcher) :
    ({ h with watcher := w } : Host).Compiled naming debugSymbols := made.of_same rfl rfl

theorem Compiled.reload (made : h.Compiled naming debugSymbols) (batch : Batch) :
    (h.reload batch).2.Compiled naming debugSymbols := by
  obtain ⟨history, compiler⟩ := made.compiler
  let now : Compilation := ⟨batch, h.compiler.debugSymbols⟩
  have unit : (h.compiler.compile batch).1 =
      (((Compiler.create naming debugSymbols).after history).perform now).1 := by
    rw [← compiler]
    rfl
  have behind : (h.compiler.compile batch).2 =
      (Compiler.create naming debugSymbols).after (history ++ [now]) := by
    rw [Compiler.after_concat, ← compiler]
    rfl
  rw [reload_eq]
  rcases activate_cases { h with compiler := (h.compiler.compile batch).2 } (h.compiler.compile batch).1 with
    ⟨passed, he⟩ | ⟨-, he⟩
  · rw [he]
    refine ⟨⟨history ++ [now], behind⟩, fun u hu => ?_⟩
    obtain rfl : (h.compiler.compile batch).1 = u := Option.some.inj hu
    exact ⟨passed, history, now, unit⟩
  · rw [he]
    exact ⟨⟨history ++ [now], behind⟩, made.active⟩

theorem Compiled.reloadIfChanged (made : h.Compiled naming debugSymbols) (notices : List Notice) (fs : Files) :
    (h.reloadIfChanged notices fs).2.Compiled naming debugSymbols := by
  rcases reloadIfChanged_eq h notices fs with he | he
  · rw [he]
    exact made.withWatcher _
  · rw [he]
    exact (made.withWatcher _).reload _

theorem compiler_dispatchInputs (h : Host) (es : List InputEvent) :
    (es.foldl dispatchInput h).compiler = h.compiler := by
  induction es generalizing h with
  | nil => rfl
  | cons e es ih => exact ih (h.dispatchInput e)

theorem Compiled.frame (made : h.Compiled naming debugSymbols) (notices : List Notice) (fs : Files) (dt : Float32)
    (input : FrameInput) : (h.frame notices fs dt input).2.Compiled naming debugSymbols := by
  have given : ({ h with input := input } : Host).Compiled naming debugSymbols := made.of_same rfl rfl
  exact (given.reloadIfChanged notices fs).of_same (compiler_dispatchInputs _ input.events)
    (active_dispatchInputs _ input.events)

theorem Compiled.setField (made : h.Compiled naming debugSymbols) (e : Entity) (typeName field : String)
    (v : Field.Value) : (h.setField e typeName field v).2.Compiled naming debugSymbols := by
  rcases setField_cases h e typeName field v with same | ⟨fields, put⟩
  · rw [same]
    exact made
  · rw [put]
    exact made.of_same rfl rfl

theorem Compiled.perform (made : h.Compiled naming debugSymbols) (c : Call) :
    (h.perform c).2.Compiled naming debugSymbols := by
  cases c with
  | frame notices fs dt input => exact made.frame notices fs dt input
  | setField e typeName field value => exact made.setField e typeName field value
  | reload batch => exact made.reload batch
  | forceReload fs =>
    show (h.forceReload fs).2.Compiled naming debugSymbols
    rw [forceReload_eq]
    exact (made.withWatcher _).reload _
  | reloadIfChanged notices fs => exact made.reloadIfChanged notices fs
  -- The other calls are none of the compiler's.
  | attach | detach | detachEntity | tick | dispatchInput | dispatchCollision | takeErrors | takeCommands
  | takeLogs => exact made.of_same rfl rfl

theorem Compiled.run (made : h.Compiled naming debugSymbols) (calls : List Call) :
    (h.run calls).Compiled naming debugSymbols := by
  induction calls generalizing h with
  | nil => exact made
  | cons c calls ih => exact ih (made.perform c)

end Host

/-! ## 2. The table of a registered type -/

namespace Registry

variable {types : List ScriptType} {t : ScriptType} {entry : RegistryEntry}

theorem instantiable_of_register? (h : register? types t = some entry) :
    t.isInstantiable = true ∧ entry.table = (TypeDescriptor.ofType t).table := by
  rw [register?] at h
  split at h
  · cases h
  · next accepted =>
    obtain ⟨p, -, rfl⟩ := Option.map_eq_some_iff.mp h
    rw [Bool.or_eq_true, not_or, Bool.not_eq_true', Bool.not_eq_false] at accepted
    exact ⟨accepted.1, rfl⟩

/-- The table of a type lists the fields that it exposes. -/
theorem accessors_table (t : ScriptType) :
    ((TypeDescriptor.ofType t).table.accessors.map fun a => (a.name, a.kind)) = t.exposed := by
  simp only [TypeDescriptor.table, TypeDescriptor.ofType, Field.Table.ofFields, ScriptType.publicFields,
    ScriptType.exposed, List.map_map, List.filter_map, List.filter_filter]
  exact congrArg (List.map _) (List.filter_congr fun f _ => Bool.and_comm f.kind.isSupported f.isPublic)

theorem distinct_table (distinct : Corpus.FieldSpec.Distinct t.fields) :
    (TypeDescriptor.ofType t).table.Distinct := by
  have names : ((TypeDescriptor.ofType t).table.accessors.map (·.name)) = t.exposed.map (·.1) := by
    rw [← accessors_table, List.map_map]
    rfl
  show ((TypeDescriptor.ofType t).table.accessors.map (·.name)).Nodup
  rw [names, ScriptType.exposed, List.map_map]
  exact distinct.sublist (List.filter_sublist.map _)

end Registry

namespace Compiler

variable {c : Compiler} {batch : Batch} {i : Nat} {n : Node} {t : ScriptType}

/-- The fields of an equipped type are those of its chain. -/
theorem fields_equip (ms : List Corpus.Module) (ns : List Node) (i : Nat) (n : Node) :
    (equip ms ns (resolvedAt ns i n)).fields = (resolvedAt ns i n).type.fields := by
  have same := congrArg ScriptType.fields (equip_rest ms ns (resolvedAt ns i n))
  exact same

/-- What is registered for a name is a type of that name whose walk reaches the built-in base. -/
theorem exists_registered {entry : RegistryEntry} {name : String} (active : (c.compile batch).1.isActive = true)
    (found : (Registry.ofUnit (c.compile batch).1).get? name = some entry) :
    let ns := Node.ofModules (c.modules batch.files)
    ∃ i n t chain, ns[i]? = some n ∧ (c.compile batch).1.types[i]? = some t ∧
      t = equip (c.modules batch.files) ns (resolvedAt ns i n) ∧ t.name = name ∧ n.name = name ∧
      ReachesBuiltIn ns i chain ∧ Registry.register? (c.compile batch).1.types t = some entry := by
  intro ns
  have stands := stands_of_active active
  obtain ⟨t, ht, named, registered⟩ := Registry.exists_type_of_get?_ofUnit found
  obtain ⟨i, hi⟩ := List.mem_iff_getElem?.mp ht
  obtain ⟨n, hn, made⟩ := exists_resolvedAt stands hi
  change t = equip (c.modules batch.files) ns (resolvedAt ns i n) at made
  have rest := equip_rest (c.modules batch.files) ns (resolvedAt ns i n)
  rw [← made] at rest
  obtain ⟨instantiable, -⟩ := Registry.instantiable_of_register? registered
  -- Only a behaviour type is registered, so its walk reaches the built-in base.
  have behaviour : (resolvedAt ns i n).type.isBehaviour = true := by
    rw [ScriptType.isInstantiable, Bool.and_eq_true] at instantiable
    have same := congrArg ScriptType.isBehaviour rest
    exact same.symm.trans instantiable.1
  obtain ⟨chain, -, reaches⟩ := Corpus.exists_chain hn behaviour
  have name_eq : n.name = t.name := (congrArg ScriptType.name rest).symm
  exact ⟨i, n, t, chain, hn, hi, made, named, name_eq.trans named, reaches, registered⟩

/-- A registered type of an active unit has a table of what its chain exposes. -/
theorem exists_table {entry : RegistryEntry} {name : String} (passed : (c.compile batch).1.passed = true)
    (found : (Registry.ofUnit (c.compile batch).1).get? name = some entry) :
    let ns := Node.ofModules (c.modules batch.files)
    ∃ i n chain, ns[i]? = some n ∧ n.name = name ∧ ReachesBuiltIn ns i chain ∧
      entry.table.typeName = name ∧ entry.table.Distinct ∧
      (entry.table.accessors.map fun a => (a.name, a.kind)).Sublist (exposes ns chain) := by
  intro ns
  obtain ⟨i, n, t, chain, hn, -, made, named, declared, reaches, registered⟩ :=
    exists_registered ((build_gated ..).isActive_eq.trans passed) found
  obtain ⟨-, table⟩ := Registry.instantiable_of_register? registered
  have fields : t.fields = (resolvedAt ns i n).type.fields := made ▸ fields_equip _ ns i n
  refine ⟨i, n, chain, hn, declared, reaches, ?_, ?_, ?_⟩
  · rw [table]
    exact named
  · rw [table]
    refine Registry.distinct_table ?_
    rw [fields]
    exact Corpus.FieldSpec.distinct_ofChain _ _
  · rw [table, Registry.accessors_table]
    have exposed := Corpus.exposed_resolveType_sublist ns i n (Corpus.walk ns i).ancestry
    have along : (Corpus.walk ns i).ancestry.chain i = chain := Corpus.chain_of_reaches hn reaches
    rw [along] at exposed
    rw [ScriptType.exposed, fields]
    exact exposed

end Compiler

/-! ## 3. Every reachable host -/

namespace Host

variable {h : Host} {e : Entity} {typeName : String} {a : Attachment} {i : Instance}
  {offered : List (String × Field.Kind)}

/-- What a host gives away of an instance of a type on an entity, where so much is declared to be open. -/
structure Exposes (h : Host) (e : Entity) (typeName : String) (offered : List (String × Field.Kind))
    (entries : List Field.Entry) : Prop where
  listed : h.listFields e typeName = .ok entries
  /-- Fields are listed in the order of their declarations, each once, and with values of their kinds. -/
  declared : (entries.map fun f => (f.name, f.kind)).Sublist offered
  distinct : (entries.map (·.name)).Nodup
  kinds : ∀ f ∈ entries, f.value.kind = f.kind
  /-- Every other name is refused, whatever the instance holds under it. -/
  hidden : ∀ field, field ∉ offered.map (·.1) →
    h.getField e typeName field = .error (.notExposed typeName field) ∧
      ∀ v, h.setField e typeName field v = (.error (.notExposed typeName field), h)
  /-- What is listed can be read, and nothing else can. -/
  read : ∀ field v, h.getField e typeName field = .ok v ↔
    ∃ kind, (⟨field, kind, v⟩ : Field.Entry) ∈ entries
  /-- Who is refused changes nothing. -/
  refused : ∀ field v refusal, (h.setField e typeName field v).1 = .error refusal →
    (h.setField e typeName field v).2 = h ∧ (h.perform (.setField e typeName field v)).2 = h

/-- What is inspected is the instance with the table of its type. -/
theorem inspect_eq {entry : RegistryEntry} (registered : h.registry.get? typeName = some entry)
    (found : h.lifecycle.find? e typeName = some a) (running : a.running = some i) :
    h.inspect e typeName = .ok (entry.table, i) := by
  simp only [inspect, registered, found, Option.bind_some, running]

theorem exists_of_inspect {table : Field.Table} (inspected : h.inspect e typeName = .ok (table, i)) :
    ∃ a, h.lifecycle.find? e typeName = some a ∧ a.running = some i := by
  rw [inspect] at inspected
  split at inspected
  · exact nomatch inspected
  · split at inspected
    · exact nomatch inspected
    · rename_i held
      obtain ⟨-, rfl⟩ := Prod.mk.inj (Except.ok.inj inspected)
      exact Option.bind_eq_some_iff.mp held

/-- A write that is refused puts back what was there. -/
theorem setField_of_error (distinct : h.lifecycle.keys.Nodup) {field : String} {v : Field.Value}
    {refusal : Field.Refusal} (error : (h.setField e typeName field v).1 = .error refusal) :
    (h.setField e typeName field v).2 = h := by
  rw [setField] at error ⊢
  cases inspected : h.inspect e typeName with
  | error unknown => rfl
  | ok found =>
    obtain ⟨table, i⟩ := found
    rw [inspected] at error
    obtain ⟨a, found, running⟩ := exists_of_inspect inspected
    dsimp only at error ⊢
    rw [Field.Table.put_of_error error]
    exact congrArg (fun l => { h with lifecycle := l }) (Lifecycle.putFields_self distinct found running)

theorem exposes_of_table (unique : h.lifecycle.keys.Nodup) {entry : RegistryEntry} (inspected : h.inspect e typeName = .ok (entry.table, i))
    (named : entry.table.typeName = typeName) (distinct : entry.table.Distinct)
    (declared : (entry.table.accessors.map fun a => (a.name, a.kind)).Sublist offered) :
    h.Exposes e typeName offered (entry.table.list i.store) where
  listed := by
    rw [listFields, inspected]
    rfl
  declared := (Field.Table.list_sublist _ _).trans declared
  distinct := distinct.list i.store
  kinds := fun f => Field.Table.kind_of_mem_list
  hidden := by
    intro field absent
    have unlisted : field ∉ entry.table.accessors.map (·.name) := by
      have names := declared.map Prod.fst
      rw [List.map_map] at names
      exact fun mem => absent (names.subset mem)
    -- A field that is not in the table is neither read nor written, whatever the store holds.
    constructor
    · rw [getField, inspected]
      show entry.table.get i.store field = _
      rw [Field.Table.get_of_not_mem unlisted, named]
    · intro v
      have refused : (h.setField e typeName field v).1 = .error (.notExposed typeName field) := by
        rw [setField, inspected]
        dsimp only
        rw [Field.Table.put, Field.Table.accessor_of_not_mem unlisted, named]
      exact Prod.ext refused (setField_of_error unique refused)
  read := by
    intro field v
    rw [getField, inspected]
    exact Field.Table.get_eq_ok_iff distinct
  refused := by
    intro field v refusal error
    have same := setField_of_error unique error
    exact ⟨same, same⟩

/-- In every host that can be reached, whatever its scripts have done, an instance shows the fields that the
    types of its chain declare as public and of a kind that can be edited, in the active unit, and no others. -/
theorem fields_exposed (config : Config) (naming : Nat → String) (calls : List Call)
    (found : ((create config naming).run calls).lifecycle.find? e typeName = some a)
    (running : a.running = some i) :
    ∃ past now k n chain entries,
      let c := (Compiler.create naming config.scripts.debugSymbols).after past
      let ns := Node.ofModules (c.modules now.batch.files)
      ((create config naming).run calls).active = some (c.perform now).1 ∧
        ns[k]? = some n ∧ n.name = typeName ∧ ReachesBuiltIn ns k chain ∧
        ((create config naming).run calls).Exposes e typeName (exposes ns chain) entries := by
  have sound := (sound_create config naming).run calls
  have made := (compiled_create config naming).run calls
  generalize (create config naming).run calls = h at sound made found ⊢
  have mem := List.mem_of_find?_eq_some found
  have typed : a.typeName = typeName := by
    have is := List.find?_some found
    rw [Attachment.isFor, Bool.and_eq_true] at is
    exact eq_of_beq is.2
  -- An instance runs what is registered, so there is a unit.
  obtain ⟨entry, registered, -⟩ := ((sound.lifecycle.attachments a mem).runs i running).program
  rw [typed] at registered
  have inspected := inspect_eq registered found running
  rw [sound.registry] at registered
  cases hu : h.active with
  | none =>
    rw [hu] at registered
    exact absurd registered.symm (Option.some_ne_none entry)
  | some u =>
    rw [hu] at registered
    obtain ⟨passed, past, now, rfl⟩ := made.active u hu
    obtain ⟨k, n, chain, there, named, reaches, of, distinct, declared⟩ :=
      @Compiler.exists_table _ now.batch _ _ passed registered
    exact ⟨past, now, k, n, chain, _, rfl, there, named, reaches,
      exposes_of_table sound.lifecycle.distinct inspected of distinct declared⟩

/-- A lamp whose script adds a field to its own and puts a text where a number was declared. -/
def lampCalls : List Call := [
  .reload ⟨[⟨"lamp.ks", "abstract type Glow : Behaviour \x7b pub level: int = 3; let wear: int; \x7d
    type Lamp : Glow \x7b pub tone: int; pub marks: array;
      fn on_create(ctx) \x7b this.extra = 7; this.tone = \"high\"; \x7d \x7d", default⟩], []⟩,
  .attach (.first 0) "Lamp", .tick 0]

/-- Of the fields of the lamp one is left to show. -/
theorem lamp_exposed :
    let h := (create .standard toString).run lampCalls
    ((h.lifecycle.find? (.first 0) "Lamp").bind (·.running)).isSome = true ∧
      (h.listFields (.first 0) "Lamp").toOption.map (·.map (·.name)) = some ["level"] ∧
      ∃ past now k n chain entries,
        let c := (Compiler.create toString Config.standard.scripts.debugSymbols).after past
        let ns := Node.ofModules (c.modules now.batch.files)
        h.active = some (c.perform now).1 ∧ ns[k]? = some n ∧ n.name = "Lamp" ∧ ReachesBuiltIn ns k chain ∧
          h.Exposes (.first 0) "Lamp" (exposes ns chain) entries := by
  intro h
  obtain ⟨held, listed⟩ : ((h.lifecycle.find? (.first 0) "Lamp").bind (·.running)).isSome = true ∧
      (h.listFields (.first 0) "Lamp").toOption.map (·.map (·.name)) = some ["level"] := by
    decide +kernel
  obtain ⟨i, hi⟩ := Option.isSome_iff_exists.mp held
  obtain ⟨a, found, running⟩ := Option.bind_eq_some_iff.mp hi
  exact ⟨held, listed, fields_exposed .standard toString lampCalls found running⟩

end Host

end ScriptHost
