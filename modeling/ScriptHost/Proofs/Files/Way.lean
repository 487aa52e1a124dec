import ScriptHost.Proofs.Files.Tree
import ScriptHost.Proofs.Step

/-!
# Ways — where a path leads

A way that leads somewhere is a derivation: a step within a directory, a step into one, a link taken in
place of its name, or the last name.  What is said of a way below is by induction on how it leads there.
-/

namespace ScriptHost.Files

/-- How the steps of a way lead from one place to another. -/
inductive Leads (fs : Files) (throughLast : Bool) :
    Nat → List String → List String → List String → Prop
  | done {links here} : Leads fs throughLast links here [] here
  | current {links here rest names} (more : Leads fs throughLast links here rest names) :
      Leads fs throughLast links here ("." :: rest) names
  | parent {links here rest names} (more : Leads fs throughLast links here.dropLast rest names) :
      Leads fs throughLast links here (".." :: rest) names
  | enter {links here name rest names} (plain : name ≠ "." ∧ name ≠ "..")
      (directory : fs.node? (here ++ [name]) = some .directory)
      (more : Leads fs throughLast links (here ++ [name]) rest names) :
      Leads fs throughLast links here (name :: rest) names
  | last {links here name} (plain : name ≠ "." ∧ name ≠ "..")
      (other : fs.node? (here ++ [name]) ≠ some .directory)
      (final : ∀ target time, fs.node? (here ++ [name]) = some (.link target time) → throughLast = false) :
      Leads fs throughLast links here [name] (here ++ [name])
  | through {links here name rest target time names} (plain : name ≠ "." ∧ name ≠ "..")
      (link : fs.node? (here ++ [name]) = some (.link target time))
      (followed : rest ≠ [] ∨ throughLast = true)
      (more : Leads fs throughLast links (if target.startsWith "/" then [] else here)
        (steps target ++ rest) names) :
      Leads fs throughLast (links + 1) here (name :: rest) names

/-- One step over a name. -/
theorem follow_name {fs : Files} {throughLast : Bool} {links : Nat} {here rest : List String}
    {name : String} (plain : name ≠ "." ∧ name ≠ "..") :
    fs.follow throughLast links here (name :: rest) =
      match fs.node? (here ++ [name]) with
      | some .directory => fs.follow throughLast links (here ++ [name]) rest
      | some (.file ..) => if rest.isEmpty then .ok (here ++ [name]) else .error .notDirectory
      | none => if rest.isEmpty then .ok (here ++ [name]) else .error .notFound
      | some (.link target _) =>
        if rest.isEmpty && !throughLast then .ok (here ++ [name])
        else
          match links with
          | 0 => .error .linkLoop
          | links + 1 =>
            fs.follow throughLast links (if target.startsWith "/" then [] else here)
              (steps target ++ rest) :=
  follow.eq_4 fs throughLast links here name rest plain.1 plain.2

/-- A link is followed unless it ends the way and is meant itself. -/
theorem followed_iff {rest : List String} {throughLast : Bool} :
    ¬(rest.isEmpty && !throughLast) = true ↔ rest ≠ [] ∨ throughLast = true := by
  cases rest <;> cases throughLast <;> simp

/-- A way leads somewhere just when following it ends there. -/
theorem follow_eq_ok {fs : Files} {throughLast : Bool} {links : Nat} {here way names : List String} :
    fs.follow throughLast links here way = .ok names ↔ Leads fs throughLast links here way names := by
  constructor
  · intro h
    fun_induction follow fs throughLast links here way
    case case1 => cases h; exact .done
    case case2 ih => exact .current (ih h)
    case case3 ih => exact .parent (ih h)
    case case4 c p next node ih => exact .enter ⟨c, p⟩ node (ih h)
    -- The last name: a file, nothing, or a link that is not followed.
    case case5 rest c p next bytes time node empty =>
      rw [← Except.ok.inj h, List.isEmpty_iff.1 empty]
      exact .last ⟨c, p⟩ (by rw [node]; simp) (by rw [node]; simp)
    case case7 rest c p next node empty =>
      rw [← Except.ok.inj h, List.isEmpty_iff.1 empty]
      exact .last ⟨c, p⟩ (by rw [node]; simp) (by rw [node]; simp)
    case case9 rest c p next target time node final =>
      rw [Bool.and_eq_true, List.isEmpty_iff] at final
      rw [← Except.ok.inj h, final.1]
      exact .last ⟨c, p⟩ (by rw [node]; simp) fun _ _ _ => by simpa using final.2
    case case11 rest c p next target time node followed links ih =>
      exact .through ⟨c, p⟩ node (followed_iff.1 followed) (ih h)
    all_goals cases h
  · intro h
    induction h with
    | done => rw [follow]
    | current _ ih => rw [follow, ih]
    | parent _ ih => rw [follow, ih]
    | enter plain node _ ih => rw [follow_name plain, node, ← ih]
    | last plain other final =>
      rw [follow_name plain]
      split
      · contradiction
      · rfl
      · rfl
      · rw [final _ _ ‹_›]; rfl
    | through plain link followed _ ih =>
      rw [follow_name plain, link, ← ih]
      exact if_neg (followed_iff.2 followed)

/-! ## 1. Where ways end -/

/-- The steps of a path are texts between slashes. -/
theorem of_mem_steps {path n : String} (h : n ∈ steps path) : n ≠ "" ∧ '/' ∉ n.toList := by
  have name {m : String} (hm : m ∈ (Path.segments path).filter (· != "")) :
      m ≠ "" ∧ '/' ∉ m.toList := by
    obtain ⟨hm, given⟩ := List.mem_filter.1 hm
    exact ⟨by simpa using given, Path.slash_not_mem hm⟩
  unfold steps at h
  dsimp only at h
  split at h
  · obtain h | h := List.mem_append.1 h
    · exact name h
    · rw [List.mem_singleton.1 h]
      exact ⟨by decide, by decide⟩
  · exact name h

/-- A way from a directory ends at a directory or at a proper name in one. -/
theorem Leads.place {fs : Files} {throughLast : Bool} {links : Nat} {here way names : List String}
    (wf : fs.WellFormed) (h : Leads fs throughLast links here way names)
    (start : fs.node? here = some .directory) (proper : ∀ n ∈ way, n ≠ "" ∧ '/' ∉ n.toList) :
    fs.node? names = some .directory ∨
      names ≠ [] ∧ (∀ n ∈ names, Path.IsName n) ∧ fs.node? names.dropLast = some .directory := by
  induction h with
  | done => exact .inl start
  | current _ ih => exact ih start fun n hn => proper n (by simp [hn])
  | parent _ ih =>
    exact ih (wf.directory_above (by rw [start]; simp)) fun n hn => proper n (by simp [hn])
  | enter plain node _ ih => exact ih node fun n hn => proper n (by simp [hn])
  | @last links here name plain other final =>
    refine .inr ⟨by simp, fun n hn => ?_, by simpa using start⟩
    obtain hn | hn := List.mem_append.1 hn
    · exact wf.proper (by rw [start]; simp) n hn
    · rw [List.mem_singleton.1 hn]
      have := proper name (by simp)
      exact ⟨this.1, plain.1, plain.2, this.2⟩
  | through plain link followed _ ih =>
    refine ih ?_ fun n hn => ?_
    · split
      · rfl
      · exact start
    · obtain hn | hn := List.mem_append.1 hn
      · exact of_mem_steps hn
      · exact proper n (by simp [hn])

/-- The directory that a path starts from. -/
def base (fs : Files) (path : String) : List String := if path.startsWith "/" then [] else fs.home

theorem locate_eq_ok {fs : Files} {path : String} (given : path ≠ "") {throughLast : Bool}
    {names : List String} : fs.locate throughLast path = .ok names ↔
      Leads fs throughLast maxLinks (fs.base path) (steps path) names := by
  unfold locate
  rw [if_neg (by simpa using given)]
  exact follow_eq_ok

/-- A path that leads somewhere is not empty. -/
theorem ne_empty_of_locate {fs : Files} {throughLast : Bool} {path : String} {names : List String}
    (h : fs.locate throughLast path = .ok names) : path ≠ "" := by
  rintro rfl
  cases h

/-- What a path leads to from a directory can be made or replaced there. -/
theorem place_of_locate {fs : Files} {throughLast : Bool} {path : String} {names : List String}
    (wf : fs.WellFormed) (h : fs.locate throughLast path = .ok names)
    (start : fs.node? (fs.base path) = some .directory) :
    fs.node? names = some .directory ∨
      names ≠ [] ∧ (∀ n ∈ names, Path.IsName n) ∧ fs.node? names.dropLast = some .directory :=
  ((locate_eq_ok (ne_empty_of_locate h)).1 h).place wf start fun _ hn => of_mem_steps hn

theorem read_of_file {fs : Files} {path : String} {names : List String} {bytes : List UInt8}
    {time : Stamp} (found : fs.locate true path = .ok names)
    (there : fs.node? names = some (.file bytes time)) : fs.read path = .ok bytes := by
  unfold read
  simp only [found, bind, Except.bind, there]
  rfl

/-! ## 2. Ways put together -/

section Join
variable {fs : Files} {links : Nat} {here way directory : List String}

/-- A way through a directory goes on from there, with the links that are left. -/
theorem Leads.append (h : Leads fs true links here way directory)
    (dir : fs.node? directory = some .directory) :
    ∃ left, ∀ {throughLast : Bool} {rest names : List String}, rest ≠ [] →
      Leads fs throughLast left directory rest names →
      Leads fs throughLast links here (way ++ rest) names := by
  induction h with
  | done => exact ⟨_, fun _ more => more⟩
  | current _ ih =>
    obtain ⟨left, ih⟩ := ih dir
    exact ⟨left, fun ne more => .current (ih ne more)⟩
  | parent _ ih =>
    obtain ⟨left, ih⟩ := ih dir
    exact ⟨left, fun ne more => .parent (ih ne more)⟩
  | enter plain node _ ih =>
    obtain ⟨left, ih⟩ := ih dir
    exact ⟨left, fun ne more => .enter plain node (ih ne more)⟩
  | last _ other => exact absurd dir other
  | through plain link _ _ ih =>
    obtain ⟨left, ih⟩ := ih dir
    refine ⟨left, fun ne more => .through plain link (.inl (by simp [ne])) ?_⟩
    rw [List.append_eq, ← List.append_assoc]
    exact ih ne more

/-- The point at the end of a way asks for a directory and leads no further. -/
theorem Leads.of_append_current (h : Leads fs true links here (way ++ ["."]) directory) :
    Leads fs true links here way directory := by
  generalize eq : way ++ ["."] = whole at h
  induction h generalizing way with
  | done => simp at eq
  | current more ih =>
    obtain ⟨rfl, point⟩ | ⟨way, rfl, rfl⟩ := List.append_eq_cons_iff.1 eq
    · rwa [← (List.cons.inj point).2] at more
    · exact .current (ih rfl)
  | parent _ ih =>
    obtain ⟨-, point⟩ | ⟨way, rfl, rfl⟩ := List.append_eq_cons_iff.1 eq
    · simp at point
    · exact .parent (ih rfl)
  | enter plain node _ ih =>
    obtain ⟨-, point⟩ | ⟨way, rfl, rfl⟩ := List.append_eq_cons_iff.1 eq
    · exact absurd (List.cons.inj point).1.symm plain.1
    · exact .enter plain node (ih rfl)
  -- A last name is no point.
  | last plain =>
    obtain ⟨-, point⟩ | ⟨way, -, rest⟩ := List.append_eq_cons_iff.1 eq
    · exact absurd (List.cons.inj point).1.symm plain.1
    · simp at rest
  -- The point is at the end of what is left behind the link, so the link is followed either way.
  | through plain link _ _ ih =>
    obtain ⟨-, point⟩ | ⟨way, rfl, rfl⟩ := List.append_eq_cons_iff.1 eq
    · exact absurd (List.cons.inj point).1.symm plain.1
    · exact .through plain link (.inr rfl) (ih (List.append_assoc ..))

/-- A way down over directories, to the last name. -/
theorem leads_down {throughLast : Bool} {names : List String} (inside : names ≠ [])
    (proper : ∀ n ∈ names, Path.IsName n)
    (above : ∀ up, up <+: here ++ names → up ≠ here ++ names → fs.node? up = some .directory)
    (final : ∀ target time, fs.node? (here ++ names) = some (.link target time) → throughLast = false) :
    Leads fs throughLast links here names (here ++ names) := by
  induction names generalizing here with
  | nil => exact absurd rfl inside
  | cons name rest ih =>
    have plain : name ≠ "." ∧ name ≠ ".." :=
      ⟨(proper name (by simp)).notCurrent, (proper name (by simp)).notParent⟩
    by_cases whole : rest = []
    · subst whole
      by_cases node : fs.node? (here ++ [name]) = some .directory
      · exact .enter plain node .done
      · exact .last plain node final
    · have split : here ++ name :: rest = here ++ [name] ++ rest := by simp
      rw [split] at above final ⊢
      refine .enter plain (above _ (List.prefix_append _ _) (by simpa using Ne.symm whole)) ?_
      exact ih whole (fun n hn => proper n (by simp [hn])) above final

theorem steps_join {root : String} {names : List String} (given : root ≠ "") (inside : names ≠ [])
    (proper : ∀ n ∈ names, Path.IsName n) :
    steps (Path.join root (String.intercalate "/" names)) =
      (Path.segments root).filter (· != "") ++ names := by
  unfold steps
  rw [Path.endsWith_join given inside proper, Path.segments_join given inside proper]
  rfl

/-- A path below a directory leads below what the directory's path leads to. -/
theorem locate_join {root : String} {names : List String} (wf : fs.WellFormed)
    (found : fs.locate true root = .ok directory) (dir : fs.node? directory = some .directory)
    (inside : names ≠ []) (node : fs.node? (directory ++ names) ≠ none) {throughLast : Bool}
    (final : ∀ target time, fs.node? (directory ++ names) = some (.link target time) →
      throughLast = false) :
    fs.locate throughLast (Path.join root (String.intercalate "/" names)) = .ok (directory ++ names) := by
  have given := ne_empty_of_locate found
  have proper : ∀ n ∈ names, Path.IsName n := fun n hn =>
    wf.proper node n (List.mem_append_right _ hn)
  have toDirectory : Leads fs true maxLinks (fs.base root)
      ((Path.segments root).filter (· != "")) directory := by
    have whole := (locate_eq_ok given).1 found
    unfold steps at whole
    dsimp only at whole
    split at whole
    · exact whole.of_append_current
    · exact whole
  obtain ⟨left, goOn⟩ := toDirectory.append dir
  have down : Leads fs throughLast left directory names (directory ++ names) :=
    leads_down inside proper (fun up le ne => wf.directory_of_prefix node le ne) final
  rw [locate_eq_ok (Path.join_ne_empty given inside proper), steps_join given inside proper]
  unfold base
  rw [Path.startsWith_join given inside proper]
  exact goOn inside down

end Join

/-! ## 3. Straight ways -/

/-- Where a way leads that meets no link. -/
def lead (here : List String) : List String → List String
  | [] => here
  | "." :: rest => lead here rest
  | ".." :: rest => lead here.dropLast rest
  | name :: rest => lead (here ++ [name]) rest

/-- A way that goes up only before it goes down. -/
def Descends (way : List String) : Prop := way.Pairwise fun a b => b = ".." → a = "." ∨ a = ".."

instance : DecidablePred Descends := fun _ => inferInstanceAs (Decidable (List.Pairwise _ _))

/-- A path that goes up only before it goes down, and over no link. -/
def Straight (fs : Files) (path : String) : Prop :=
  Descends (steps path) ∧ fs.locate true path = .ok (lead (fs.base path) (steps path))

theorem prefix_lead {here way : List String} (down : ".." ∉ way) : here <+: lead here way := by
  induction way generalizing here with
  | nil => exact List.prefix_rfl
  | cons name rest ih =>
    have down' : ".." ∉ rest := fun h => down (List.mem_cons_of_mem _ h)
    unfold lead
    split
    · contradiction
    · rename_i eq; cases eq; exact ih down'
    · rename_i eq; cases eq; exact absurd List.mem_cons_self down
    · rename_i eq; cases eq; exact (List.prefix_append _ _).trans (ih down')

/-- A straight way leads where it says as long as there are directories on it. -/
theorem leads_straight {fs : Files} {throughLast : Bool} {links : Nat} {here way : List String}
    (descends : Descends way) (dirs : ∀ up, up <+: lead here way → fs.node? up = some .directory) :
    Leads fs throughLast links here way (lead here way) := by
  induction way generalizing here with
  | nil => exact .done
  | cons name rest ih =>
    obtain ⟨first, later⟩ := List.pairwise_cons.1 descends
    by_cases current : name = "."
    · subst current
      exact .current (ih later dirs)
    by_cases parent : name = ".."
    · subst parent
      exact .parent (ih later dirs)
    have eq : lead here (name :: rest) = lead (here ++ [name]) rest := by
      rw [lead]
      · exact current
      · exact parent
    have down : ".." ∉ rest := fun h => (first _ h rfl).elim current parent
    rw [eq] at dirs ⊢
    exact .enter ⟨current, parent⟩ (dirs _ (prefix_lead down)) (ih later dirs)

/-! ## 4. What stands below -/

theorem below?_eq_some {directory names rest : List String} :
    below? directory names = some rest ↔ names = directory ++ rest ∧ rest ≠ [] := by
  unfold below?
  constructor
  · intro h
    split at h
    · rename_i inside
      rw [Bool.and_eq_true, List.isPrefixOf_iff_prefix, decide_eq_true_eq] at inside
      obtain ⟨⟨t, rfl⟩, longer⟩ := inside
      rw [List.drop_left, Option.some.injEq] at h
      subst h
      refine ⟨rfl, ?_⟩
      rintro rfl
      simp at longer
    · cases h
  · rintro ⟨rfl, inside⟩
    have := List.length_pos_of_ne_nil inside
    rw [if_pos, List.drop_left]
    rw [Bool.and_eq_true, List.isPrefixOf_iff_prefix, decide_eq_true_eq, List.length_append]
    exact ⟨List.prefix_append _ _, by omega⟩

/-- A listing shows what stands below the directory that the path leads to. -/
theorem list_eq_ok {fs : Files} {path : String} {nodes : List (List String × Node)}
    (h : fs.list path = .ok nodes) :
    ∃ directory, fs.locate true path = .ok directory ∧ fs.node? directory = some .directory ∧
      nodes = fs.nodes.filterMap fun e => (below? directory e.1).map (·, e.2) := by
  obtain ⟨directory, found, h⟩ := exists_of_bind h
  split at h
  · exact ⟨directory, found, by assumption, (Except.ok.inj h).symm⟩
  · cases h
  · cases h

section Listing
variable {fs : Files} {directory : List String} {e : List String × Node}

theorem mem_listing : e ∈ (fs.nodes.filterMap fun e => (below? directory e.1).map (·, e.2)) ↔
    (directory ++ e.1, e.2) ∈ fs.nodes ∧ e.1 ≠ [] := by
  rw [List.mem_filterMap]
  constructor
  · rintro ⟨a, ha, h⟩
    obtain ⟨rest, below, rfl⟩ := Option.map_eq_some_iff.1 h
    obtain ⟨whole, inside⟩ := below?_eq_some.1 below
    exact ⟨by rw [← whole]; exact ha, inside⟩
  · rintro ⟨mem, inside⟩
    exact ⟨_, mem, by rw [below?_eq_some.2 ⟨rfl, inside⟩]; rfl⟩

theorem WellFormed.listing_once (wf : fs.WellFormed) (directory : List String) :
    ((fs.nodes.filterMap fun e => (below? directory e.1).map (·, e.2)).map (·.1)).Nodup := by
  rw [List.Nodup, List.pairwise_map, List.pairwise_filterMap]
  refine (List.pairwise_map.1 wf.once).imp fun ne b hb c hc eq => ne ?_
  obtain ⟨m, hm, rfl⟩ := Option.map_eq_some_iff.1 hb
  obtain ⟨n, hn, rfl⟩ := Option.map_eq_some_iff.1 hc
  rw [(below?_eq_some.1 hm).1, (below?_eq_some.1 hn).1]
  exact congrArg _ eq

end Listing

end ScriptHost.Files
