import ScriptHost.Files.Change
import ScriptHost.Proofs.Path
import Mathlib.Data.List.Induction

/-!
# The tree — what a change to the files leaves in order

A tree is in order when no two nodes stand under the same names and each node stands in a directory.
Every change that replaces no directory by something else keeps it so.
-/

namespace ScriptHost.Files

/-- Each node stands once, under proper names, and in a directory. -/
structure WellFormed (fs : Files) : Prop where
  once : (fs.nodes.map (·.1)).Nodup
  named : ∀ e ∈ fs.nodes, e.1 ≠ [] ∧ ∀ n ∈ e.1, Path.IsName n
  held : ∀ e ∈ fs.nodes, fs.node? e.1.dropLast = some .directory

theorem wellFormed_empty : empty.WellFormed :=
  ⟨List.nodup_nil, by simp [empty], by simp [empty]⟩

@[simp]
theorem node?_nil (fs : Files) : fs.node? [] = some .directory := rfl

theorem node?_of_ne_nil {names : List String} (below : names ≠ []) (fs : Files) :
    fs.node? names = fs.nodes.lookup names := by
  unfold node?
  rw [if_neg (by simpa using below)]

theorem lookup_cons_of_ne {e : List String × Node} {names : List String} (ne : e.1 ≠ names)
    (rest : List (List String × Node)) : (e :: rest).lookup names = rest.lookup names := by
  have : (names == e.1) = false := by simpa using Ne.symm ne
  rw [List.lookup_cons, this]

/-- Leaving entries out under other names does not show. -/
theorem lookup_filter {nodes : List (List String × Node)} {p : List String × Node → Bool}
    {other : List String} (keeps : ∀ e ∈ nodes, e.1 = other → p e = true) :
    (nodes.filter p).lookup other = nodes.lookup other := by
  induction nodes with
  | nil => rfl
  | cons e rest ih =>
    have ih := ih fun e he => keeps e (List.mem_cons_of_mem _ he)
    by_cases eq : e.1 = other
    · rw [List.filter_cons_of_pos (keeps e (by simp) eq), List.lookup_cons, List.lookup_cons, ih]
    · rw [lookup_cons_of_ne eq, ← ih, List.filter_cons]
      split
      · rw [lookup_cons_of_ne eq]
      · rfl

/-- The entry that a look-up finds. -/
theorem mem_of_node? {fs : Files} {names : List String} {node : Node} (below : names ≠ [])
    (h : fs.node? names = some node) : (names, node) ∈ fs.nodes := by
  rw [node?_of_ne_nil below, List.lookup_eq_some_iff] at h
  obtain ⟨before, after, eq, -⟩ := h
  rw [eq]
  simp

namespace WellFormed

variable {fs : Files} (wf : fs.WellFormed)
include wf

theorem node?_of_mem {names : List String} {node : Node} (h : (names, node) ∈ fs.nodes) :
    fs.node? names = some node := by
  rw [node?_of_ne_nil (wf.named _ h).1]
  have once := wf.once
  generalize fs.nodes = nodes at h once
  induction nodes with
  | nil => cases h
  | cons e rest ih =>
    rw [List.map_cons, List.nodup_cons] at once
    obtain rfl | h := List.mem_cons.1 h
    · simp
    · have : e.1 ≠ names := fun eq => once.1 (eq ▸ List.mem_map_of_mem (f := (·.1)) h)
      rw [lookup_cons_of_ne this]
      exact ih h once.2

theorem proper {names : List String} (h : fs.node? names ≠ none) : ∀ n ∈ names, Path.IsName n := by
  by_cases root : names = []
  · simp [root]
  · obtain ⟨node, h⟩ := Option.ne_none_iff_exists'.1 h
    exact (wf.named _ (mem_of_node? root h)).2

/-- What holds a node is a directory. -/
theorem directory_above {names : List String} (h : fs.node? names ≠ none) :
    fs.node? names.dropLast = some .directory := by
  by_cases root : names = []
  · rw [root]; rfl
  · obtain ⟨node, h⟩ := Option.ne_none_iff_exists'.1 h
    exact wf.held _ (mem_of_node? root h)

/-- All that stands on the way to a node is a directory. -/
theorem directory_of_prefix {above names : List String} (h : fs.node? names ≠ none)
    (le : above <+: names) (ne : above ≠ names) : fs.node? above = some .directory := by
  induction names using List.reverseRecOn with
  | nil => exact absurd (List.prefix_nil.1 le) ne
  | append_singleton init last ih =>
    have up : fs.node? init = some .directory := by simpa using wf.directory_above h
    obtain eq | le := List.prefix_concat_iff.1 le
    · exact absurd eq ne
    · by_cases eq : above = init
      · rw [eq, up]
      · exact ih (by rw [up]; simp) le eq

/-- So is the directory that something stands below, and all that holds it. -/
theorem directory_over {above directory names : List String} (le : above <+: directory)
    (inside : names ≠ []) (there : fs.node? (directory ++ names) ≠ none) :
    fs.node? above = some .directory := by
  refine wf.directory_of_prefix there (le.trans (List.prefix_append _ _)) ?_
  rintro rfl
  have := le.length_le
  have := List.length_pos_of_ne_nil inside
  rw [List.length_append] at *
  omega

end WellFormed

/-! ## 1. Putting a node -/

section Put
variable {fs : Files} {names : List String} (node : Node)

theorem node?_put_self (below : names ≠ []) : (fs.put names node).node? names = some node := by
  rw [node?_of_ne_nil below]
  have gone : (fs.nodes.filter (·.1 != names)).lookup names = none := by
    rw [List.lookup_eq_none_iff]
    intro e he
    have ne : e.1 ≠ names := by simpa using (List.mem_filter.1 he).2
    simpa using Ne.symm ne
  show (fs.nodes.filter (·.1 != names) ++ [(names, node)]).lookup names = _
  rw [List.lookup_append, gone, Option.none_or, List.lookup_cons_self]

theorem node?_put_of_ne {other : List String} (ne : other ≠ names) :
    (fs.put names node).node? other = fs.node? other := by
  by_cases root : other = []
  · rw [root]; rfl
  rw [node?_of_ne_nil root, node?_of_ne_nil root]
  show (fs.nodes.filter (·.1 != names) ++ [(names, node)]).lookup other = _
  rw [List.lookup_append, lookup_filter (by rintro e - rfl; simpa using ne),
    lookup_cons_of_ne (Ne.symm ne), List.lookup_nil, Option.or_none]

/-- A node may be put where a directory holds it, unless it takes the place of a directory. -/
theorem WellFormed.put (wf : fs.WellFormed) (below : names ≠ [])
    (proper : ∀ n ∈ names, Path.IsName n) (parent : fs.node? names.dropLast = some .directory)
    (free : fs.node? names ≠ some .directory) : (fs.put names node).WellFormed := by
  have mem {e} : e ∈ (fs.put names node).nodes ↔ e ∈ fs.nodes ∧ e.1 ≠ names ∨ e = (names, node) := by
    show e ∈ fs.nodes.filter (·.1 != names) ++ [(names, node)] ↔ _
    simp
  refine ⟨?_, ?_, ?_⟩
  · show ((fs.nodes.filter (·.1 != names) ++ [(names, node)]).map (·.1)).Nodup
    rw [List.map_append, List.nodup_append]
    refine ⟨wf.once.sublist (List.filter_sublist.map _), by simp, ?_⟩
    intro a ha b hb
    obtain ⟨e, he, rfl⟩ := List.mem_map.1 ha
    have : b = names := by simpa using hb
    rw [this]
    simpa using (List.mem_filter.1 he).2
  · intro e he
    obtain ⟨he, -⟩ | rfl := mem.1 he
    · exact wf.named e he
    · exact ⟨below, proper⟩
  · intro e he
    obtain ⟨he, -⟩ | rfl := mem.1 he
    · have above := wf.held e he
      have ne : e.1.dropLast ≠ names := fun eq => free (by rw [← eq, above])
      rwa [node?_put_of_ne node ne]
    · have shorter : names.dropLast ≠ names := fun eq => by
        have := congrArg List.length eq
        have := List.length_pos_of_ne_nil below
        rw [List.length_dropLast] at *
        omega
      rwa [node?_put_of_ne node shorter]

end Put

/-! ## 2. Taking nodes out -/

section Filter
variable {fs : Files} {p : List String × Node → Bool}

theorem node?_filter {other : List String} (keeps : ∀ e ∈ fs.nodes, e.1 = other → p e = true) :
    { fs with nodes := fs.nodes.filter p }.node? other = fs.node? other := by
  by_cases root : other = []
  · rw [root]; rfl
  · rw [node?_of_ne_nil root, node?_of_ne_nil root, lookup_filter keeps]

/-- What is left was there before. -/
theorem node?_of_filter (wf : fs.WellFormed) {names : List String} {node : Node} (below : names ≠ [])
    (h : { fs with nodes := fs.nodes.filter p }.node? names = some node) :
    fs.node? names = some node :=
  wf.node?_of_mem (List.mem_filter.1 (mem_of_node? below h)).1

/-- Nodes may be taken out as long as what is left keeps the directories that hold it. -/
theorem WellFormed.filter (wf : fs.WellFormed)
    (closed : ∀ e ∈ fs.nodes, p e = true → ∀ d ∈ fs.nodes, d.1 = e.1.dropLast → p d = true) :
    { fs with nodes := fs.nodes.filter p }.WellFormed := by
  refine ⟨wf.once.sublist (List.filter_sublist.map _), fun e he => wf.named e (List.mem_filter.1 he).1,
    fun e he => ?_⟩
  obtain ⟨he, kept⟩ := List.mem_filter.1 he
  rw [node?_filter (closed e he kept)]
  exact wf.held e he

end Filter

end ScriptHost.Files
