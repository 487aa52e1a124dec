import ScriptHost.Path
import Mathlib.Data.List.Basic

/-!
# Paths — the parts of a path put together from two

The paths of a listing are the watched directory joined with the names that lead on from it.  Such a path
has the parts of the directory and then those names, so two of them name one file only when the names are
the same.
-/

namespace ScriptHost.Path

/-- A name that stands for itself between two slashes. -/
structure IsName (name : String) : Prop where
  nonempty : name ≠ ""
  notCurrent : name ≠ "."
  notParent : name ≠ ".."
  noSlash : '/' ∉ name.toList

theorem IsName.component {name : String} (h : IsName name) : componentOf? name = some (.normal name) := by
  unfold componentOf?
  split
  · exact absurd rfl h.nonempty
  · exact absurd rfl h.notCurrent
  · exact absurd rfl h.notParent
  · rfl

theorem filterMap_componentOf {names : List String} (proper : ∀ n ∈ names, IsName n) :
    names.filterMap componentOf? = names.map .normal := by
  induction names with
  | nil => rfl
  | cons n rest ih =>
    rw [List.filterMap_cons_some (proper n (by simp)).component,
      ih fun m hm => proper m (List.mem_cons_of_mem _ hm), List.map_cons]

/-! ## 1. Segments -/

theorem segments_ne_nil (path : String) : segments path ≠ [] := by
  simp [segments, List.splitOn_ne_nil]

theorem segments_append_slash (p q : String) : segments (p ++ "/" ++ q) = segments p ++ segments q := by
  have slash : ("/" : String).toList = ['/'] := by decide
  unfold segments
  rw [String.toList_append, String.toList_append, slash, List.append_assoc, List.singleton_append,
    List.splitOn_append_cons_self, List.map_append]

/-- No slash stands in a segment. -/
theorem slash_not_mem {path n : String} (h : n ∈ segments path) : '/' ∉ n.toList := by
  have parts : ∀ (cs : List Char), ∀ l ∈ cs.splitOn '/', '/' ∉ l := by
    intro cs
    induction cs with
    | nil => simp
    | cons c rest ih =>
      rw [List.splitOn_cons_eq_if_modifyHead]
      split
      · simpa using ih
      · rename_i other
        obtain ⟨first, more, eq⟩ := List.exists_cons_of_ne_nil (List.splitOn_ne_nil '/' rest)
        rw [eq] at ih ⊢
        rw [List.forall_mem_cons] at ih
        rw [List.modifyHead_cons, List.forall_mem_cons, List.mem_cons, not_or]
        exact ⟨⟨fun h => other (beq_iff_eq.2 h.symm), ih.1⟩, ih.2⟩
  obtain ⟨l, hl, rfl⟩ := List.mem_map.1 h
  rw [String.toList_ofList]
  exact parts _ l hl

theorem segments_empty : segments "" = [""] := by decide

theorem segments_slash_end (p : String) : segments (p ++ "/") = segments p ++ [""] := by
  have := segments_append_slash p ""
  rwa [String.append_empty, segments_empty] at this

theorem segments_intercalate {names : List String} (nonempty : names ≠ [])
    (proper : ∀ n ∈ names, IsName n) : segments (String.intercalate "/" names) = names := by
  have slash : ("/" : String).toList = ['/'] := by decide
  unfold segments
  rw [String.toList_intercalate, slash, List.splitOn_intercalate, List.map_map]
  · simp [Function.comp_def]
  · intro l hl
    obtain ⟨n, hn, rfl⟩ := List.mem_map.1 hl
    exact (proper n hn).noSlash
  · simpa using nonempty

/-! ## 2. Joining -/

theorem endsWith_iff {p : String} : p.endsWith "/" = true ↔ ∃ q, p = q ++ "/" := by
  have slash : ("/" : String).toList = ['/'] := by decide
  have suffixed : p.endsWith "/" = true ↔ ("/" : String).toList <:+ p.toList := by
    show p.toSlice.endsWith "/" = true ↔ _
    rw [String.Slice.endsWith_string_iff, String.copy_toSlice]
  rw [suffixed]
  constructor
  · rintro ⟨t, ht⟩
    exact ⟨String.ofList t, by rw [← String.toList_inj, String.toList_append, String.toList_ofList, ht]⟩
  · rintro ⟨q, rfl⟩
    exact ⟨q.toList, by rw [String.toList_append]⟩

theorem startsWith_slash (p : String) : p.startsWith "/" = (p.toList.head? == some '/') := by
  rw [Bool.eq_iff_iff, String.startsWith_string_iff]
  show ['/'] <+: p.toList ↔ _
  cases p.toList with
  | nil => simp
  | cons c cs => rw [List.cons_prefix_cons, eq_comm]; simp

/-- A joined path starts with a slash just when the directory in front does. -/
theorem startsWith_append {p : String} (given : p ≠ "") (q : String) :
    (p ++ q).startsWith "/" = p.startsWith "/" := by
  have : p.toList ≠ [] := by simpa using given
  rw [startsWith_slash, startsWith_slash, String.toList_append, List.head?_append_of_ne_nil _ this]

/-- A slash at the end of the directory is not doubled. -/
theorem join_eq {root inner : String} (given : root ≠ "") (relative : inner.startsWith "/" = false) :
    ∃ q, (root = q ∨ root = q ++ "/") ∧ join root inner = q ++ "/" ++ inner := by
  have full : root.isEmpty = false := by simpa using given
  unfold join
  rw [relative, full]
  by_cases closed : root.endsWith "/" = true
  · obtain ⟨q, rfl⟩ := endsWith_iff.1 closed
    exact ⟨q, .inr rfl, by rw [closed]; rfl⟩
  · exact ⟨root, .inl rfl, by simp only [closed]; rfl⟩

theorem segments_of_startsWith {p : String} (h : p.startsWith "/" = true) : "" ∈ segments p := by
  obtain ⟨t, ht⟩ := String.startsWith_string_iff.1 h
  have : p = "" ++ "/" ++ String.ofList t := by
    rw [← String.toList_inj, String.empty_append, String.toList_append]
    simpa using ht.symm
  rw [this, segments_append_slash, segments_empty]
  simp

/-- What the segments in front give is not changed by those that follow. -/
theorem components_append {p q first : String} {ps qs : List String} {extra : List Component}
    (hp : p ≠ "") (hq : q ≠ "") (sp : segments p = first :: ps) (sq : segments q = first :: qs)
    (h : qs.filterMap componentOf? = ps.filterMap componentOf? ++ extra) :
    components q = components p ++ extra := by
  have ep : p.isEmpty = false := by simpa using hp
  have eq : q.isEmpty = false := by simpa using hq
  unfold components
  rw [sp, sq]
  by_cases root : first = ""
  · subst root; simp [ep, eq, h]
  by_cases current : first = "."
  · subst current; simp [h]
  · simp [root, current, List.filterMap_cons, h]
    split <;> simp

section Joined
variable {root : String} {names : List String} (given : root ≠ "") (nonempty : names ≠ [])
  (proper : ∀ n ∈ names, IsName n)
include nonempty proper

theorem intercalate_relative : (String.intercalate "/" names).startsWith "/" = false := by
  refine Bool.eq_false_iff.2 fun h => ?_
  have := segments_of_startsWith h
  rw [segments_intercalate nonempty proper] at this
  exact (proper _ this).nonempty rfl

include given

theorem join_names : ∃ q, (root = q ∨ root = q ++ "/") ∧
    join root (String.intercalate "/" names) = q ++ "/" ++ String.intercalate "/" names ∧
    segments (join root (String.intercalate "/" names)) = segments q ++ names := by
  obtain ⟨q, hq, joined⟩ := join_eq given (intercalate_relative nonempty proper)
  refine ⟨q, hq, joined, ?_⟩
  rw [joined, segments_append_slash, segments_intercalate nonempty proper]

theorem join_ne_empty : join root (String.intercalate "/" names) ≠ "" := by
  obtain ⟨q, -, joined, -⟩ := join_names given nonempty proper
  rw [joined]
  intro h
  have := congrArg String.toList h
  simp at this

/-- The parts of a joined path: those of the directory, then the names. -/
theorem components_join :
    components (join root (String.intercalate "/" names)) = components root ++ names.map .normal := by
  obtain ⟨q, hq, -, split⟩ := join_names given nonempty proper
  obtain ⟨first, rest, hfirst⟩ := List.exists_cons_of_ne_nil (segments_ne_nil q)
  have joined := join_ne_empty given nonempty proper
  rw [hfirst, List.cons_append] at split
  obtain rfl | rfl := hq
  · exact components_append given joined hfirst split
      (by rw [List.filterMap_append, filterMap_componentOf proper])
  · refine components_append given joined
      (by rw [segments_slash_end, hfirst, List.cons_append]) split ?_
    rw [List.filterMap_append, List.filterMap_append, filterMap_componentOf proper]
    simp [componentOf?]

/-- The segments of a joined path that are not empty. -/
theorem segments_join :
    (segments (join root (String.intercalate "/" names))).filter (· != "") =
      (segments root).filter (· != "") ++ names := by
  obtain ⟨q, hq, -, split⟩ := join_names given nonempty proper
  have kept : names.filter (· != "") = names :=
    List.filter_eq_self.2 fun n hn => by simpa using (proper n hn).nonempty
  rw [split, List.filter_append, kept]
  obtain rfl | rfl := hq
  · rfl
  · simp [segments_slash_end]

theorem startsWith_join :
    (join root (String.intercalate "/" names)).startsWith "/" = root.startsWith "/" := by
  obtain ⟨q, hq, joined, -⟩ := join_names given nonempty proper
  rw [joined]
  obtain rfl | rfl := hq
  · rw [String.append_assoc, startsWith_append given]
  · exact startsWith_append given _

theorem endsWith_join : (join root (String.intercalate "/" names)).endsWith "/" = false := by
  obtain ⟨q, -, -, split⟩ := join_names given nonempty proper
  refine Bool.eq_false_iff.2 fun h => ?_
  obtain ⟨p, hp⟩ := endsWith_iff.1 h
  have last : (segments (join root (String.intercalate "/" names))).getLast? = names.getLast? := by
    rw [split, List.getLast?_append_of_ne_nil _ nonempty]
  rw [hp, segments_slash_end, List.getLast?_append_of_ne_nil _ (by simp)] at last
  exact (proper "" (List.mem_of_getLast? last.symm)).nonempty rfl

end Joined

/-- Paths below one directory name the same file only under the same names. -/
theorem same_join {root : String} {a b : List String} (given : root ≠ "") (ha : a ≠ []) (hb : b ≠ [])
    (pa : ∀ n ∈ a, IsName n) (pb : ∀ n ∈ b, IsName n) :
    same (join root (String.intercalate "/" a)) (join root (String.intercalate "/" b)) = true ↔ a = b := by
  unfold same
  rw [components_join given ha pa, components_join given hb pb, beq_iff_eq, List.append_cancel_left_eq]
  exact (List.map_injective_iff.2 fun _ _ => Component.normal.inj).eq_iff

/-! ## 3. The order of paths -/

/-- The name of a part; a part that is no name has none. -/
def Component.name : Component → String
  | .normal name => name
  | _ => ""

theorem Component.compare_eq :
    Component.compare = compareLex (compareOn Component.rank) (compareOn Component.name) := by
  funext a b
  cases a <;> cases b <;> rfl

instance : Std.TransCmp Component.compare := by
  rw [Component.compare_eq]; infer_instance

instance : Std.LawfulEqCmp Component.compare where
  compare_self := Std.ReflCmp.compare_self
  eq_of_compare {a b} h := by
    rw [Component.compare_eq, compareLex_eq_eq] at h
    have ranks : a.rank = b.rank := Std.LawfulEqCmp.eq_of_compare h.1
    have names : a.name = b.name := Std.LawfulEqCmp.eq_of_compare h.2
    cases a <;> cases b <;> first | rfl | exact congrArg _ names | cases ranks

theorem compareParts_eq : compareParts = List.compareLex Component.compare := by
  funext a b
  induction a generalizing b with
  | nil => cases b <;> rfl
  | cons x xs ih =>
    cases b with
    | nil => rfl
    | cons y ys => rw [compareParts, ih, List.compareLex_cons_cons]

instance : Std.TransCmp compareParts := by
  rw [compareParts_eq]; infer_instance

instance : Std.LawfulEqCmp compareParts := by
  rw [compareParts_eq]; infer_instance

theorem le_eq (p q : String) : le p q = (compareParts (components p) (components q)).isLE := by
  show (compareParts (components p) (components q) != .gt) = _
  cases compareParts (components p) (components q) <;> rfl

theorem le_total (p q : String) : (le p q || le q p) = true := by
  have swap : compareParts (components q) (components p) =
      (compareParts (components p) (components q)).swap := Std.OrientedCmp.eq_swap
  rw [le_eq, le_eq q p, swap]
  cases compareParts (components p) (components q) <;> rfl

theorem le_trans {p q r : String} (pq : le p q = true) (qr : le q r = true) : le p r = true := by
  rw [le_eq] at *
  exact Std.TransCmp.isLE_trans pq qr

theorem same_iff {p q : String} : same p q = true ↔ components p = components q := beq_iff_eq

/-- The order does not tell two paths of one file apart, and any others it does. -/
theorem compare_eq_iff {p q : String} : compare p q = .eq ↔ same p q = true := by
  rw [same_iff]
  show compareParts (components p) (components q) = .eq ↔ _
  exact Std.LawfulEqCmp.compare_eq_iff_eq

end ScriptHost.Path
