import ScriptHost.Proofs.Path
import ScriptHost.Watcher.Snapshot
import Mathlib.Data.List.Nodup

/-!
# Snapshots — what a comparison tells

A comparison of two snapshots tells which files are new, changed or gone: each of them once, in order, and in one of
the three lists.  It tells nothing only where both show the same files.  A look below a directory gives every file once,
in order, and under a path that is spelled in one way, so that two snapshots of one directory then are the same list.
-/

namespace ScriptHost

theorem ChangeSet.isEmpty_iff (c : ChangeSet) :
    c.isEmpty = true ↔ c.added = [] ∧ c.modified = [] ∧ c.removed = [] := by
  simp [ChangeSet.isEmpty, ChangeSet.size, and_assoc]

namespace Path

/-- Paths one behind the other, and none of them twice. -/
def Ascending (ps : List String) : Prop := ps.Pairwise fun p q => compare p q = .lt

/-- Ascending paths name different files. -/
theorem Ascending.apart {ps : List String} (h : Ascending ps) : ps.Pairwise fun p q => same p q = false := by
  apply h.imp
  intro p q lt
  apply Bool.eq_false_iff.mpr
  intro eq
  rw [compare_eq_iff.mpr eq] at lt
  cases lt

end Path

namespace Snapshot

/-! ## 1. Comparing snapshots -/

/-- Each path stands behind those in front of it. -/
def InOrder (s : Snapshot) : Prop := Path.Ascending s.paths

/-- The snapshot has a file under the path, and this is when it was last changed. -/
def Has (s : Snapshot) (path : String) (time : Stamp) : Prop := ∃ e ∈ s, Path.same e.1 path = true ∧ e.2 = time

/-- The snapshot has no file under the path. -/
def Lacks (s : Snapshot) (path : String) : Prop := ∀ e ∈ s, Path.same e.1 path = false

/-- The files of a snapshot, however their paths are spelled. -/
def files (s : Snapshot) : List (List Path.Component × Stamp) := s.map fun e => (Path.components e.1, e.2)

/-- The snapshots show the same files with the same times. -/
def Alike (s t : Snapshot) : Prop := s.files = t.files

end Snapshot

/-- The change set tells what became of the files between two snapshots: what only the second one has, what both have
    with different times, and what only the first one has. -/
structure ChangeSet.Tells (c : ChangeSet) (previous current : Snapshot) : Prop where
  added : ∀ q, q ∈ c.added ↔ q ∈ current.paths ∧ previous.Lacks q
  modified : ∀ q, q ∈ c.modified ↔ ∃ old new, (q, new) ∈ current ∧ previous.Has q old ∧ old ≠ new
  removed : ∀ q, q ∈ c.removed ↔ q ∈ previous.paths ∧ current.Lacks q
  addedAscending : Path.Ascending c.added
  modifiedAscending : Path.Ascending c.modified
  removedAscending : Path.Ascending c.removed
  /-- No file is in two of the lists. -/
  apart : (c.added ++ c.modified ++ c.removed).Pairwise fun p q => Path.same p q = false
  isEmpty_iff : c.isEmpty = true ↔ previous.Alike current

namespace Snapshot

variable {s t : Snapshot} {p q : String} {time : Stamp} {a b : String × Stamp}

theorem has_iff : s.Has q time ↔ (Path.components q, time) ∈ s.files := by
  unfold Has files
  constructor
  · rintro ⟨e, he, same, rfl⟩
    exact List.mem_map.mpr ⟨e, he, by rw [Path.same_iff.mp same]⟩
  · intro h
    obtain ⟨e, he, eq⟩ := List.mem_map.mp h
    obtain ⟨path, rfl⟩ := Prod.mk.inj eq
    exact ⟨e, he, Path.same_iff.mpr path, rfl⟩

theorem has_of_mem (h : (q, time) ∈ s) : s.Has q time := ⟨_, h, Path.same_iff.mpr rfl, rfl⟩

theorem not_lacks_iff : ¬ s.Lacks q ↔ ∃ time, s.Has q time := by
  unfold Lacks Has
  simp

theorem lacks_of_same (h : s.Lacks p) (same : Path.same p q = true) : s.Lacks q := by
  intro e he
  apply Bool.eq_false_iff.mpr
  intro found
  have other := h e he
  rw [Path.same_iff.mpr ((Path.same_iff.mp found).trans (Path.same_iff.mp same).symm)] at other
  cases other

namespace InOrder

variable (h : InOrder s)
include h

/-- One file is listed once. -/
theorem eq_of_same (ha : a ∈ s) (hb : b ∈ s) (same : Path.same a.1 b.1 = true) : a = b := by
  have distinct : (s.map fun e => Path.components e.1).Nodup := by
    apply List.pairwise_map.mpr
    apply (List.pairwise_map.mp h.apart).imp
    intro a b other eq
    rw [Path.same_iff.mpr eq] at other
    cases other
  exact List.inj_on_of_nodup_map distinct ha hb (Path.same_iff.mp same)

/-- So its time is one. -/
theorem has_unique {time' : Stamp} (first : s.Has q time) (second : s.Has q time') : time = time' := by
  obtain ⟨a, ha, sameA, rfl⟩ := first
  obtain ⟨b, hb, sameB, rfl⟩ := second
  have same : Path.same a.1 b.1 = true :=
    Path.same_iff.mpr ((Path.same_iff.mp sameA).trans (Path.same_iff.mp sameB).symm)
  rw [h.eq_of_same ha hb same]

theorem time?_eq_some_iff : s.time? q = some time ↔ s.Has q time := by
  unfold time?
  rw [Option.map_eq_some_iff]
  constructor
  · rintro ⟨e, found, rfl⟩
    exact ⟨e, List.mem_of_find?_eq_some found, by simpa using List.find?_some found, rfl⟩
  · rintro ⟨e, he, same, rfl⟩
    have there : (s.find? fun a => Path.same a.1 q).isSome = true := List.find?_isSome.mpr ⟨e, he, same⟩
    obtain ⟨a, found⟩ := Option.isSome_iff_exists.mp there
    refine ⟨a, found, ?_⟩
    have same' : Path.same a.1 q = true := by simpa using List.find?_some found
    exact h.has_unique ⟨a, List.mem_of_find?_eq_some found, same', rfl⟩ ⟨e, he, same, rfl⟩

theorem files_ascending : s.files.Pairwise fun a b => Path.compareParts a.1 b.1 = .lt := by
  have pairs : s.Pairwise fun a b => Path.compare a.1 b.1 = .lt := List.pairwise_map.mp h
  exact List.pairwise_map.mpr pairs

end InOrder

theorem time?_eq_none_iff : s.time? q = none ↔ s.Lacks q := by
  unfold time? Lacks
  rw [Option.map_eq_none_iff, List.find?_eq_none]
  simp

/-- Snapshots with the same files show them in the same order. -/
theorem alike_of_has (hs : InOrder s) (ht : InOrder t) (same : ∀ q time, s.Has q time ↔ t.Has q time) : s.Alike t := by
  have strict {a b : List Path.Component × Stamp} (ab : Path.compareParts a.1 b.1 = .lt)
      (ba : Path.compareParts b.1 a.1 = .lt) : a = b := by
    have swap : Path.compareParts b.1 a.1 = (Path.compareParts a.1 b.1).swap := Std.OrientedCmp.eq_swap
    rw [swap, ab] at ba
    cases ba
  have nodup {u : Snapshot} (h : InOrder u) : u.files.Nodup := by
    apply h.files_ascending.imp
    intro a b lt eq
    have self : Path.compareParts b.1 b.1 = .eq := Std.ReflCmp.compare_self
    rw [eq, self] at lt
    cases lt
  have perm : s.files.Perm t.files := by
    rw [List.perm_ext_iff_of_nodup (nodup hs) (nodup ht)]
    -- Every file of a snapshot has a path that is spelled somehow.
    have through {u v : Snapshot} (uv : ∀ q time, u.Has q time → v.Has q time) (f : List Path.Component × Stamp)
        (hf : f ∈ u.files) : f ∈ v.files := by
      obtain ⟨e, he, rfl⟩ := List.mem_map.mp hf
      exact has_iff.mp (uv e.1 e.2 (has_of_mem he))
    exact fun f => ⟨through (fun q time => (same q time).mp) f, through (fun q time => (same q time).mpr) f⟩
  exact perm.eq_of_pairwise (fun a b _ _ => strict) hs.files_ascending ht.files_ascending

section Diff

variable (hs : InOrder s) (ht : InOrder t)

theorem mem_added : q ∈ (s.diff t).added ↔ q ∈ t.paths ∧ s.Lacks q := by
  unfold diff paths
  simp only [List.mem_map, List.mem_filter, Option.isNone_iff_eq_none, time?_eq_none_iff]
  constructor
  · rintro ⟨e, ⟨he, new⟩, rfl⟩
    exact ⟨⟨e, he, rfl⟩, new⟩
  · rintro ⟨⟨e, he, rfl⟩, new⟩
    exact ⟨e, ⟨he, new⟩, rfl⟩

theorem mem_removed : q ∈ (s.diff t).removed ↔ q ∈ s.paths ∧ t.Lacks q := mem_added

include hs in
theorem mem_modified : q ∈ (s.diff t).modified ↔ ∃ old new, (q, new) ∈ t ∧ s.Has q old ∧ old ≠ new := by
  unfold diff
  simp only [List.mem_map, List.mem_filter, Option.any_eq_true, bne_iff_ne, hs.time?_eq_some_iff]
  constructor
  · rintro ⟨e, ⟨he, old, had, other⟩, rfl⟩
    exact ⟨old, e.2, he, had, other⟩
  · rintro ⟨old, new, he, had, other⟩
    exact ⟨(q, new), ⟨he, old, had, other⟩, rfl⟩

theorem ascending_filter (h : InOrder s) (keep : String × Stamp → Bool) :
    Path.Ascending ((s.filter keep).map (·.1)) := h.sublist (List.filter_sublist.map _)

include hs ht in
/-- Nothing is told just when the snapshots show the same. -/
theorem diff_isEmpty_iff_alike : (s.diff t).isEmpty = true ↔ s.Alike t := by
  rw [ChangeSet.isEmpty_iff]
  simp only [List.eq_nil_iff_forall_not_mem, mem_added, mem_removed, mem_modified hs]
  constructor
  · rintro ⟨added, modified, removed⟩
    have back (q : String) (time : Stamp) (h : t.Has q time) : s.Has q time := by
      obtain ⟨e, he, same, rfl⟩ := h
      obtain ⟨old, had⟩ := not_lacks_iff.mp fun new => added e.1 ⟨List.mem_map_of_mem he, new⟩
      have kept : old = e.2 := by
        by_contra other
        exact modified e.1 ⟨old, e.2, he, had, other⟩
      rw [has_iff, ← Path.same_iff.mp same, ← has_iff, ← kept]
      exact had
    refine alike_of_has hs ht fun q time => ⟨fun h => ?_, back q time⟩
    obtain ⟨e, he, same, rfl⟩ := h
    obtain ⟨new, has⟩ := not_lacks_iff.mp fun gone => removed e.1 ⟨List.mem_map_of_mem he, gone⟩
    rw [has_iff, ← Path.same_iff.mp same, ← has_iff, hs.has_unique (has_of_mem he) (back e.1 new has)]
    exact has
  · intro alike
    have has (q : String) (time : Stamp) : s.Has q time ↔ t.Has q time := by rw [has_iff, has_iff, alike]
    refine ⟨fun q h => ?_, fun q h => ?_, fun q h => ?_⟩
    · obtain ⟨e, he, rfl⟩ := List.mem_map.mp h.1
      exact not_lacks_iff.mpr ⟨_, (has e.1 e.2).mpr (has_of_mem he)⟩ h.2
    · obtain ⟨old, new, he, had, other⟩ := h
      exact other (hs.has_unique had ((has q new).mpr (has_of_mem he)))
    · obtain ⟨e, he, rfl⟩ := List.mem_map.mp h.1
      exact not_lacks_iff.mpr ⟨_, (has e.1 e.2).mp (has_of_mem he)⟩ h.2

include hs ht in
/-- A comparison of any two snapshots tells exactly what became of the files. -/
theorem tells_diff : (s.diff t).Tells s t where
  added _ := mem_added
  modified _ := mem_modified hs
  removed _ := mem_removed
  addedAscending := ascending_filter ht _
  modifiedAscending := ascending_filter ht _
  removedAscending := ascending_filter hs _
  apart := by
    -- What is told of a path in one list is not true of it in another.
    have apart {p q : String} (told : Path.same p q = true → False) : Path.same p q = false :=
      Bool.eq_false_iff.mpr told
    rw [List.pairwise_append, List.pairwise_append]
    refine ⟨⟨(ascending_filter ht _).apart, (ascending_filter ht _).apart, fun p hp q hq => ?_⟩,
      (ascending_filter hs _).apart, fun p hp q hq => ?_⟩
    · apply apart
      intro same
      obtain ⟨old, new, -, had, -⟩ := (mem_modified hs).mp hq
      exact not_lacks_iff.mpr ⟨old, had⟩ (lacks_of_same (mem_added.mp hp).2 same)
    · apply apart
      intro same
      have gone : t.Lacks p := by
        apply lacks_of_same (mem_removed.mp hq).2
        exact Path.same_iff.mpr (Path.same_iff.mp same).symm
      have there : ∃ time, t.Has p time := by
        rcases List.mem_append.mp hp with added | modified
        · obtain ⟨e, he, rfl⟩ := List.mem_map.mp (mem_added.mp added).1
          exact ⟨e.2, has_of_mem he⟩
        · obtain ⟨old, new, he, -⟩ := (mem_modified hs).mp modified
          exact ⟨new, has_of_mem he⟩
      exact not_lacks_iff.mpr there gone
  isEmpty_iff := diff_isEmpty_iff_alike hs ht

end Diff

/-! ## 2. Snapshots of one directory -/

/-- A snapshot as a look below a directory gives it; below no path there is nothing. -/
structure Below (root : String) (s : Snapshot) : Prop where
  spelled : ∀ e ∈ s, root ≠ "" ∧ ∃ names : List String, names ≠ [] ∧ (∀ n ∈ names, Path.IsName n) ∧
    e.1 = Path.join root (String.intercalate "/" names)
  once : s.paths.Nodup
  ordered : s.Pairwise fun a b => Path.le a.1 b.1 = true

theorem below_nil (root : String) : Below root [] :=
  ⟨by simp, List.nodup_nil, List.Pairwise.nil⟩

namespace Below

variable {root : String} (hs : Below root s) (ht : Below root t)

include hs ht in
/-- Below one directory two paths name the same file only when they are the same text. -/
theorem eq_of_same (ha : a ∈ s) (hb : b ∈ t) (same : Path.same a.1 b.1 = true) : a.1 = b.1 := by
  obtain ⟨given, m, m0, pm, am⟩ := hs.spelled a ha
  obtain ⟨-, n, n0, pn, bn⟩ := ht.spelled b hb
  rw [am, bn] at same ⊢
  rw [(Path.same_join given m0 n0 pm pn).1 same]

include hs in
theorem inOrder : InOrder s := by
  have distinct : s.Pairwise fun a b => a.1 ≠ b.1 := List.pairwise_map.mp hs.once
  apply List.pairwise_map.mpr
  refine (distinct.and hs.ordered).imp_of_mem fun {a b} ha hb ⟨ne, le⟩ => ?_
  cases order : Path.compare a.1 b.1 with
  | lt => rfl
  | eq => exact absurd (hs.eq_of_same hs ha hb (Path.compare_eq_iff.mp order)) ne
  | gt =>
    unfold Path.le at le
    rw [order] at le
    cases le

include hs ht

theorem eq_of_alike (alike : s.Alike t) : s = t := by
  have lengths : s.length = t.length := by
    have := congrArg List.length alike
    rwa [files, files, List.length_map, List.length_map] at this
  apply List.ext_getElem lengths
  intro i hi hj
  have entry : (Path.components s[i].1, s[i].2) = (Path.components t[i].1, t[i].2) := by
    have files (u : Snapshot) : u.files[i]? = u[i]?.map fun e => (Path.components e.1, e.2) := List.getElem?_map
    have at' := files s
    rw [alike, files t, List.getElem?_eq_getElem hi, List.getElem?_eq_getElem hj] at at'
    exact (Option.some.inj at').symm
  obtain ⟨path, time⟩ := Prod.mk.inj entry
  have same := hs.eq_of_same ht (List.getElem_mem hi) (List.getElem_mem hj) (Path.same_iff.mpr path)
  exact Prod.ext same time

/-- A comparison shows nothing just when nothing changed. -/
theorem diff_isEmpty_iff : (s.diff t).isEmpty = true ↔ s = t := by
  rw [diff_isEmpty_iff_alike hs.inOrder ht.inOrder]
  constructor
  · exact hs.eq_of_alike ht
  · rintro rfl
    rfl

end Below

/-! ## 3. What a snapshot lists -/

/-- The entry for a node, if it is a file or a link with the extension. -/
def entryOf? (root extension : String) (recursive : Bool) (e : List String × Files.Node) :
    Option (String × Stamp) := do
  let time ← e.2.modified?
  let path := Path.join root (String.intercalate "/" e.1)
  if (recursive || e.1.length == 1) && Path.extension? path == some extension then some (path, time)
  else none

section Listing
variable {root extension : String} {recursive : Bool} {nodes : List (List String × Files.Node)}

theorem ofNodes_eq : ofNodes root extension recursive nodes =
    (nodes.filterMap fun e => entryOf? root extension recursive e).mergeSort
      fun a b => Path.le a.1 b.1 := rfl

theorem path_of_entryOf {e : List String × Files.Node} {a : String × Stamp}
    (h : entryOf? root extension recursive e = some a) :
    a.1 = Path.join root (String.intercalate "/" e.1) ∧ e.2.modified? = some a.2 := by
  unfold entryOf? at h
  obtain ⟨time, timed, h⟩ := Option.bind_eq_some_iff.1 h
  dsimp only at h
  split at h
  · cases h
    exact ⟨rfl, timed⟩
  · cases h

/-- What is listed has a node with its time. -/
theorem exists_node {a : String × Stamp} (h : a ∈ ofNodes root extension recursive nodes) :
    ∃ e ∈ nodes, a.1 = Path.join root (String.intercalate "/" e.1) ∧ e.2.modified? = some a.2 := by
  rw [ofNodes_eq, List.mem_mergeSort, List.mem_filterMap] at h
  obtain ⟨e, he, h⟩ := h
  exact ⟨e, he, path_of_entryOf h⟩

/-- What is listed from nodes that stand once and under proper names. -/
theorem below_ofNodes (given : root ≠ "") (once : (nodes.map (·.1)).Nodup)
    (named : ∀ e ∈ nodes, e.1 ≠ [] ∧ ∀ n ∈ e.1, Path.IsName n) :
    Below root (ofNodes root extension recursive nodes) := by
  refine ⟨fun a ha => ?_, ?_, ?_⟩
  · obtain ⟨e, he, path, -⟩ := exists_node ha
    exact ⟨given, e.1, (named e he).1, (named e he).2, path⟩
  · rw [paths, ofNodes_eq, ((List.mergeSort_perm _ _).map _).nodup_iff, List.Nodup, List.pairwise_map,
      List.pairwise_filterMap]
    refine (List.pairwise_map.1 once).imp_of_mem fun {d e} hd he ne a ha b hb eq => ne ?_
    rw [(path_of_entryOf ha).1, (path_of_entryOf hb).1] at eq
    refine (Path.same_join given (named d hd).1 (named e he).1 (named d hd).2 (named e he).2).1 ?_
    rw [eq]
    simp [Path.same]
  · rw [ofNodes_eq]
    exact @List.pairwise_mergeSort _ (fun a b : String × Stamp => Path.le a.1 b.1)
      (fun _ _ _ ab bc => Path.le_trans ab bc) (fun _ _ => Path.le_total _ _) _

end Listing

end Snapshot

end ScriptHost
