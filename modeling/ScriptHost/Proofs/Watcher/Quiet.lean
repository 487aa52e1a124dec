import ScriptHost.Proofs.Files.History
import ScriptHost.Proofs.Watcher.Snapshot
import ScriptHost.Watcher.Basic
import Mathlib

/-!
# Quiet polls — nothing that was read is out of date

A watcher looks at the times of the files and reads their texts later, while others change them.  When a
later look shows nothing new, every file that was read, at whatever moment between the two looks, was
read as it is.  A link is the exception: the look sees when the link was made and the reading follows it.
-/

namespace ScriptHost

/-! ## 1. One look -/

namespace Watcher

variable {w : Watcher} {fs : Files} {s : Snapshot}

/-- What a look lists has a node below the directory that the root leads to. -/
structure Seen (fs : Files) (root : String) (e : String × Stamp) (directory names : List String)
    (node : Files.Node) : Prop where
  found : fs.locate true root = .ok directory
  isDirectory : fs.node? directory = some .directory
  inside : names ≠ []
  path : e.1 = Path.join root (String.intercalate "/" names)
  there : fs.node? (directory ++ names) = some node
  time : node.modified? = some e.2

theorem scan_eq_ok (h : w.scan fs = .ok s) : s = [] ∨ ∃ nodes, fs.list w.root = .ok nodes ∧
    s = .ofNodes w.root w.extension w.recursive nodes := by
  unfold scan at h
  split at h
  · split at h
    · exact .inr ⟨_, by assumption, (Except.ok.inj h).symm⟩
    · cases h
  · exact .inl (Except.ok.inj h).symm

theorem exists_seen (wf : fs.WellFormed) (h : w.scan fs = .ok s) {e : String × Stamp} (he : e ∈ s) :
    ∃ directory names node, Seen fs w.root e directory names node := by
  obtain rfl | ⟨nodes, listed, rfl⟩ := scan_eq_ok h
  · cases he
  · obtain ⟨directory, found, isDirectory, rfl⟩ := Files.list_eq_ok listed
    obtain ⟨⟨names, node⟩, mem, path, time⟩ := Snapshot.exists_node he
    obtain ⟨mem, inside⟩ := Files.mem_listing.1 mem
    exact ⟨directory, names, node, found, isDirectory, inside, path, wf.node?_of_mem mem, time⟩

theorem below_scan (wf : fs.WellFormed) (h : w.scan fs = .ok s) : s.Below w.root := by
  obtain rfl | ⟨nodes, listed, rfl⟩ := scan_eq_ok h
  · exact Snapshot.below_nil _
  · obtain ⟨directory, found, -, rfl⟩ := Files.list_eq_ok listed
    refine Snapshot.below_ofNodes (Files.ne_empty_of_locate found) (wf.listing_once directory) ?_
    intro e he
    obtain ⟨mem, inside⟩ := Files.mem_listing.1 he
    exact ⟨inside, fun n hn => (wf.named _ mem).2 n (List.mem_append_right _ hn)⟩

/-- Two looks that compare as unchanged saw the same. -/
theorem eq_of_diff {fs' : Files} {s' : Snapshot} (wf : fs.WellFormed) (wf' : fs'.WellFormed)
    (h : w.scan fs = .ok s) (h' : w.scan fs' = .ok s') (same : (s.diff s').isEmpty = true) : s = s' :=
  ((below_scan wf h).diff_isEmpty_iff (below_scan wf' h')).1 same

/-- A poll or a rescan that takes over what it sees. -/
def Adopts (before : Watcher) (fs : Files) (after : Watcher) : Prop :=
  (∃ notices changes, before.poll notices fs = (some changes, after)) ∨
    ∃ changes, before.rescan fs = .ok (changes, after)

theorem poll_of_polling (polling : w.nudge = none) (notices : List Notice) (fs : Files) :
    w.poll notices fs = w.look fs := by
  unfold poll
  rw [polling]

/-- What was taken over is what a look would see at that moment. -/
theorem Adopts.scan {before after : Watcher} (polling : before.nudge = none)
    (h : before.Adopts fs after) : after.scan fs = .ok after.snapshot ∧ after.nudge = none := by
  obtain ⟨notices, changes, h⟩ | ⟨changes, h⟩ := h
  · rw [poll_of_polling polling, look] at h
    cases seen : before.scan fs with
    | error e => rw [seen] at h; cases h
    | ok current =>
      rw [seen] at h
      dsimp only at h
      split at h
      · cases h
      · obtain rfl := (Prod.mk.inj h).2
        exact ⟨seen, polling⟩
  · obtain ⟨current, seen, h⟩ := exists_of_bind h
    obtain rfl := (Prod.mk.inj (Except.ok.inj h)).2
    exact ⟨seen, polling⟩

/-- A poll that shows nothing saw what was seen before. -/
theorem diff_of_quiet (polling : w.nudge = none) {notices : List Notice}
    (quiet : (w.poll notices fs).1 = none) (seen : w.scan fs = .ok s) :
    (w.snapshot.diff s).isEmpty = true := by
  rw [poll_of_polling polling, look, seen] at quiet
  dsimp only at quiet
  split at quiet
  · assumption
  · cases quiet

end Watcher

/-! ## 2. What lies between two looks -/

namespace Files

/-- Whether a path leads to a link. -/
def isLink (fs : Files) (path : String) : Bool :=
  match fs.locate false path with
  | .ok names => (fs.node? names).any (· matches .link ..)
  | .error _ => false

end Files

namespace Watcher.Seen

variable {fs : Files} {root : String} {e : String × Stamp} {directory names : List String}
  {node : Files.Node}

/-- The names of a file that is listed are all proper. -/
theorem proper (wf : fs.WellFormed) (h : Seen fs root e directory names node) :
    ∀ n ∈ names, Path.IsName n := fun n hn =>
  wf.proper (by rw [h.there]; simp) n (List.mem_append_right directory hn)

/-- One path below the root is listed for the same names in every tree. -/
theorem same_names {fs' : Files} {directory' names' : List String} {node' : Files.Node}
    (wf : fs.WellFormed) (wf' : fs'.WellFormed) (h : Seen fs root e directory names node)
    (h' : Seen fs' root e directory' names' node') : names = names' := by
  refine (Path.same_join (Files.ne_empty_of_locate h.found) h.inside h'.inside (h.proper wf)
    (h'.proper wf')).1 ?_
  rw [← h.path, ← h'.path]
  simp [Path.same]

/-- What is listed and no link is a file. -/
theorem file (wf : fs.WellFormed) (h : Seen fs root e directory names node) (plain : fs.isLink e.1 = false) :
    ∃ bytes, fs.node? (directory ++ names) = some (.file bytes e.2) := by
  have there := h.there
  have time := h.time
  cases node with
  | file bytes modified =>
    obtain rfl : modified = e.2 := Option.some.inj time
    exact ⟨bytes, there⟩
  | link target modified =>
    have located : fs.locate false e.1 = .ok (directory ++ names) := by
      rw [h.path]
      exact Files.locate_join wf h.found h.isDirectory h.inside (by rw [there]; simp) fun _ _ _ => rfl
    unfold Files.isLink at plain
    rw [located] at plain
    dsimp only at plain
    rw [there] at plain
    cases plain
  | directory => cases time

end Watcher.Seen

namespace History

variable {h : History}

/-- A path that leads the same way between two moments: straight at both of them, or all the time to the
    same place. -/
def Steady (h : History) (path : String) (s t : Nat) : Prop :=
  (h.files s).Straight path ∧ (h.files t).Straight path ∨
    ∃ names, ∀ u, s ≤ u → u ≤ t → (h.files u).locate true path = .ok names

/-- A path that names no link at two moments. -/
def Plain (h : History) (path : String) (s t : Nat) : Prop :=
  (h.files s).isLink path = false ∧ (h.files t).isLink path = false

/-- A steady path leads to one place at both ends. -/
theorem Steady.same (wf : h.start.WellFormed) {root : String} {s t : Nat} (st : s ≤ t)
    (steady : h.Steady root s t) {a b : List String} (ha : (h.files s).locate true root = .ok a)
    (hb : (h.files t).locate true root = .ok b) : a = b := by
  obtain ⟨⟨-, first⟩, -, last⟩ | ⟨names, all⟩ := steady
  · rw [ha] at first
    rw [hb] at last
    rw [Except.ok.inj first, Except.ok.inj last]
    simp only [Files.base, home wf]
  · rw [all s (Nat.le_refl s) st] at ha
    rw [all t st (Nat.le_refl t)] at hb
    exact (Except.ok.inj ha).symm.trans (Except.ok.inj hb)

/-- A steady path leads to its directory whenever something stands below it. -/
theorem Steady.locate (wf : h.start.WellFormed) {root : String} {s t u : Nat} (su : s ≤ u) (ut : u ≤ t)
    (steady : h.Steady root s t) {directory names : List String}
    (found : (h.files s).locate true root = .ok directory) (inside : names ≠ [])
    (there : (h.files u).node? (directory ++ names) ≠ none) :
    (h.files u).locate true root = .ok directory := by
  obtain ⟨⟨descends, straight⟩, -⟩ | ⟨place, all⟩ := steady
  · have given := Files.ne_empty_of_locate found
    have eq : directory = Files.lead ((h.files u).base root) (Files.steps root) := by
      rw [found] at straight
      rw [Except.ok.inj straight]
      simp only [Files.base, home wf]
    rw [Files.locate_eq_ok given, eq]
    refine Files.leads_straight descends fun up le => ?_
    rw [← eq] at le
    exact (wellFormed wf u).directory_over le inside there
  · rw [all s (Nat.le_refl s) (Nat.le_trans su ut)] at found
    rw [all u su ut, found]

/-- A file that two looks list with one time is read the same whenever it is read between them. -/
theorem loadFile_between (wf : h.start.WellFormed) (fresh : h.Fresh) {root : String}
    {e : String × Stamp} {s t : Nat} (st : s ≤ t) (steady : h.Steady root s t)
    {a b m n : List String} {x y : Files.Node} (first : Watcher.Seen (h.files s) root e a m x)
    (last : Watcher.Seen (h.files t) root e b n y) (plain : h.Plain e.1 s t) {u : Nat} (su : s ≤ u)
    (ut : u ≤ t) :
    Watcher.loadFile (h.files u) e.1 = Watcher.loadFile (h.files t) e.1 := by
  obtain rfl := steady.same wf st first.found last.found
  obtain rfl := first.same_names (wellFormed wf s) (wellFormed wf t) last
  obtain ⟨old, before⟩ := first.file (wellFormed wf s) plain.1
  obtain ⟨new, after⟩ := last.file (wellFormed wf t) plain.2
  have reads : ∀ v, s ≤ v → v ≤ t → (h.files v).read e.1 = .ok new := by
    intro v sv vt
    have there := file_unchanged wf fresh before after sv vt
    have found := steady.locate wf sv vt first.found first.inside (by rw [there]; simp)
    have located : (h.files v).locate true e.1 = .ok (a ++ m) := by
      rw [first.path]
      refine Files.locate_join (wellFormed wf v) found ?_ first.inside (by rw [there]; simp) ?_
      · exact (wellFormed wf v).directory_over List.prefix_rfl first.inside (by rw [there]; simp)
      · rw [there]; simp
    exact Files.read_of_file located there
  unfold Watcher.loadFile Files.readText
  rw [reads u su ut, reads t st (Nat.le_refl t)]

end History

/-- **Nothing is lost between a look and a reading.**  Let a polling watcher take over a snapshot at
    moment `r`, and let a poll at a later moment `t` show nothing although its look succeeds.  Then the
    snapshot lists the files that are there at `t`, and each of them that is no link was read, at
    whatever moment in between, as it reads at `t`.  No write may give a file a time that it had before,
    and the watched directory has to be reached the same way. -/
theorem Watcher.read_is_current (h : History) (wf : h.start.WellFormed) (fresh : h.Fresh)
    {before w : Watcher} {r t : Nat} (rt : r ≤ t) (polling : before.nudge = none)
    (adopted : before.Adopts (h.files r) w) (steady : h.Steady w.root r t)
    {notices : List Notice} (quiet : (w.poll notices (h.files t)).1 = none) {current : Snapshot}
    (scans : w.scan (h.files t) = .ok current) :
    w.snapshot = current ∧
      (∀ p ∈ current.paths, h.Plain p r t → ∀ s, r ≤ s → s ≤ t →
        Watcher.loadFile (h.files s) p = Watcher.loadFile (h.files t) p) ∧
      ((∀ p ∈ current.paths, h.Plain p r t) → ∀ s, r ≤ s → s ≤ t →
        w.load (h.files s) = ({ w with snapshot := current } : Watcher).load (h.files t)) := by
  obtain ⟨seen, polls⟩ := adopted.scan polling
  have wf₁ := History.wellFormed wf r
  have wf₂ := History.wellFormed wf t
  have same : w.snapshot = current := eq_of_diff wf₁ wf₂ seen scans (diff_of_quiet polls quiet scans)
  have reads : ∀ p ∈ current.paths, h.Plain p r t → ∀ s, r ≤ s → s ≤ t →
      Watcher.loadFile (h.files s) p = Watcher.loadFile (h.files t) p := by
    intro p hp plain s rs st
    obtain ⟨e, he, rfl⟩ := List.mem_map.1 hp
    obtain ⟨a, m, x, first⟩ := exists_seen wf₁ seen (same ▸ he)
    obtain ⟨b, n, y, last⟩ := exists_seen wf₂ scans he
    exact History.loadFile_between wf fresh rt steady first last plain rs st
  refine ⟨same, reads, fun plain s rs st => ?_⟩
  have read {e : String × Stamp} (he : e ∈ current) :
      loadFile (h.files s) e.1 = loadFile (h.files t) e.1 :=
    have hp : e.1 ∈ current.paths := List.mem_map_of_mem he
    reads e.1 hp (plain e.1 hp) s rs st
  unfold load
  rw [same]
  congr 1
  · exact List.map_congr_left fun e he => by dsimp only; rw [read he]
  · exact List.filterMap_congr fun e he => by dsimp only; rw [read he]

/-- A watcher of a directory that saw some scripts there. -/
def watching (root : String) (s : Snapshot) : Watcher := ⟨root, "ks", false, s, none⟩

/-- After the third step, in which a script was written, a note is. -/
def noteBeside : History := ⟨.empty, fun
  | 0 => .makeDirectory "s"
  | 1 => .write "s/a.ks" (utf8 "fn f() \x7b 1 \x7d\n") (.time 1000000000)
  | 2 => .write "notes.txt" [] (.time 1000000000)
  | _ => .remove "gone"⟩

theorem noteBeside_fresh : noteBeside.Fresh := by
  intro t path bytes time names wrote found s st old
  obtain rfl | rfl | rfl | late : t = 0 ∨ t = 1 ∨ t = 2 ∨ 3 ≤ t := by omega
  · cases wrote
  · cases wrote
    rw [show (noteBeside.files 1).locate true "s/a.ks" = .ok ["s", "a.ks"] by cbv] at found
    cases found
    have free : (noteBeside.files s).node? ["s", "a.ks"] = none := by
      obtain rfl | rfl : s = 0 ∨ s = 1 := by omega
      all_goals cbv
    simp [free]
  · cases wrote
    rw [show (noteBeside.files 2).locate true "notes.txt" = .ok ["notes.txt"] by cbv] at found
    cases found
    have free : (noteBeside.files s).node? ["notes.txt"] = none := by
      obtain rfl | rfl | rfl : s = 0 ∨ s = 1 ∨ s = 2 := by omega
      all_goals cbv
    simp [free]
  · obtain ⟨later, rfl⟩ := Nat.exists_eq_add_of_le' late
    cases wrote

/-- The script was read before the note was written, and reads the same behind it. -/
theorem Watcher.note_beside_is_quiet :
    (watching "s" []).poll [] (noteBeside.files 2) =
        (some ⟨["s/a.ks"], [], []⟩, watching "s" [("s/a.ks", .time 1000000000)]) ∧
      ((watching "s" [("s/a.ks", .time 1000000000)]).poll [] (noteBeside.files 3)).1 = none ∧
      (watching "s" [("s/a.ks", .time 1000000000)]).load (noteBeside.files 2) =
        (watching "s" [("s/a.ks", .time 1000000000)]).load (noteBeside.files 3) := by
  obtain ⟨took, quiet, scans, noLink, noLink', place, place'⟩ :
      (watching "s" []).poll [] (noteBeside.files 2) =
        (some ⟨["s/a.ks"], [], []⟩, watching "s" [("s/a.ks", .time 1000000000)]) ∧
      ((watching "s" [("s/a.ks", .time 1000000000)]).poll [] (noteBeside.files 3)).1 = none ∧
      (watching "s" [("s/a.ks", .time 1000000000)]).scan (noteBeside.files 3) =
        .ok [("s/a.ks", .time 1000000000)] ∧
      (noteBeside.files 2).isLink "s/a.ks" = false ∧ (noteBeside.files 3).isLink "s/a.ks" = false ∧
      (noteBeside.files 2).locate true "s" = .ok (Files.lead ((noteBeside.files 2).base "s") (Files.steps "s")) ∧
      (noteBeside.files 3).locate true "s" =
        .ok (Files.lead ((noteBeside.files 3).base "s") (Files.steps "s")) := by
    cbv
    exact ⟨rfl, rfl⟩
  have steady : noteBeside.Steady "s" 2 3 := .inl ⟨⟨by decide +kernel, place⟩, by decide +kernel, place'⟩
  have plain : ∀ p ∈ ["s/a.ks"], noteBeside.Plain p 2 3 := by
    intro p hp
    obtain rfl := List.mem_singleton.1 hp
    exact ⟨noLink, noLink'⟩
  have current := Watcher.read_is_current noteBeside Files.wellFormed_empty noteBeside_fresh
    (by decide : 2 ≤ 3) rfl (.inl ⟨[], _, took⟩) steady quiet scans
  exact ⟨took, quiet, current.2.2 plain 2 (by decide) (by decide)⟩

/-- A script that is a link, and its target is written after the fourth step. -/
def behindLink : History := ⟨.empty, fun
  | 0 => .makeDirectory "d"
  | 1 => .write "d/a" (utf8 "fn f() \x7b 1 \x7d\n") (.time 1000000000)
  | 2 => .makeDirectory "s"
  | 3 => .makeLink "s/a.ks" "../d/a"
  | 4 => .write "d/a" (utf8 "fn f() \x7b 2 \x7d\n") (.time 2000000000)
  | _ => .remove "gone"⟩

/-- The target until it is written for the second time. -/
theorem behindLink_target {t : Nat} (le : t ≤ 4) : (behindLink.files t).node? ["d", "a"] =
    if t < 2 then none
    else some (.file (utf8 "fn f() \x7b 1 \x7d\n") (.time 1000000000)) := by
  obtain rfl | rfl | rfl | rfl | rfl : t = 0 ∨ t = 1 ∨ t = 2 ∨ t = 3 ∨ t = 4 := by omega
  all_goals cbv

theorem behindLink_fresh : behindLink.Fresh := by
  intro t path bytes time names wrote found s st old
  obtain rfl | rfl | rfl | rfl | rfl | late :
    t = 0 ∨ t = 1 ∨ t = 2 ∨ t = 3 ∨ t = 4 ∨ 5 ≤ t := by omega
  · cases wrote
  · cases wrote
    rw [show (behindLink.files 1).locate true "d/a" = .ok ["d", "a"] by cbv] at found
    cases found
    rw [behindLink_target (by omega), if_pos (by omega)]
    simp
  · cases wrote
  · cases wrote
  · cases wrote
    rw [show (behindLink.files 4).locate true "d/a" = .ok ["d", "a"] by cbv] at found
    cases found
    rw [behindLink_target st]
    split <;> simp
  · obtain ⟨later, rfl⟩ := Nat.exists_eq_add_of_le' late
    cases wrote

/-- The text behind the link changed after it was read, and the next poll tells nothing. -/
theorem Watcher.edit_behind_link_unseen :
    behindLink.start.WellFormed ∧ behindLink.Fresh ∧
      (watching "s" []).poll [] (behindLink.files 4) =
        (some ⟨["s/a.ks"], [], []⟩, watching "s" [("s/a.ks", .tick 0)]) ∧
      ((watching "s" [("s/a.ks", .tick 0)]).poll [] (behindLink.files 5)).1 = none ∧
      (watching "s" [("s/a.ks", .tick 0)]).scan (behindLink.files 5) = .ok [("s/a.ks", .tick 0)] ∧
      (watching "s" [("s/a.ks", .tick 0)]).load (behindLink.files 4) ≠
        (watching "s" [("s/a.ks", .tick 0)]).load (behindLink.files 5) := by
  obtain ⟨took, quiet, scans⟩ :
      (watching "s" []).poll [] (behindLink.files 4) =
        (some ⟨["s/a.ks"], [], []⟩, watching "s" [("s/a.ks", .tick 0)]) ∧
      ((watching "s" [("s/a.ks", .tick 0)]).poll [] (behindLink.files 5)).1 = none ∧
      (watching "s" [("s/a.ks", .tick 0)]).scan (behindLink.files 5) = .ok [("s/a.ks", .tick 0)] := by
    cbv
  have before : ((watching "s" [("s/a.ks", .tick 0)]).load (behindLink.files 4)).files.map (·.content) =
      ["fn f() \x7b 1 \x7d\n"] := by cbv
  have behind : ((watching "s" [("s/a.ks", .tick 0)]).load (behindLink.files 5)).files.map (·.content) =
      ["fn f() \x7b 2 \x7d\n"] := by cbv
  refine ⟨Files.wellFormed_empty, behindLink_fresh, took, quiet, scans, fun same => ?_⟩
  have texts := congrArg (fun batch : Batch => batch.files.map (·.content)) same
  exact absurd (before.symm.trans (texts.trans behind)) (by decide)

/-- A directory that the way to the scripts goes through and back is gone while they are read. -/
def gapOnTheWay : History := ⟨.empty, fun
  | 0 => .makeDirectory "x"
  | 1 => .makeDirectory "s"
  | 2 => .write "s/a.ks" (utf8 "fn f() \x7b 1 \x7d\n") (.time 1000000000)
  | 3 => .removeDirectory "x"
  | _ => .makeDirectory "x"⟩

-- So the way has to be steady: nothing is read, and the poll behind it shows nothing.
example :
    (watching "x/../s" [("x/../s/a.ks", .time 1000000000)]).scan (gapOnTheWay.files 3) =
        .ok [("x/../s/a.ks", .time 1000000000)] ∧
      (Watcher.loadFile (gapOnTheWay.files 4) "x/../s/a.ks").1 = "" ∧
      ((watching "x/../s" [("x/../s/a.ks", .time 1000000000)]).poll [] (gapOnTheWay.files 5)).1 = none ∧
      (Watcher.loadFile (gapOnTheWay.files 5) "x/../s/a.ks").1 = "fn f() \x7b 1 \x7d\n" := by
  cbv

end ScriptHost
