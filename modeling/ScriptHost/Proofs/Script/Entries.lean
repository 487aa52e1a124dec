import Mathlib.Data.List.Induction
import Mathlib.Data.String.Basic
import ScriptHost.Script.Value

/-!
# Entries — keys in ascending order

Entries are only ever made by putting values at keys.  So each key is there once, the keys ascend, and what
is found under a key is what was put there.
-/

namespace ScriptHost.Script.Entries

variable {α β : Type} {key other : String} {a : α} {es : Entries α}

/-- The keys ascend. -/
def Sorted (es : Entries α) : Prop := (es.map (·.1)).Pairwise (· < ·)

theorem mem_insert {e : String × α} (h : e ∈ insert key a es) : e = (key, a) ∨ e ∈ es := by
  induction es with
  | nil => exact .inl (List.mem_singleton.mp h)
  | cons d es ih =>
    rw [insert] at h
    split at h
    · rcases List.mem_cons.mp h with rfl | h
      · exact .inl rfl
      · exact .inr (List.mem_cons_of_mem d h)
    · split at h
      · exact List.mem_cons.mp h
      · rcases List.mem_cons.mp h with rfl | h
        · exact .inr List.mem_cons_self
        · exact (ih h).imp_right (List.mem_cons_of_mem d)

theorem mem_insert_self : (key, a) ∈ insert key a es := by
  induction es with
  | nil => exact List.mem_singleton_self _
  | cons d es ih =>
    rw [insert]
    split
    · exact List.mem_cons_self
    · split
      · exact List.mem_cons_self
      · exact List.mem_cons_of_mem d ih

theorem mem_insert_of_ne {e : String × α} (h : e ∈ es) (hne : e.1 ≠ key) : e ∈ insert key a es := by
  induction es with
  | nil => exact absurd h List.not_mem_nil
  | cons d es ih =>
    rw [insert]
    split
    · next same =>
      rcases List.mem_cons.mp h with rfl | h
      · exact absurd (eq_of_beq same) hne
      · exact List.mem_cons_of_mem _ h
    · split
      · exact List.mem_cons_of_mem _ h
      · rcases List.mem_cons.mp h with rfl | h
        · exact List.mem_cons_self
        · exact List.mem_cons_of_mem d (ih h)

theorem Sorted.insert (h : Sorted es) (key : String) (a : α) : Sorted (insert key a es) := by
  induction es with
  | nil => exact List.pairwise_singleton _ _
  | cons d es ih =>
    obtain ⟨above, sorted⟩ := List.pairwise_cons.mp h
    rw [Entries.insert]
    split
    · next same =>
      exact List.pairwise_cons.mpr ⟨fun k hk => eq_of_beq same ▸ above k hk, sorted⟩
    · next different =>
      split
      · next before =>
        -- The new key is below the first one, and so below those behind it.
        refine List.pairwise_cons.mpr ⟨fun k hk => ?_, h⟩
        rcases List.mem_cons.mp hk with rfl | hk
        · exact before
        · exact lt_trans before (above k hk)
      · next after =>
        have first : d.1 < key := by
          have different : d.1 ≠ key := by simpa using different
          exact lt_of_le_of_ne (not_lt.mp after) different
        refine List.pairwise_cons.mpr ⟨fun k hk => ?_, ih sorted⟩
        obtain ⟨e, he, rfl⟩ := List.mem_map.mp hk
        rcases mem_insert he with rfl | he
        · exact first
        · exact above e.1 (List.mem_map_of_mem he)

/-- Of two values put at one key the later stays. -/
theorem insert_insert (key : String) (a b : α) (es : Entries α) :
    insert key b (insert key a es) = insert key b es := by
  induction es with
  | nil => simp [insert]
  | cons e es ih =>
    by_cases same : (e.1 == key) = true
    · simp [insert, same]
    by_cases before : key < e.1
    · simp [insert, same, before]
    · simp [insert, same, before, ih]

/-! ## Entries put one after another -/

theorem sorted_foldl {f : β → String × α} {bs : List β} (h : Sorted es) :
    Sorted (bs.foldl (fun es b => Entries.insert (f b).1 (f b).2 es) es) :=
  List.foldlRecOn bs _ h fun _ sorted b _ => sorted.insert (f b).1 (f b).2

theorem sorted_ofList (es : List (String × α)) : Sorted (ofList es) :=
  sorted_foldl (f := id) List.Pairwise.nil

/-- Whatever key something was put at, something is found there. -/
theorem exists_get?_ofList {es : List (String × α)} (h : key ∈ es.map (·.1)) :
    ∃ a, get? key (ofList es) = some a := by
  -- Over the entries put so far: the key is one of those to come or is there already.
  suffices later : ∀ m : Entries α, (key ∈ es.map (·.1) ∨ ∃ a, get? key m = some a) →
      ∃ a, get? key (es.foldl (fun m e => insert e.1 e.2 m) m) = some a from later [] (.inl h)
  clear h
  induction es with
  | nil => exact fun m h => h.resolve_left List.not_mem_nil
  | cons e es ih =>
    intro m h
    refine ih (insert e.1 e.2 m) ?_
    by_cases here : key = e.1
    · exact .inr ⟨e.2, here ▸ get?_insert_self e.1 e.2 m⟩
    · rcases h with h | h
      · exact .inl ((List.mem_cons.mp h).resolve_left here)
      · rw [get?_insert_of_ne here]
        exact .inr h

/-- Of what is put at a key the last is found. -/
theorem get?_ofList (es : List (String × α)) (key : String) : get? key (ofList es) = es.reverse.lookup key := by
  induction es using List.reverseRecOn with
  | nil => rfl
  | append_singleton es e ih =>
    have last : ofList (es ++ [e]) = Entries.insert e.1 e.2 (ofList es) := by
      rw [ofList, List.foldl_append]
      rfl
    rw [last, List.reverse_append, List.reverse_singleton, List.singleton_append]
    by_cases here : key = e.1
    · rw [here, get?_insert_self, List.lookup_cons_self]
    · rw [get?_insert_of_ne here, ih, List.lookup_cons, beq_eq_false_iff_ne.mpr here]

/-- Something is found under a key where there is an entry for it. -/
theorem exists_get?_iff : (∃ a, get? key es = some a) ↔ key ∈ es.map (·.1) := by
  induction es with
  | nil => simp [get?]
  | cons e es ih =>
    obtain ⟨k, b⟩ := e
    rw [get?_cons, List.map_cons, List.mem_cons, ← ih]
    by_cases here : key = k
    · simp [here]
    · simp [here]

/-- Where the value at a key is always the same, the entries are the keys with those values. -/
theorem mem_foldl_insert {k : β → String} {v : String → α} {bs : List β} {e : String × α} :
    e ∈ bs.foldl (fun es b => Entries.insert (k b) (v (k b)) es) [] ↔
      e.2 = v e.1 ∧ ∃ b ∈ bs, k b = e.1 := by
  induction bs using List.reverseRecOn with
  | nil => simp
  | append_singleton bs b ih =>
    rw [List.foldl_append, List.foldl_cons, List.foldl_nil]
    constructor
    · intro h
      rcases mem_insert h with rfl | h
      · exact ⟨rfl, b, by simp, rfl⟩
      · obtain ⟨same, b', hb', named⟩ := ih.mp h
        exact ⟨same, b', List.mem_append_left _ hb', named⟩
    · rintro ⟨same, b', hb', named⟩
      by_cases here : e.1 = k b
      · rw [show e = (k b, v (k b)) from Prod.ext here (here ▸ same)]
        exact mem_insert_self
      · refine mem_insert_of_ne (ih.mpr ⟨same, b', ?_, named⟩) here
        rcases List.mem_append.mp hb' with hb' | hb'
        · exact hb'
        · rw [List.mem_singleton.mp hb'] at named
          exact absurd named.symm here

end ScriptHost.Script.Entries
