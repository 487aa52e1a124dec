/-!
# Step — what a step ensures

Reading and running go by steps that change a state and may fail.  What a step ensures is computed from
its parts, so that a statement about a composed step is proved along its text.
-/

namespace ScriptHost

variable {ε σ α β : Type}

/-- `Q` holds of what the step gives from the state `s`, or `E` of what it fails with; both see the state
    that is left. -/
def Ensures (x : ExceptT ε (StateM σ) α) (s : σ) (Q : α → σ → Prop) (E : ε → σ → Prop) : Prop :=
  match x.run.run s with
  | (.ok a, t) => Q a t
  | (.error e, t) => E e t

namespace Ensures

variable {x : ExceptT ε (StateM σ) α} {f : α → ExceptT ε (StateM σ) β} {s : σ}
  {Q Q' : α → σ → Prop} {R : β → σ → Prop} {E E' : ε → σ → Prop}

theorem mono (h : Ensures x s Q E) (gives : ∀ a t, Q a t → Q' a t) (fails : ∀ e t, E e t → E' e t) :
    Ensures x s Q' E' := by
  unfold Ensures at h ⊢
  split <;> rename_i hx <;> rw [hx] at h
  · exact gives _ _ h
  · exact fails _ _ h

/-- What is asked only of the result may be weakened by itself. -/
theorem imp (h : Ensures x s Q E) (gives : ∀ a t, Q a t → Q' a t) : Ensures x s Q' E :=
  h.mono gives fun _ _ he => he

/-- Two facts that are ensured are handed on one by one. -/
theorem imp₂ {P P' : α → σ → Prop} (h : Ensures x s (fun a t => P a t ∧ P' a t) E)
    (gives : ∀ a t, P a t → P' a t → Q a t) : Ensures x s Q E :=
  h.imp fun a t both => gives a t both.1 both.2

/-- Nothing is asked, nothing is to be shown. -/
theorem of_true (gives : ∀ a t, Q a t) (fails : ∀ e t, E e t) : Ensures x s Q E := by
  unfold Ensures
  split
  · exact gives _ _
  · exact fails _ _

@[simp] theorem pure_iff {a : α} : Ensures (pure a) s Q E ↔ Q a s := Iff.rfl

@[simp] theorem throw_iff {e : ε} : Ensures (throw e) s Q E ↔ E e s := Iff.rfl

@[simp] theorem bind_iff :
    Ensures (x >>= f) s R E ↔ Ensures x s (fun a t => Ensures (f a) t R E) E := by
  show (match (x >>= f).run.run s with | (.ok a, t) => R a t | (.error e, t) => E e t) ↔
    match x.run.run s with
    | (.ok a, t) => Ensures (f a) t R E
    | (.error e, t) => E e t
  rw [ExceptT.run_bind, StateT.run_bind]
  rcases hx : x.run.run s with ⟨r, t⟩
  cases r <;> rfl

@[simp] theorem map_iff {g : α → β} : Ensures (g <$> x) s R E ↔ Ensures x s (fun a t => R (g a) t) E := by
  rw [map_eq_pure_bind]
  exact bind_iff

@[simp] theorem discard_iff {R : Unit → σ → Prop} :
    Ensures (discard x) s R E ↔ Ensures x s (fun _ t => R () t) E := map_iff

@[simp] theorem get_iff {Q : σ → σ → Prop} :
    Ensures (get : ExceptT ε (StateM σ) σ) s Q E ↔ Q s s := Iff.rfl

@[simp] theorem set_iff {t : σ} {Q : PUnit → σ → Prop} :
    Ensures (set t : ExceptT ε (StateM σ) PUnit) s Q E ↔ Q ⟨⟩ t := Iff.rfl

@[simp] theorem modify_iff {g : σ → σ} {Q : PUnit → σ → Prop} :
    Ensures (modify g : ExceptT ε (StateM σ) PUnit) s Q E ↔ Q ⟨⟩ (g s) := Iff.rfl

@[simp] theorem modifyGet_iff {g : σ → α × σ} :
    Ensures (modifyGet g : ExceptT ε (StateM σ) α) s Q E ↔ Q (g s).1 (g s).2 := Iff.rfl

@[simp] theorem ite_iff {c : Prop} [Decidable c] {y : ExceptT ε (StateM σ) α} :
    Ensures (if c then x else y) s Q E ↔ if c then Ensures x s Q E else Ensures y s Q E := by
  split <;> rfl

/-- A handler is asked what it ensures from wherever the failure left the state. -/
theorem tryCatch_of {handle : ε → ExceptT ε (StateM σ) α} (h : Ensures x s Q E')
    (handled : ∀ e t, E' e t → Ensures (handle e) t Q E) : Ensures (tryCatch x handle) s Q E := by
  have run : (tryCatch x handle).run.run s =
      match x.run.run s with
      | (.ok a, t) => (.ok a, t)
      | (.error e, t) => (handle e).run.run t := by
    show (x.run >>= fun
      | .ok a => pure (.ok a)
      | .error e => (handle e).run).run s = _
    rw [StateT.run_bind]
    rcases x.run.run s with ⟨r, t⟩
    cases r <;> rfl
  unfold Ensures at h ⊢
  rw [run]
  rcases hx : x.run.run s with ⟨r, t⟩
  rw [hx] at h
  cases r with
  | ok a => exact h
  | error e => exact handled e t h

end Ensures

/-- What a run of two steps went through that change no state. -/
theorem exists_of_bind {x : Except ε α} {f : α → Except ε β} {b : β} (h : (x >>= f) = .ok b) :
    ∃ a, x = .ok a ∧ f a = .ok b := by
  cases x with
  | error e => cases h
  | ok a => exact ⟨a, rfl, h⟩

end ScriptHost
