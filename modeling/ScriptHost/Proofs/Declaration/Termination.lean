import ScriptHost.Proofs.Declaration.Progress

/-!
# Termination — parsing ends, with no more faults than tokens

Behind a round that has another there is a token less, so that every loop of the parser has a last round, and what it
then comes to is what the function with fuel gives.  Fuel is only how the functions are written: with enough of it for
the text that is left more makes no difference.
-/

namespace ScriptHost.Declaration

open Text (encode encode_cons exists_encoded Position)

namespace Parse

variable {α β σ : Type} {x x' : Parse α} {f f' : α → Parse β} {c : Cursor} {k n fuel : Nat}

/-! ## 1. Steps that agree -/

/-- Two steps do the same wherever no more characters than so many are left. -/
def AgreeUpTo (n : Nat) (x x' : Parse α) : Prop := ∀ c, c.rest.length ≤ n → x.run.run c = x'.run.run c

theorem AgreeUpTo.refl (x : Parse α) : AgreeUpTo n x x := fun _ _ => rfl

theorem AgreeUpTo.of_eq (h : x = x') : AgreeUpTo n x x' := h ▸ .refl x

/-- What two steps that agree are followed by has to agree only on what they leave. -/
theorem agree_bind (hx : AgreeUpTo n x x') (spends : Spends k x)
    (hf : ∀ m, m + k ≤ n → ∀ a, AgreeUpTo m (f a) (f' a)) : AgreeUpTo n (x >>= f) (x' >>= f') := by
  intro c short
  rw [run_bind, run_bind, ← hx c short]
  rcases run : x.run.run c with ⟨fault | a, d⟩
  · rfl
  · have shorter := (spends.gains run).length_le
    exact hf d.rest.length (by omega) a d (Nat.le_refl _)

theorem agree_behind (spends : Spends 0 x) (hf : ∀ a, AgreeUpTo n (f a) (f' a)) : AgreeUpTo n (x >>= f) (x >>= f') :=
  agree_bind (.refl x) spends fun _ le a c short => hf a c (short.trans le)

theorem agree_front (hx : AgreeUpTo n x x') : AgreeUpTo n (x >>= f) (x' >>= f) := fun c short => by
  rw [run_bind, run_bind, hx c short]

theorem agree_map {g : α → β} (hx : AgreeUpTo n x x') : AgreeUpTo n (g <$> x) (g <$> x') := by
  rw [map_eq_pure_bind, map_eq_pure_bind]
  exact agree_front hx

theorem agree_ite {p : Prop} [Decidable p] {y y' : Parse α} (hx : AgreeUpTo n x x') (hy : AgreeUpTo n y y') :
    AgreeUpTo n (if p then x else y) (if p then x' else y') := by
  split
  · exact hx
  · exact hy

theorem agree_next_bind {g g' : Lexeme → Parse α} (hg : ∀ m, m + 1 ≤ n → ∀ l, AgreeUpTo m (g l) (g' l))
    (ended : ∀ l, l.token = .eof → g l = g' l) : AgreeUpTo n (next >>= g) (next >>= g') := by
  intro c short
  show (g c.next.1).run.run c.next.2 = (g' c.next.1).run.run c.next.2
  by_cases ends : c.next.1.token = .eof
  · rw [ended _ ends]
  · have shorter := c.next_shorter ends
    exact hg c.next.2.rest.length (by omega) _ _ (Nat.le_refl _)

theorem agree_andThen {round round' : Parse (Round σ α)} {more more' : σ → Parse α} (hr : AgreeUpTo n round round')
    (spends : Spends 1 round) (hm : ∀ m, m + 1 ≤ n → ∀ s, AgreeUpTo m (more s) (more' s)) :
    AgreeUpTo n (round >>= Round.andThen more) (round' >>= Round.andThen more') := by
  refine agree_bind hr spends fun m le r => ?_
  cases r with
  | again s => exact hm m le s
  | leave a => exact .refl _

/-! ## 2. Enough fuel for a literal -/

/-- Rounds agree where their literals do. -/
def Congruent (round : Parse Literal → σ → Parse (Round σ α)) : Prop :=
  ∀ ⦃n x x'⦄, AgreeUpTo n x x' → ∀ sofar, AgreeUpTo n (round x sofar) (round x' sofar)

theorem congruent_vectorRound (head : Position) : Congruent fun literal => vectorRound literal head :=
  fun _ _ _ hl _ => agree_front hl

theorem congruent_arrayRound : Congruent arrayRound :=
  fun _ _ _ hl _ => agree_behind (spends_accept nofun) fun _ => agree_ite (.refl _) (agree_front hl)

theorem agree_entryRound {literal literal' : Parse Literal} (hl : AgreeUpTo n literal literal')
    (sofar : List (String × Literal)) (key : String) :
    AgreeUpTo n (entryRound literal sofar key) (entryRound literal' sofar key) :=
  agree_behind (spends_past nofun) fun _ => agree_front hl

theorem congruent_mapRound : Congruent mapRound := by
  refine fun n x x' hl sofar => agree_behind spends_next fun l => ?_
  split
  · exact .refl _
  · exact agree_entryRound hl sofar _
  · exact agree_entryRound hl sofar _
  · exact .refl _

/-- With so much fuel, where it is enough, more of it makes no difference to the functions for literals. -/
structure SettledLiterals (fuel : Nat) : Prop where
  literal : ∀ n, 2 * n + 1 ≤ fuel → AgreeUpTo n (literal fuel) (literal (fuel + 1))
  components : ∀ head n, 2 * n + 2 ≤ fuel → AgreeUpTo n (components fuel head) (components (fuel + 1) head)
  items : ∀ n, 2 * n + 2 ≤ fuel → AgreeUpTo n (items fuel) (items (fuel + 1))
  entries : ∀ n, 2 * n + 2 ≤ fuel → AgreeUpTo n (entries fuel) (entries (fuel + 1))

theorem agree_literal_succ (ih : SettledLiterals fuel) (n : Nat) (enough : 2 * n + 1 ≤ fuel + 1) :
    AgreeUpTo n (literal (fuel + 1)) (literal (fuel + 2)) := by
  refine agree_next_bind (fun m le l => ?_) fun l ends => ?_
  · split
    · exact .refl _
    · exact .refl _
    · exact .refl _
    · exact .refl _
    · exact .refl _
    · exact .refl _
    · split
      · refine agree_behind (spends_past nofun) fun _ => agree_front (ih.components _ m (by omega))
      · exact .refl _
    · exact agree_front (ih.items m (by omega))
    · exact agree_behind (spends_past nofun) fun _ => agree_front (ih.entries m (by omega))
    · exact .refl _
  · rw [ends]

theorem GoesBy.settled {round : Parse Literal → List β → Parse (Round (List β) (List β))}
    {list : Nat → Parse (List β)} (h : GoesBy round list) (congruent : Congruent round) (ih : SettledLiterals fuel)
    (more : ∀ n, 2 * n + 2 ≤ fuel → AgreeUpTo n (list fuel) (list (fuel + 1))) (n : Nat)
    (enough : 2 * n + 2 ≤ fuel + 1) : AgreeUpTo n (list (fuel + 1)) (list (fuel + 2)) := by
  rw [← map_nil_append (list (fuel + 1)), ← map_nil_append (list (fuel + 2)), h.succ, h.succ]
  -- The literal takes a character at least, and with it two of fuel, so that there is enough for what is behind it.
  refine agree_andThen (congruent (ih.literal n (by omega)) []) (h.spends (spendsLiterals fuel).literal []) ?_
  exact fun m le _ => agree_map (more m (by omega))

theorem settledLiterals (fuel : Nat) : SettledLiterals fuel := by
  induction fuel with
  | zero => exact ⟨fun n enough => absurd enough (by omega), fun _ n enough => absurd enough (by omega),
      fun n enough => absurd enough (by omega), fun n enough => absurd enough (by omega)⟩
  | succ fuel ih =>
    refine ⟨agree_literal_succ ih, fun head => ?_, ?_, ?_⟩
    · exact (components_goesBy head).settled (congruent_vectorRound head) ih (ih.components head)
    · exact items_goesBy.settled congruent_arrayRound ih ih.items
    · exact entries_goesBy.settled congruent_mapRound ih ih.entries

theorem agree_literal_of_le {fuel' : Nat} (enough : 2 * n + 1 ≤ fuel) (le : fuel ≤ fuel') :
    AgreeUpTo n (literal fuel) (literal fuel') := by
  induction fuel', le using Nat.le_induction with
  | base => exact .refl _
  | succ fuel' le ih =>
    exact fun c short => (ih c short).trans ((settledLiterals fuel').literal n (enough.trans le) c short)

/-- Fuel that is enough for what is left does as well as any that is. -/
theorem agree_fueled_literal (enough : 2 * n + 1 ≤ fuel) : AgreeUpTo n (literal fuel) (fueled literal) := by
  intro c short
  show (literal fuel).run.run c = (literal (fuelOf c)).run.run c
  have least : 2 * c.rest.length + 1 ≤ fuel := by omega
  have least' : 2 * c.rest.length + 1 ≤ fuelOf c := Nat.le_succ _
  rw [← agree_literal_of_le (Nat.le_refl _) least c (Nat.le_refl _),
    agree_literal_of_le (Nat.le_refl _) least' c (Nat.le_refl _)]

theorem spends_fueled_literal : Spends 1 (fueled literal) := fun c => (spendsLiterals (fuelOf c)).literal c

/-! ## 3. Loops -/

/-- A round that has another behind it has gone over a token. -/
def Passes (round : σ → Parse (Round σ α)) : Prop :=
  ∀ ⦃s t c d⦄, (round s).run.run c = (.ok (.again t), d) → c.Gains 1 d

theorem passes_of_spends {round : σ → Parse (Round σ α)} (spends : ∀ s, Spends 1 (round s)) : Passes round :=
  fun s _ _ _ run => (spends s).gains run

/-- What goes by rounds over tokens comes, with enough fuel, to what the loop comes to. -/
theorem loops_of_steps {round : σ → Parse (Round σ α)} {f : Nat → σ → Parse α} (passes : Passes round)
    (steps : ∀ fuel n s, 2 * n + 1 ≤ fuel → AgreeUpTo n (f (fuel + 1) s) (round s >>= Round.andThen (f fuel)))
    (fuel : Nat) (s : σ) (c : Cursor) (enough : fuelOf c ≤ fuel) : Loops round s c ((f fuel s).run.run c) := by
  unfold fuelOf at enough
  -- A round that goes on leaves a character less, for which there is one of fuel less.
  induction fuel generalizing s c with
  | zero => exact absurd enough (by omega)
  | succ fuel ih =>
    rw [steps fuel c.rest.length s (by omega) c (Nat.le_refl _), run_bind]
    rcases run : (round s).run.run c with ⟨fault | t | a, d⟩
    · exact .fails run
    · have shorter := (passes run).length_le
      exact .goesOn run (ih t d (by omega))
    · exact .leaves run

/-- A loop that begins with `s` has a last round wherever it begins, and the function gives what it comes to: with
    enough fuel for what is left, however much. -/
structure Terminates (round : σ → Parse (Round σ α)) (s : σ) (f : Nat → Parse α) : Prop where
  passes : Passes round
  comes : ∀ fuel c, fuelOf c ≤ fuel → Loops round s c ((f fuel).run.run c)

theorem terminates_of_steps {round : σ → Parse (Round σ α)} {f : Nat → σ → Parse α} (passes : Passes round)
    (steps : ∀ fuel n s, 2 * n + 1 ≤ fuel → AgreeUpTo n (f (fuel + 1) s) (round s >>= Round.andThen (f fuel)))
    (s : σ) : Terminates round s fun fuel => f fuel s :=
  ⟨passes, fun fuel c enough => loops_of_steps passes steps fuel s c enough⟩

theorem terminates_params : Terminates paramRound [] fun fuel => params fuel [] :=
  terminates_of_steps (passes_of_spends spends_paramRound) (fun _ _ seen _ => .of_eq (params_succ seen)) []

theorem GoesBy.terminates {round : Parse Literal → List β → Parse (Round (List β) (List β))}
    {list : Nat → Parse (List β)} (h : GoesBy round list) (congruent : Congruent round) :
    Terminates (round (fueled literal)) [] list := by
  have steps (fuel n : Nat) (sofar : List β) (enough : 2 * n + 1 ≤ fuel) :
      AgreeUpTo n ((sofar ++ ·) <$> list (fuel + 1))
        (round (fueled literal) sofar >>= Round.andThen fun s => (s ++ ·) <$> list fuel) := by
    rw [h.succ]
    exact agree_front (congruent (agree_fueled_literal enough) sofar)
  have ends := terminates_of_steps (f := fun fuel sofar => (sofar ++ ·) <$> list fuel)
    (passes_of_spends (h.spends spends_fueled_literal)) steps []
  simpa only [map_nil_append] using ends

theorem passes_recoveryRound {move : Nat → Token → Move} (last : ∀ depth, move depth .eof = .before) :
    Passes (recoveryRound move) := by
  intro s t c d run
  rw [run_recoveryRound] at run
  split at run
  · cases run
  · cases run
  · next depth passed =>
    cases run
    refine Cursor.gains_token fun ends => ?_
    rw [ends, last] at passed
    cases passed

theorem terminates_recoverMember : Terminates (recoveryRound memberMove) 0 fun fuel => resume (recoverMember fuel 0) :=
  terminates_of_steps (f := fun fuel depth => resume (recoverMember fuel depth)) (passes_recoveryRound fun _ => rfl)
    (fun _ _ depth _ => .of_eq (recoverMember_succ depth)) 0

theorem terminates_recoverItem : Terminates (recoveryRound itemMove) 0 fun fuel => resume (recoverItem fuel 0) :=
  terminates_of_steps (f := fun fuel depth => resume (recoverItem fuel depth)) (passes_recoveryRound fun _ => rfl)
    (fun _ _ depth _ => .of_eq (recoverItem_succ depth)) 0

theorem passes_memberRound : Passes memberRound := by
  intro s t c d run
  by_cases closes : c.next.1.token = .rbrace
  · rw [run_memberRound_of_rbrace closes] at run
    cases run
  by_cases ends : c.next.1.token = .eof
  · rw [run_memberRound_of_eof ends] at run
    cases run
  have starts := (starts_member c.next.1.token).gains ends
  rw [run_memberRound_of_other closes ends] at run
  generalize (member c.next.1.token).run.run c = tried at starts run
  obtain ⟨fault | m, d⟩ := tried
  · cases run
    exact starts.then (gains_recoverMember _ _ _)
  · cases run
    exact starts

theorem terminates_members : Terminates memberRound ([], []) fun fuel => membersBehind fuel ([], []) :=
  terminates_of_steps passes_memberRound (fun _ _ sofar _ => .of_eq (membersBehind_succ sofar)) ([], [])

/-! ## 4. Modules -/

theorem gains_resumed {r : ItemResult} (gains : c.Gains k r.cursor) : c.Gains k r.resumed := by
  unfold ItemResult.resumed
  split
  · exact gains
  · exact gains.then (gains_recoverItem _ _ _)

theorem passes_moduleRound : Passes moduleRound := by
  intro s t c d run
  by_cases ends : c.next.1.token = .eof
  · rw [run_moduleRound_of_eof ends] at run
    cases run
  · rw [run_moduleRound_of_other ends rfl] at run
    cases run
    exact gains_resumed (gains_item _ ends).one

/-- The items that are read are those that the loop comes to, at the end of the text, and for every fault there is a
    token that was gone over. -/
theorem loops_itemsFrom (fuel : Nat) (sofar : List Item × List Fault) (c : Cursor) (enough : c.rest.length < fuel) :
    ∃ last, Loops moduleRound sofar c (.ok (sofar.1 ++ (itemsFrom fuel c).1, sofar.2 ++ (itemsFrom fuel c).2), last) ∧
      last.next.1.token = .eof ∧ c.Gains (itemsFrom fuel c).2.length last := by
  -- The fuel here is only one for every character, and so is what a round takes.
  induction fuel generalizing sofar c with
  | zero => exact absurd enough (Nat.not_lt_zero _)
  | succ fuel ih =>
    by_cases ends : c.next.1.token = .eof
    · rw [itemsFrom_of_eof ends, List.append_nil, List.append_nil]
      exact ⟨c, .leaves (run_moduleRound_of_eof ends sofar), ends, .refl c⟩
    have gains := gains_item c.next.1.token ends
    have run := run_moduleRound_of_other ends rfl sofar
    have shorter := (gains_resumed gains.one).length_le
    rw [itemsFrom_of_other ends rfl]
    generalize item c.next.1.token c = r at gains run shorter ⊢
    obtain ⟨last, loops, ended, more⟩ := ih (sofar.1 ++ r.item.toList, sofar.2 ++ r.faults) r.resumed (by omega)
    refine ⟨last, .goesOn run ?_, ended, ?_⟩
    · rw [List.append_assoc, List.append_assoc] at loops
      exact loops
    · rw [List.length_append]
      exact (gains_resumed gains.faults).trans more

/-- The loops of the parser: none goes on without a token, and each comes to what its function gives. -/
structure LoopsEnd : Prop where
  params : Terminates paramRound [] fun fuel => params fuel []
  components : ∀ head, Terminates (vectorRound (fueled literal) head) [] fun fuel => components fuel head
  items : Terminates (arrayRound (fueled literal)) [] items
  entries : Terminates (mapRound (fueled literal)) [] entries
  /-- However deep literals are nested. -/
  literal : ∀ fuel c, fuelOf c ≤ fuel → (literal fuel).run.run c = (fueled literal).run.run c
  members : Terminates memberRound ([], []) fun fuel => membersBehind fuel ([], [])
  modules : Passes moduleRound
  recoverMember : Terminates (recoveryRound memberMove) 0 fun fuel => resume (recoverMember fuel 0)
  recoverItem : Terminates (recoveryRound itemMove) 0 fun fuel => resume (recoverItem fuel 0)
  /-- A brace that is counted off has been counted. -/
  memberDepth : ∀ depth d, memberMove depth .rbrace = .pass d → depth = d + 1
  /-- Between items a brace is also passed where none has been counted, and then none is counted off. -/
  itemDepth : ∀ depth d, itemMove depth .rbrace = .pass d → depth = d + 1 ∨ depth = 0 ∧ d = 0

theorem loopsEnd : LoopsEnd where
  params := terminates_params
  components := fun head => (components_goesBy head).terminates (congruent_vectorRound head)
  items := items_goesBy.terminates congruent_arrayRound
  entries := entries_goesBy.terminates congruent_mapRound
  literal := fun _ c enough => agree_fueled_literal ((Nat.le_succ _).trans enough) c (Nat.le_refl _)
  members := terminates_members
  modules := passes_moduleRound
  recoverMember := terminates_recoverMember
  recoverItem := terminates_recoverItem
  memberDepth := fun depth d same => by
    cases depth with
    | zero => exact nomatch same
    | succ n => exact congrArg (· + 1) (Move.pass.inj same)
  itemDepth := fun depth d same => by
    cases depth with
    | zero => exact .inr ⟨rfl, (Move.pass.inj same).symm⟩
    | succ n => exact .inl (congrArg (· + 1) (Move.pass.inj same))

end Parse

/-! ## 5. The lexer -/

/-- The lexer stands at the end exactly where blanks and comments are all that is left.  Anywhere else a token makes
    what is left shorter, and a body does not make it longer. -/
structure Cursor.Advances (c : Cursor) : Prop where
  eof_iff : c.next.1.token = .eof ↔ c.torn = false ∧ Final c.rest
  shorter : c.next.1.token ≠ .eof → c.next.2.left.length < c.left.length
  forward : (c.call .body).2.left <:+ c.left

variable {source passed : List UInt8} {c after : Cursor} {r : Reading}

/-- A reading is that of bytes that were left. -/
theorem Leads.left (h : Leads source passed r after) (stands : c.Stands source passed) :
    ∃ s left, r.Written s left ∧ c.left = s.bytes ++ after.left := by
  obtain ⟨s, covers, behind⟩ := h
  refine ⟨s, _, covers.written, ?_⟩
  have split := stands.split.symm.trans behind.split
  rw [List.append_assoc] at split
  exact List.append_cancel_left split

theorem encode_ne_nil (x : Char) (xs : List Char) : encode (x :: xs) ≠ [] := by
  obtain ⟨first, more, coded⟩ := exists_encoded x
  rw [encode_cons, coded.bytes]
  exact List.cons_ne_nil _ _

theorem Broken.ne_nil {t : Token} {own left : List UInt8} (h : Broken t own left) : own ≠ [] := by
  cases h with
  | remnant some' _ => exact some'
  | escape => exact List.append_ne_nil_of_right_ne_nil _ (List.cons_ne_nil _ _)
  | _ => exact encode_ne_nil _ _

/-- A token has bytes of its own. -/
theorem Reading.Written.own_ne_nil {l : Lexeme} {s : Stretch} {left : List UInt8}
    (h : (Reading.token l).Written s left) (more : l.token ≠ .eof) : s.own ≠ [] := by
  cases h with
  | token _ spelled =>
    obtain ⟨x, xs, rfl, -⟩ := spelled.begins
    exact encode_ne_nil x xs
  | last => exact absurd rfl more
  | broken _ broken => exact broken.ne_nil

theorem Cursor.Stands.advances (h : c.Stands source passed) : c.Advances where
  eof_iff := by
    cases torn : c.torn with
    | false => simpa using next_eof_iff torn
    | true =>
      -- Something is left of the character, which is no blank.
      obtain ⟨x, xs, rest, -⟩ := h.torn torn
      obtain ⟨cs, p, torn'⟩ := c
      obtain rfl : cs = x :: xs := rest
      obtain rfl : torn' = true := torn
      exact ⟨nofun, fun both => absurd both.1 Bool.true_eq_false.mp⟩
  shorter := fun more => by
    obtain ⟨s, left, written, split⟩ := h.next.left h
    have own := List.length_pos_iff.mpr (written.own_ne_nil more)
    rw [split, List.length_append, Stretch.bytes, List.length_append]
    omega
  forward := by
    obtain ⟨s, left, -, split⟩ := h.body.left h
    exact ⟨s.bytes, split.symm⟩

/-! ## 6. Parsing -/

/-- Parsing ends on every text.  Whatever has been asked of the lexer, it tells the end where there is nothing but
    blanks and comments and else gets on; no loop goes on without a token; and the one over the items gets to the end of
    the text with what the module declares and its faults, over at least as many tokens as there are faults. -/
theorem parsing_ends (source : String) :
    (∀ calls, ((Cursor.ofString source).calls calls).2.Advances) ∧ Parse.LoopsEnd ∧
      ∃ items last n, Loops Parse.moduleRound ([], []) (.ofString source) (.ok (items, (parse source).2), last) ∧
        (parse source).1 = Tree.ofItems items ∧ last.next.1.token = .eof ∧
          (Cursor.ofString source).GoesOver n last ∧ (parse source).2.length ≤ n := by
  refine ⟨fun calls => ?_, Parse.loopsEnd, ?_⟩
  · obtain ⟨ss, -, stands⟩ := (Cursor.stands_ofString source).calls calls
    exact stands.advances
  · obtain ⟨last, loops, ended, n, le, goes⟩ :=
      Parse.loops_itemsFrom (source.length + 1) ([], []) (.ofString source) (Nat.lt_succ_self _)
    exact ⟨_, last, n, loops, rfl, ended, goes, le⟩

end ScriptHost.Declaration
