import ScriptHost.Proofs.Declaration.Rounds
import ScriptHost.Proofs.Declaration.Soundness
import ScriptHost.Proofs.Declaration.Stretches

/-!
# Progress — the parser gets on

Every step of the parser goes on in the text by calls of the lexer.  One that succeeds has gone over a token, unless it
only looks, and an item or a member goes over the token that it begins with even where it fails.  So there is one more
token behind every round of a loop that has another, and a token behind every fault.
-/

namespace ScriptHost.Declaration

open Text (Position)

/-! ## 1. Over tokens -/

/-- The lexer gets from the one cursor to the other over `n` tokens, the end not counted.  Behind a brace it may capture
    a body. -/
inductive Cursor.GoesOver : Cursor → Nat → Cursor → Prop
  | stay {c} : GoesOver c 0 c
  | token {c n d} : c.next.1.token ≠ .eof → GoesOver c.next.2 n d → GoesOver c (n + 1) d
  | last {c n d} : c.next.1.token = .eof → GoesOver c.next.2 n d → GoesOver c n d
  | body {c n d} : c.next.1.token = .lbrace → GoesOver (c.next.2.call .body).2 n d → GoesOver c (n + 1) d

/-- It gets there over so many tokens at least. -/
def Cursor.Gains (c : Cursor) (k : Nat) (d : Cursor) : Prop := ∃ n, k ≤ n ∧ c.GoesOver n d

namespace Cursor

variable {c d e : Cursor} {j k n m : Nat}

theorem GoesOver.trans (h : c.GoesOver n d) (h' : d.GoesOver m e) : c.GoesOver (n + m) e := by
  induction h with
  | stay => rwa [Nat.zero_add]
  | token more _ ih => exact Nat.succ_add _ m ▸ .token more (ih h')
  | last ends _ ih => exact .last ends (ih h')
  | body brace _ ih => exact Nat.succ_add _ m ▸ .body brace (ih h')

theorem Gains.refl (c : Cursor) : c.Gains 0 c := ⟨0, Nat.le_refl 0, .stay⟩

theorem Gains.trans (h : c.Gains j d) (h' : d.Gains k e) : c.Gains (j + k) e := by
  obtain ⟨n, le, goes⟩ := h
  obtain ⟨m, le', goes'⟩ := h'
  exact ⟨n + m, Nat.add_le_add le le', goes.trans goes'⟩

theorem Gains.mono (h : c.Gains k d) (le : j ≤ k) : c.Gains j d := by
  obtain ⟨n, le', goes⟩ := h
  exact ⟨n, le.trans le', goes⟩

/-- What is gained stays gained, however it goes on. -/
theorem Gains.then (h : c.Gains j d) (h' : d.Gains k e) : c.Gains j e := (h.trans h').mono (Nat.le_add_right j k)

theorem Gains.behind (h : c.Gains j d) (h' : d.Gains k e) : c.Gains k e := (h.trans h').mono (Nat.le_add_left k j)

theorem Gains.any (h : c.Gains k d) : c.Gains 0 d := h.mono (Nat.zero_le k)

theorem gains_token (more : c.next.1.token ≠ .eof) : c.Gains 1 c.next.2 := ⟨1, Nat.le_refl 1, .token more .stay⟩

theorem gains_next (c : Cursor) : c.Gains 0 c.next.2 := by
  by_cases ends : c.next.1.token = .eof
  · exact ⟨0, Nat.le_refl 0, .last ends .stay⟩
  · exact (gains_token ends).any

/-! Every token takes a character, so that a cursor goes over no more tokens than are left of these. -/

/-- What is left of a torn character is no token. -/
theorem next_of_torn (torn : c.torn = true) :
    c.next.1.token = .eof ∧ c.next.2.rest = [] ∨ c.next.1.token = unexpected '\uFFFD' := by
  obtain ⟨rest, p, torn'⟩ := c
  obtain rfl : torn' = true := torn
  cases rest with
  | nil => exact .inl ⟨rfl, rfl⟩
  | cons x xs => exact .inr rfl

/-- Behind the end there is nothing left. -/
theorem rest_of_eof (ends : c.next.1.token = .eof) : c.next.2.rest = [] := by
  cases torn : c.torn with
  | true => exact ((next_of_torn torn).resolve_right fun other => nomatch ends.symm.trans other).2
  | false =>
    have final := (next_eof_iff torn).mp ends
    obtain ⟨rest, p, torn'⟩ := c
    obtain rfl : torn' = false := torn
    rw [next_of_final final]

theorem whole_of_lbrace (brace : c.next.1.token = .lbrace) : c.next.2.torn = false := by
  cases torn : c.torn with
  | true =>
    rcases next_of_torn torn with ⟨ends, -⟩ | other
    · exact nomatch brace.symm.trans ends
    · exact nomatch brace.symm.trans other
  | false =>
    have takes : c.Takes c.next.1 c.next.2 := takes_of_next torn rfl (by rw [brace]; rfl)
    exact takes.whole

theorem length_call_body (whole : c.torn = false) : (c.call .body).2.rest.length ≤ c.rest.length := by
  rw [call]
  cases found : c.capture? with
  | none => exact Nat.zero_le _
  | some captured => exact (captured_of_capture? whole found).within.suffix.length_le

theorem GoesOver.length_le (h : c.GoesOver n d) : d.rest.length + n ≤ c.rest.length := by
  induction h with
  | stay => exact Nat.le_refl _
  | @token c n d more _ ih =>
    have shorter := c.next_shorter more
    omega
  | @last c n d ends _ ih =>
    rw [rest_of_eof ends, List.length_nil] at ih
    omega
  | @body c n d brace _ ih =>
    -- The brace is the character; what is captured behind it only adds to that.
    have shorter := c.next_shorter fun ends => nomatch brace.symm.trans ends
    have captured := length_call_body (whole_of_lbrace brace)
    omega

theorem Gains.length_le (h : c.Gains k d) : d.rest.length + k ≤ c.rest.length := by
  obtain ⟨n, le, goes⟩ := h
  have := goes.length_le
  omega

end Cursor

/-! ## 2. Steps -/

namespace Parse

variable {α β σ : Type} {x y : Parse α} {f : α → Parse β} {t : Token} {c : Cursor} {k fuel : Nat}

/-- The step has gone over so many tokens when it succeeds, and nowhere back when it fails. -/
def Spends (k : Nat) (x : Parse α) : Prop := ∀ c, Ensures x c (fun _ d => c.Gains k d) fun _ d => c.Gains 0 d

/-- Where there is a token the step goes over it, even if it fails. -/
def Starts (x : Parse α) : Prop :=
  ∀ c, c.next.1.token ≠ .eof → Ensures x c (fun _ d => c.Gains 1 d) fun _ d => c.Gains 1 d

theorem Spends.gains {a : α} {d : Cursor} (hx : Spends k x) (run : x.run.run c = (.ok a, d)) : c.Gains k d := by
  have gains := hx c
  unfold Ensures at gains
  rw [run] at gains
  exact gains

/-- Behind a step that starts with a token the cursor is further, whatever came of it. -/
theorem Starts.gains (hx : Starts x) (more : c.next.1.token ≠ .eof) : c.Gains 1 (x.run.run c).2 := by
  have gains := hx c more
  unfold Ensures at gains
  split at gains <;> next run => exact run ▸ gains

theorem Spends.any (hx : Spends k x) : Spends 0 x := fun c => (hx c).imp fun _ _ gains => gains.any

theorem spends_pure {a : α} : Spends 0 (pure a : Parse α) := fun c => .refl c

theorem spends_failAt {p : Position} {cause : Cause} : Spends k (failAt p cause : Parse α) := fun c => .refl c

theorem spends_get : Spends 0 (get : Parse Cursor) := fun c => .refl c

theorem spends_peek : Spends 0 peek := fun c => .refl c

theorem spends_next : Spends 0 next := fun c => c.gains_next

theorem spends_bind (hx : Spends k x) (hf : ∀ a, Spends 0 (f a)) : Spends k (x >>= f) := fun c =>
  Ensures.bind_iff.mpr ((hx c).imp fun a d gains =>
    (hf a d).mono (fun _ _ more => gains.then more) fun _ _ more => gains.behind more)

theorem spends_behind (hx : Spends 0 x) (hf : ∀ a, Spends k (f a)) : Spends k (x >>= f) := fun c =>
  Ensures.bind_iff.mpr ((hx c).imp fun a d gains =>
    (hf a d).mono (fun _ _ more => gains.behind more) fun _ _ more => gains.behind more)

theorem spends_discard (hx : Spends k x) : Spends k (discard x) := fun c => Ensures.discard_iff.mpr (hx c)

theorem spends_map {g : α → β} (hx : Spends k x) : Spends k (g <$> x) := fun c => Ensures.map_iff.mpr (hx c)

theorem spends_ite {p : Prop} [Decidable p] (hx : Spends k x) (hy : Spends k y) : Spends k (if p then x else y) := by
  split
  · exact hx
  · exact hy

/-- A step that goes on with a token has gone over it. -/
theorem spends_next_bind {g : Lexeme → Parse α} (hg : ∀ l, Spends 0 (g l))
    (ended : ∀ l, l.token = .eof → Spends 1 (g l)) : Spends 1 (next >>= g) := by
  refine fun c => Ensures.bind_iff.mpr (ensures_next_iff.mpr ?_)
  by_cases ends : c.next.1.token = .eof
  · refine (ended _ ends c.next.2).mono (fun _ _ more => ?_) fun _ _ more => ?_
    · exact c.gains_next.behind more
    · exact c.gains_next.behind more
  · refine (hg _ c.next.2).mono (fun _ _ more => ?_) fun _ _ more => ?_
    · exact (Cursor.gains_token ends).then more
    · exact c.gains_next.behind more

theorem spends_expect (notLast : t ≠ .eof) : Spends 1 (expect t) := by
  refine spends_next_bind (fun l => spends_ite spends_pure spends_failAt) fun l ends => ?_
  rw [if_neg (by rw [ends, beq_iff_eq]; exact notLast.symm)]
  exact spends_failAt

/-- A token that has to stand there is passed. -/
theorem spends_past (notLast : t ≠ .eof) : Spends 0 (discard (expect t)) := spends_discard (spends_expect notLast).any

theorem spends_expectIdent {what : String} : Spends 1 (expectIdent what) := by
  refine spends_next_bind (fun l => ?_) fun l ends => ?_
  · split
    · exact spends_pure
    · exact spends_failAt
  · rw [ends]
    exact spends_failAt

theorem spends_expectKeyword {word : String} : Spends 1 (expectKeyword word) := by
  refine spends_next_bind (fun l => spends_ite spends_pure spends_failAt) fun l ends => ?_
  rw [if_neg (by rw [ends, beq_iff_eq]; exact nofun)]
  exact spends_failAt

/-- A token that may stand there is passed, or the cursor stays. -/
theorem ensures_accept (notLast : t ≠ .eof) :
    Ensures (accept t) c (fun there d => if there then c.Gains 1 d else d = c) fun _ _ => False := by
  refine Ensures.bind_iff.mpr (ensures_peek_iff.mpr ?_)
  show Ensures (if _ then _ else _) c _ _
  split
  · next same => exact Cursor.gains_token (eq_of_beq same ▸ notLast)
  · rfl

theorem spends_accept (notLast : t ≠ .eof) : Spends 0 (accept t) := fun c => by
  refine (ensures_accept notLast).mono (fun there d gains => ?_) nofun
  split at gains
  · exact gains.any
  · exact gains ▸ .refl c

/-- A step that goes over a token at once, if there is one, does so however it goes on. -/
theorem starts_bind (hx : Starts x) (hf : ∀ a, Spends 0 (f a)) : Starts (x >>= f) := fun c more =>
  Ensures.bind_iff.mpr ((hx c more).imp fun a d gains =>
    (hf a d).mono (fun _ _ behind => gains.then behind) fun _ _ behind => gains.then behind)

theorem starts_discard (hx : Starts x) : Starts (discard x) := fun c more => Ensures.discard_iff.mpr (hx c more)

theorem starts_next : Starts next := fun _ more => Cursor.gains_token more

theorem starts_expectKeyword {word : String} : Starts (expectKeyword word) :=
  starts_bind starts_next fun _ => spends_ite spends_pure spends_failAt

theorem starts_expectIdent {what : String} : Starts (expectIdent what) := by
  refine starts_bind starts_next fun l => ?_
  split
  · exact spends_pure
  · exact spends_failAt

/-- With a token in front that may be missing. -/
theorem starts_accept_bind {g : Bool → α → Parse β} (notLast : t ≠ .eof) (hx : Starts x) (spends : Spends 0 x)
    (hg : ∀ there a, Spends 0 (g there a)) : Starts (accept t >>= fun there => x >>= g there) := by
  refine fun c more => Ensures.bind_iff.mpr ((ensures_accept notLast).mono (fun there d gains => ?_) nofun)
  cases there with
  | true =>
    have gains : c.Gains 1 d := gains
    exact (spends_bind spends (hg true) d).mono (fun _ _ more => gains.then more) fun _ _ more => gains.then more
  | false =>
    obtain rfl : d = c := gains
    exact starts_bind hx (hg false) d more

theorem starts_unexpectedHere {what : String} : Starts (unexpectedHere what : Parse α) :=
  starts_bind starts_next fun _ => spends_failAt

/-! ## 3. Parameters and literals -/

theorem spends_andThen {round : Parse (Round σ α)} {more : σ → Parse α} (hr : Spends 1 round)
    (hm : ∀ s, Spends 0 (more s)) : Spends 1 (round >>= Round.andThen more) := by
  refine spends_bind hr fun r => ?_
  cases r with
  | again s => exact hm s
  | leave a => exact spends_pure

theorem spends_paramRound (seen : List String) : Spends 1 (paramRound seen) := by
  refine spends_bind spends_expectIdent fun _ => spends_ite spends_failAt ?_
  exact spends_bind (spends_accept nofun) fun _ => spends_ite spends_pure spends_pure

theorem spends_params (fuel : Nat) (seen : List String) : Spends 0 (params fuel seen) := by
  induction fuel generalizing seen with
  | zero => exact spends_pure
  | succ fuel ih =>
    rw [params_succ]
    exact (spends_andThen (spends_paramRound seen) ih).any

section Rounds

variable {literal : Parse Literal} (hl : Spends 1 literal)
include hl

theorem spends_vectorRound (head : Position) (sofar : List Float) : Spends 1 (vectorRound literal head sofar) := by
  refine spends_bind hl fun value => ?_
  split
  · exact spends_failAt
  · exact spends_bind (spends_accept nofun) fun _ => spends_ite spends_pure spends_pure

theorem spends_arrayRound (sofar : List Literal) : Spends 1 (arrayRound literal sofar) := by
  refine fun c => Ensures.bind_iff.mpr ((ensures_accept (t := .rbracket) nofun).mono (fun there d gains => ?_) nofun)
  cases there with
  | true => exact gains
  | false =>
    -- The cursor has stayed, and it is the item that is gone over.
    obtain rfl : d = c := gains
    refine (spends_bind hl fun item => ?_ : Spends 1 _) d
    refine spends_bind spends_peek fun l => ?_
    split
    · exact spends_bind (spends_discard spends_next) fun _ => spends_pure
    · exact spends_pure
    · exact spends_bind spends_next fun _ => spends_failAt

theorem spends_entryRound (sofar : List (String × Literal)) (key : String) :
    Spends 1 (entryRound literal sofar key) := by
  refine spends_bind (spends_discard (spends_expect nofun)) fun _ => spends_bind hl.any fun value => ?_
  refine spends_bind spends_peek fun l => ?_
  split
  · exact spends_bind (spends_discard spends_next) fun _ => spends_pure
  · exact spends_pure
  · exact spends_bind spends_next fun _ => spends_failAt

theorem spends_mapRound (sofar : List (String × Literal)) : Spends 1 (mapRound literal sofar) := by
  refine spends_next_bind (fun l => ?_) fun l ends => ?_
  · split
    · exact spends_pure
    · exact (spends_entryRound hl sofar _).any
    · exact (spends_entryRound hl sofar _).any
    · exact spends_failAt
  · rw [ends]
    exact spends_failAt

end Rounds

/-- A function for a list goes by these rounds, each of them with a literal. -/
structure GoesBy (round : Parse Literal → List β → Parse (Round (List β) (List β))) (list : Nat → Parse (List β)) :
    Prop where
  succ : ∀ fuel sofar, (sofar ++ ·) <$> list (fuel + 1) =
    round (literal fuel) sofar >>= Round.andThen fun s => (s ++ ·) <$> list fuel
  spends : ∀ {x}, Spends 1 x → ∀ sofar, Spends 1 (round x sofar)

theorem components_goesBy (head : Position) :
    GoesBy (fun literal => vectorRound literal head) fun fuel => components fuel head :=
  ⟨fun _ => components_succ head, fun hl => spends_vectorRound hl head⟩

theorem items_goesBy : GoesBy arrayRound items := ⟨fun _ => items_succ, spends_arrayRound⟩

theorem entries_goesBy : GoesBy mapRound entries := ⟨fun _ => entries_succ, spends_mapRound⟩

theorem GoesBy.spends_succ {round : Parse Literal → List β → Parse (Round (List β) (List β))}
    {list : Nat → Parse (List β)} (h : GoesBy round list) (hl : Spends 1 (literal fuel)) (more : Spends 0 (list fuel)) :
    Spends 0 (list (fuel + 1)) := by
  rw [← map_nil_append (list (fuel + 1)), h.succ]
  exact (spends_andThen (h.spends hl []) fun _ => spends_map more).any

/-- What the functions for literals go over with so much fuel; only for a literal is it never nothing. -/
structure SpendsLiterals (fuel : Nat) : Prop where
  literal : Spends 1 (literal fuel)
  components : ∀ head, Spends 0 (components fuel head)
  items : Spends 0 (items fuel)
  entries : Spends 0 (entries fuel)

theorem spends_literal_succ (ih : SpendsLiterals fuel) : Spends 1 (literal (fuel + 1)) := by
  refine spends_next_bind (fun l => ?_) fun l ends => ?_
  · split
    · exact spends_pure
    · exact spends_pure
    · exact spends_pure
    · refine spends_bind spends_next fun operand => ?_
      split
      · exact spends_pure
      · exact spends_pure
      · exact spends_failAt
    · exact spends_pure
    · exact spends_pure
    · split
      · refine spends_bind (spends_past nofun) fun _ => spends_bind (ih.components _) fun _ => ?_
        refine spends_bind (spends_past nofun) fun _ => ?_
        exact spends_ite spends_pure spends_failAt
      · exact spends_failAt
    · exact spends_bind ih.items fun _ => spends_pure
    · refine spends_bind (spends_past nofun) fun _ => ?_
      exact spends_bind ih.entries fun _ => spends_pure
    · exact spends_failAt
  · rw [ends]
    exact spends_failAt

theorem spendsLiterals (fuel : Nat) : SpendsLiterals fuel := by
  induction fuel with
  | zero => exact ⟨spends_behind spends_peek fun _ => spends_failAt, fun _ => spends_pure, spends_pure, spends_pure⟩
  | succ fuel ih =>
    exact ⟨spends_literal_succ ih, fun head => (components_goesBy head).spends_succ ih.literal (ih.components head),
      items_goesBy.spends_succ ih.literal ih.items, entries_goesBy.spends_succ ih.literal ih.entries⟩

/-! ## 4. Members -/

theorem starts_use : Starts use :=
  starts_bind starts_expectKeyword fun _ => spends_bind spends_expectIdent.any fun _ =>
    spends_bind (spends_past nofun) fun _ => spends_pure

/-- A body is captured behind its brace. -/
theorem spends_braced {g : Body → Parse α} (hg : ∀ b, Spends 0 (g b)) : Spends 0 (do
    discard (expect .lbrace)
    let b ← body
    g b) := by
  refine fun c => Ensures.bind_iff.mpr (Ensures.discard_iff.mpr (Ensures.bind_iff.mpr (ensures_next_iff.mpr ?_)))
  split
  · next same =>
    have brace : c.next.1.token = .lbrace := eq_of_beq same
    have gains : c.Gains 1 (c.next.2.call .body).2 := ⟨1, Nat.le_refl 1, .body brace .stay⟩
    refine Ensures.bind_iff.mpr (Ensures.bind_iff.mpr (Ensures.get_iff.mpr ?_))
    rw [Cursor.call] at gains
    cases found : c.next.2.capture? with
    | none =>
      rw [found] at gains
      exact gains.any
    | some captured =>
      rw [found] at gains
      exact (hg _ _).mono (fun _ _ more => gains.behind more) fun _ _ more => gains.behind more
  · exact c.gains_next

theorem starts_function : Starts function := by
  refine starts_bind (starts_discard starts_expectKeyword) fun _ => spends_bind spends_expectIdent.any fun _ => ?_
  refine spends_bind (spends_past nofun) fun _ => spends_bind spends_peek fun l => ?_
  have closing (name : String) (xs : List String) (p : Position) : Spends 0 (do
      discard (expect .rparen)
      discard (expect .lbrace)
      let body ← body
      return (⟨name, xs, body, p⟩ : FnDecl)) :=
    spends_bind (spends_past nofun) fun _ => spends_braced fun _ => spends_pure
  refine spends_ite (closing _ _ _) (spends_bind spends_get fun c => ?_)
  exact spends_bind (spends_params _ _) fun xs => closing _ _ _

theorem starts_field : Starts field := by
  refine starts_bind starts_expectIdent fun _ => spends_bind spends_expectIdent.any fun _ => ?_
  refine spends_bind (spends_past nofun) fun _ => spends_bind spends_expectIdent.any fun named => ?_
  obtain ⟨word, _⟩ := named
  dsimp only
  cases Field.Kind.ofKeyword? word with
  | none => exact spends_failAt
  | some kind =>
    refine spends_bind (spends_accept nofun) fun there => spends_ite ?_ ?_
    · refine spends_bind spends_get fun c => spends_bind (spendsLiterals _).literal.any fun _ => ?_
      exact spends_bind spends_pure fun _ => spends_bind (spends_past nofun) fun _ => spends_pure
    · exact spends_bind spends_pure fun _ => spends_bind (spends_past nofun) fun _ => spends_pure

/-- A member goes over the token that it begins with. -/
theorem starts_member (t : Token) : Starts (member t) := by
  unfold member
  split
  · exact starts_bind starts_function fun _ => spends_pure
  · split
    · exact starts_bind starts_field fun _ => spends_pure
    · exact starts_unexpectedHere

theorem spends_recoveryRound (move : Nat → Token → Move) (depth : Nat) : Spends 0 (recoveryRound move depth) := by
  refine spends_bind spends_peek fun l => ?_
  split
  · exact spends_pure
  · exact spends_bind (spends_discard spends_next) fun _ => spends_pure
  · exact spends_bind (spends_discard spends_next) fun _ => spends_pure

/-- A recovery that goes by rounds goes nowhere back. -/
theorem gains_recovery {recover : Nat → Nat → Cursor → Cursor} {move : Nat → Token → Move}
    (none : ∀ depth c, recover 0 depth c = c)
    (succ : ∀ fuel depth, resume (recover (fuel + 1) depth) =
      recoveryRound move depth >>= Round.andThen fun d => resume (recover fuel d))
    (fuel depth : Nat) (c : Cursor) : c.Gains 0 (recover fuel depth c) := by
  -- As a step of the parser: a round that goes on is followed by the recovery with less fuel.
  have spends : Spends 0 (resume (recover fuel depth)) := by
    induction fuel generalizing depth with
    | zero =>
      rw [funext (none depth)]
      exact fun c => .refl c
    | succ fuel ih =>
      rw [succ]
      refine spends_bind (spends_recoveryRound move depth) fun r => ?_
      cases r with
      | again d => exact ih d
      | leave _ => exact spends_pure
  exact spends c

theorem gains_recoverMember (fuel depth : Nat) (c : Cursor) : c.Gains 0 (recoverMember fuel depth c) :=
  gains_recovery (fun _ _ => rfl) (fun _ => recoverMember_succ) fuel depth c

theorem gains_recoverItem (fuel depth : Nat) (c : Cursor) : c.Gains 0 (recoverItem fuel depth c) :=
  gains_recovery (fun _ _ => rfl) (fun _ => recoverItem_succ) fuel depth c

/-- A token is gone over for every broken member. -/
theorem gains_members (fuel : Nat) (c : Cursor) : c.Gains (members fuel c).faults.length (members fuel c).cursor := by
  induction fuel generalizing c with
  | zero => exact .refl c
  | succ fuel ih =>
    by_cases closes : c.next.1.token = .rbrace
    · rw [members_of_rbrace closes]
      exact c.gains_next
    by_cases ends : c.next.1.token = .eof
    · rw [members_of_eof ends]
      exact .refl c
    have starts := (starts_member c.next.1.token).gains ends
    rw [members_of_other closes ends]
    generalize (member c.next.1.token).run.run c = tried at starts ⊢
    obtain ⟨fault | m, d⟩ := tried
    · -- The token that the broken member began with is that of its fault.
      have gains := (starts.then (gains_recoverMember (fuelOf d) 0 d)).trans (ih _)
      exact gains.mono (Nat.le_of_eq (Nat.add_comm _ 1))
    · exact starts.behind (ih d)

/-! ## 5. Items -/

theorem starts_typeHead : Starts typeHead := by
  refine starts_accept_bind nofun (starts_discard starts_expectKeyword) (spends_discard spends_expectKeyword.any) ?_
  refine fun _ _ => spends_bind spends_expectIdent.any fun _ => spends_bind (spends_accept nofun) fun there => ?_
  refine spends_ite (spends_bind (spends_map spends_expectIdent.any) fun _ => ?_) (spends_bind spends_pure fun _ => ?_)
  · exact spends_bind (spends_past nofun) fun _ => spends_pure
  · exact spends_bind (spends_past nofun) fun _ => spends_pure

end Parse

open Parse (Starts starts_function starts_typeHead starts_unexpectedHere starts_use)

variable {c : Cursor}

/-- With the result for an item a token is gone over, and one for every fault. -/
structure ItemResult.Gains (c : Cursor) (r : ItemResult) : Prop where
  one : c.Gains 1 r.cursor
  faults : c.Gains r.faults.length r.cursor

theorem gains_ofParse {α : Type} {make : α → Item} {x : Parse α} (hx : Starts x) (more : c.next.1.token ≠ .eof) :
    (ItemResult.ofParse make x c).Gains c := by
  have starts := hx.gains more
  unfold ItemResult.ofParse
  generalize x.run.run c = tried at starts ⊢
  obtain ⟨fault | a, d⟩ := tried
  · exact ⟨starts, starts⟩
  · exact ⟨starts, starts.any⟩

theorem gains_typeItem (more : c.next.1.token ≠ .eof) : (typeItem c).Gains c := by
  have starts := starts_typeHead.gains more
  unfold typeItem
  generalize typeHead.run.run c = tried at starts ⊢
  obtain ⟨fault | head, d⟩ := tried
  · exact ⟨starts, starts⟩
  · have gains := Parse.gains_members (Parse.fuelOf d) d
    dsimp only
    split
    · exact ⟨starts.then gains, starts.behind gains⟩
    · refine ⟨starts.then gains, ?_⟩
      have all := starts.trans gains
      rw [Nat.add_comm] at all
      simpa using all

theorem gains_item (t : Token) (more : c.next.1.token ≠ .eof) : (item t c).Gains c := by
  unfold item
  split
  · exact gains_ofParse starts_use more
  · split
    · exact gains_ofParse starts_function more
    · split
      · exact gains_typeItem more
      · exact gains_ofParse starts_unexpectedHere more

end ScriptHost.Declaration
