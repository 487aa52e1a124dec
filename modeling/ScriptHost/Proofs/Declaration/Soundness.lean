import ScriptHost.Proofs.Declaration.Completeness

/-!
# Soundness — what is read without a fault is a sentence

Every function of the parser that succeeds has read the pieces of its rule.  Fuel never runs out, since each
piece takes a character of the text that is left.  With completeness this says exactly which texts are read.
-/

namespace ScriptHost.Declaration

open Text (Position)

variable {c d : Cursor}

namespace Parse

variable {α β : Type}

/-- From the cursor the step gives only what the rule allows, having read its pieces. -/
def Follows (x : Parse α) (Rule : α → List Piece → Prop) (c : Cursor) : Prop :=
  Ensures x c (fun a d => ∃ ps, ps ≠ [] ∧ Rule a ps ∧ Reads c ps d) fun _ _ => True

/-! ## 1. Tokens -/

theorem takes_of_token {t : Token} (whole : c.torn = false) (same : c.next.1.token = t)
    (sound : t.isSound = true) : c.Takes ⟨t, c.next.1.position⟩ c.next.2 := by
  subst same
  exact (Cursor.takes_iff whole).mpr ⟨rfl, sound⟩

theorem ensures_next_iff {Q : Lexeme → Cursor → Prop} {E : Fault → Cursor → Prop} :
    Ensures next c Q E ↔ Q c.next.1 c.next.2 := Iff.rfl

theorem ensures_peek_iff {Q : Lexeme → Cursor → Prop} {E : Fault → Cursor → Prop} :
    Ensures peek c Q E ↔ Q c.next.1 c := Iff.rfl

/-- A step that goes on with the expected token has taken it. -/
theorem follows_expect {t : Token} (sound : t.isSound = true) (whole : c.torn = false) :
    Ensures (expect t) c (fun _ d => ∃ p, c.Takes ⟨t, p⟩ d) fun _ _ => True := by
  refine Ensures.bind_iff.mpr (ensures_next_iff.mpr ?_)
  split
  · next same => exact ⟨_, takes_of_token whole (eq_of_beq same) sound⟩
  · trivial

theorem follows_expectIdent {what : String} (whole : c.torn = false) :
    Ensures (expectIdent what) c (fun w d => c.Takes ⟨.ident w.1, w.2⟩ d) fun _ _ => True := by
  refine Ensures.bind_iff.mpr (ensures_next_iff.mpr ?_)
  split
  · next w same => exact takes_of_token whole same rfl
  · trivial

theorem follows_expectKeyword {w : String} (whole : c.torn = false) :
    Ensures (expectKeyword w) c (fun p d => c.Takes ⟨.ident w, p⟩ d) fun _ _ => True := by
  refine Ensures.bind_iff.mpr (ensures_next_iff.mpr ?_)
  split
  · next same => exact takes_of_token whole (eq_of_beq same) rfl
  · trivial

/-- A token that may stand there is taken, or the cursor stays. -/
theorem follows_accept {t : Token} (sound : t.isSound = true) (whole : c.torn = false) :
    Ensures (accept t) c (fun there d => if there then ∃ p, c.Takes ⟨t, p⟩ d else d = c) fun _ _ => True := by
  refine Ensures.bind_iff.mpr (ensures_peek_iff.mpr ?_)
  show Ensures (if _ then _ else _) c _ _
  split
  · next same => exact ⟨_, takes_of_token whole (eq_of_beq same) sound⟩
  · rfl

/-! ## 2. Literals -/

/-- What the functions for literals read with so much fuel, where it is enough for what is left. -/
structure FollowsLiterals (fuel : Nat) : Prop where
  literal : ∀ ⦃c⦄, c.torn = false → 2 * c.rest.length + 1 ≤ fuel →
    Follows (literal fuel) (fun v ps => Derives (.literal v) ps) c
  components : ∀ ⦃c⦄ head, c.torn = false → 2 * c.rest.length + 2 ≤ fuel →
    Follows (components fuel head) (fun xs ps => ∀ p, Derives (.components xs) (ps ++ [tok .rparen p])) c
  items : ∀ ⦃c⦄, c.torn = false → 2 * c.rest.length + 2 ≤ fuel →
    Follows (items fuel) (fun vs ps => Derives (.items vs) ps) c
  entries : ∀ ⦃c⦄, c.torn = false → 2 * c.rest.length + 2 ≤ fuel →
    Follows (entries fuel) (fun es ps => Derives (.entries es) ps) c

theorem Follows.shorter {ps : List Piece} (some' : ps ≠ []) (reads : Reads c ps d) :
    d.rest.length < c.rest.length := by
  have := reads.length_le
  have := List.length_pos_iff.mpr some'
  omega

section Literals

variable {fuel : Nat} (ih : FollowsLiterals fuel)
include ih

theorem follows_literal (whole : c.torn = false) (enough : 2 * c.rest.length + 1 ≤ fuel + 1) :
    Follows (literal (fuel + 1)) (fun v ps => Derives (.literal v) ps) c := by
  unfold literal Follows
  refine Ensures.bind_iff.mpr (ensures_next_iff.mpr ?_)
  -- One token is a literal by itself.
  have single {v : Literal} {t : Token} (same : c.next.1.token = t) (sound : t.isSound = true)
      (rule : ∀ p, Derives (.literal v) [tok t p]) :
      ∃ ps, ps ≠ [] ∧ Derives (.literal v) ps ∧ Reads c ps c.next.2 :=
    ⟨[_], List.cons_ne_nil _ _, rule _, .single (takes_of_token whole same sound)⟩
  split
  · next n same => exact single same rfl fun _ => .int
  · next x same => exact single same rfl fun _ => .float
  · next s same => exact single same rfl fun _ => .text
  · next same =>
    have minus := takes_of_token whole same rfl
    refine Ensures.bind_iff.mpr (ensures_next_iff.mpr ?_)
    split
    · next n same =>
      exact ⟨[_, _], List.cons_ne_nil _ _, .negativeInt, .token minus (.single (takes_of_token minus.whole same rfl))⟩
    · next x same =>
      exact ⟨[_, _], List.cons_ne_nil _ _, .negativeFloat,
        .token minus (.single (takes_of_token minus.whole same rfl))⟩
    · trivial
  · next same => exact single same rfl fun _ => .true
  · next same => exact single same rfl fun _ => .false
  · next w _ _ same =>
    have head := takes_of_token whole same rfl
    split
    · next arity hasArity =>
      refine Ensures.bind_iff.mpr (Ensures.discard_iff.mpr ?_)
      refine (follows_expect rfl head.whole).imp ?_
      rintro _ d ⟨q, opens⟩
      have shorter := head.shorter
      have shorter' := opens.shorter
      refine Ensures.bind_iff.mpr ((ih.components _ opens.whole (by omega)).imp ?_)
      rintro xs e ⟨ps, _, rule, reads⟩
      refine Ensures.bind_iff.mpr (Ensures.discard_iff.mpr ?_)
      refine (follows_expect rfl (reads.whole opens.whole)).imp ?_
      rintro _ e' ⟨r, closes⟩
      split
      · next count =>
        have hasArity : vectorArity? w = some xs.length := (eq_of_beq count).symm ▸ hasArity
        exact ⟨_, List.cons_ne_nil _ _, .vector hasArity (rule r),
          .token head (.token opens (reads.append (.single closes)))⟩
      · trivial
    · trivial
  · next same =>
    have opens := takes_of_token whole same rfl
    have shorter := opens.shorter
    refine Ensures.bind_iff.mpr ((ih.items opens.whole (by omega)).imp ?_)
    rintro vs e ⟨ps, _, rule, reads⟩
    exact ⟨_, List.cons_ne_nil _ _, .array rule, .token opens reads⟩
  · next same =>
    have hash := takes_of_token whole same rfl
    refine Ensures.bind_iff.mpr (Ensures.discard_iff.mpr ?_)
    refine (follows_expect rfl hash.whole).imp ?_
    rintro _ d ⟨q, opens⟩
    have shorter := hash.shorter
    have shorter' := opens.shorter
    refine Ensures.bind_iff.mpr ((ih.entries opens.whole (by omega)).imp ?_)
    rintro es e ⟨ps, _, rule, reads⟩
    exact ⟨_, List.cons_ne_nil _ _, .map rule, .token hash (.token opens reads)⟩
  · trivial

theorem follows_components (head : Position) (whole : c.torn = false)
    (enough : 2 * c.rest.length + 2 ≤ fuel + 1) :
    Follows (components (fuel + 1) head)
      (fun xs ps => ∀ p, Derives (.components xs) (ps ++ [tok .rparen p])) c := by
  unfold components Follows
  refine Ensures.bind_iff.mpr ((ih.literal whole (by omega)).imp ?_)
  rintro v d ⟨ps, some', rule, reads⟩
  split
  · trivial
  · next x isComponent =>
    have shorter := Follows.shorter some' reads
    refine Ensures.bind_iff.mpr ((follows_accept rfl (reads.whole whole)).imp fun there e comma => ?_)
    split
    · next more =>
      rw [more, if_pos rfl] at comma
      obtain ⟨q, comma⟩ := comma
      have shorter' := comma.shorter
      refine Ensures.bind_iff.mpr ((ih.components _ comma.whole (by omega)).imp ?_)
      intro xs e ⟨qs, _, rule', reads'⟩
      refine ⟨ps ++ tok .comma q :: qs, by simp, fun p => ?_, reads.append (.token comma reads')⟩
      rw [List.append_assoc, List.cons_append]
      exact .component rule isComponent (rule' p)
    · next no =>
      rw [if_neg no] at comma
      subst comma
      exact ⟨ps, some', fun p => .lastComponent rule isComponent, reads⟩

theorem follows_items (whole : c.torn = false) (enough : 2 * c.rest.length + 2 ≤ fuel + 1) :
    Follows (items (fuel + 1)) (fun vs ps => Derives (.items vs) ps) c := by
  unfold items Follows
  refine Ensures.bind_iff.mpr ((follows_accept rfl whole).imp fun there d closes => ?_)
  split
  · next here =>
    rw [here, if_pos rfl] at closes
    obtain ⟨p, closes⟩ := closes
    exact ⟨_, List.cons_ne_nil _ _, .noItem, .single closes⟩
  · next no =>
    rw [if_neg no] at closes
    subst closes
    refine Ensures.bind_iff.mpr ((ih.literal whole (by omega)).imp ?_)
    rintro v e ⟨ps, some', rule, reads⟩
    have shorter := Follows.shorter some' reads
    refine Ensures.bind_iff.mpr (ensures_peek_iff.mpr ?_)
    split
    · next same =>
      have comma := takes_of_token (reads.whole whole) same rfl
      have shorter' := comma.shorter
      refine Ensures.bind_iff.mpr (Ensures.discard_iff.mpr (ensures_next_iff.mpr ?_))
      refine Ensures.bind_iff.mpr ((ih.items comma.whole (by omega)).imp ?_)
      rintro vs f ⟨qs, _, rule', reads'⟩
      exact ⟨_, by simp, .item rule rule', reads.append (.token comma reads')⟩
    · next same =>
      have closes := takes_of_token (reads.whole whole) same rfl
      obtain ⟨fuel, rfl⟩ : ∃ n, fuel = n + 1 := Nat.exists_eq_add_one.mpr (by omega)
      refine Ensures.bind_iff.mpr ((gives_items_close (reads.whole whole) closes).ensures ?_)
      exact ⟨_, by simp, .lastItem rule, reads.append (.single closes)⟩
    · trivial

/-- An entry from behind its key on, and the entries behind it. -/
theorem follows_entry (k : String) (whole : c.torn = false) (enough : 2 * c.rest.length + 2 ≤ fuel) :
    Ensures (do
      discard (expect .colon)
      let value ← literal fuel
      match (← peek).token with
      | .comma =>
        discard next
        return (k, value) :: (← entries fuel)
      | .rbrace => return (k, value) :: (← entries fuel)
      | _ =>
        let lexeme ← next
        failAt lexeme.position (.expected "`,` or `\x7d`" lexeme.token)) c
      (fun es d => ∃ ps, Reads c ps d ∧ ∀ t p, IsKey t k → Derives (.entries es) (tok t p :: ps))
      fun _ _ => True := by
  refine Ensures.bind_iff.mpr (Ensures.discard_iff.mpr ((follows_expect rfl whole).imp ?_))
  rintro _ d ⟨q, colon⟩
  have shorter := colon.shorter
  refine Ensures.bind_iff.mpr ((ih.literal colon.whole (by omega)).imp ?_)
  rintro v e ⟨ps, some', rule, reads⟩
  have shorter' := Follows.shorter some' reads
  refine Ensures.bind_iff.mpr (ensures_peek_iff.mpr ?_)
  split
  · next same =>
    have comma := takes_of_token (reads.whole colon.whole) same rfl
    have := comma.shorter
    refine Ensures.bind_iff.mpr (Ensures.discard_iff.mpr (ensures_next_iff.mpr ?_))
    refine Ensures.bind_iff.mpr ((ih.entries comma.whole (by omega)).imp ?_)
    rintro es f ⟨qs, _, rule', reads'⟩
    exact ⟨_, .token colon (reads.append (.token comma reads')), fun _ _ isKey => .entry isKey rule rule'⟩
  · next same =>
    have closes := takes_of_token (reads.whole colon.whole) same rfl
    obtain ⟨fuel, rfl⟩ : ∃ n, fuel = n + 1 := Nat.exists_eq_add_one.mpr (by omega)
    refine Ensures.bind_iff.mpr ((gives_entries_close (reads.whole colon.whole) closes).ensures ?_)
    exact ⟨_, .token colon (reads.append (.single closes)), fun _ _ isKey => .lastEntry isKey rule⟩
  · trivial

theorem follows_entries (whole : c.torn = false) (enough : 2 * c.rest.length + 2 ≤ fuel + 1) :
    Follows (entries (fuel + 1)) (fun es ps => Derives (.entries es) ps) c := by
  unfold entries Follows
  refine Ensures.bind_iff.mpr (ensures_next_iff.mpr ?_)
  split
  · next same => exact ⟨_, List.cons_ne_nil _ _, .noEntry, .single (takes_of_token whole same rfl)⟩
  · next k same =>
    have key := takes_of_token whole same rfl
    have shorter := key.shorter
    refine (follows_entry ih k key.whole (by omega)).imp ?_
    rintro es d ⟨ps, reads, rule⟩
    exact ⟨_, List.cons_ne_nil _ _, rule _ _ .word, .token key reads⟩
  · next k same =>
    have key := takes_of_token whole same rfl
    have shorter := key.shorter
    refine (follows_entry ih k key.whole (by omega)).imp ?_
    rintro es d ⟨ps, reads, rule⟩
    exact ⟨_, List.cons_ne_nil _ _, rule _ _ .text, .token key reads⟩
  · trivial

end Literals

theorem followsLiterals (fuel : Nat) : FollowsLiterals fuel := by
  induction fuel with
  | zero =>
    exact ⟨fun _ _ enough => by omega, fun _ _ _ enough => by omega, fun _ _ enough => by omega,
      fun _ _ enough => by omega⟩
  | succ fuel ih =>
    exact ⟨fun _ => follows_literal ih, fun _ => follows_components ih, fun _ => follows_items ih,
      fun _ => follows_entries ih⟩

/-- A literal read with the fuel for what is left follows its rule. -/
theorem follows_literal_fuelOf (whole : c.torn = false) :
    Follows (literal (fuelOf c)) (fun v ps => Derives (.literal v) ps) c :=
  (followsLiterals _).literal whole (by rw [fuelOf]; omega)

/-! ## 3. Functions and fields -/

theorem follows_use (whole : c.torn = false) :
    Follows use (fun decl ps => IsItem (.use decl) ps) c := by
  refine Ensures.bind_iff.mpr ((follows_expectKeyword whole).imp fun p d keyword => ?_)
  refine Ensures.bind_iff.mpr ((follows_expectIdent keyword.whole).imp ?_)
  rintro ⟨name, q⟩ e named
  refine Ensures.bind_iff.mpr (Ensures.discard_iff.mpr ?_)
  refine (follows_expect rfl named.whole).imp ?_
  rintro _ f ⟨r, semi⟩
  exact ⟨_, List.cons_ne_nil _ _, .use, .token keyword (.token named (.single semi))⟩

/-- Parameters up to their parenthesis, which is not taken, each of them new. -/
theorem follows_params (fuel : Nat) (seen : List String) (whole : c.torn = false)
    (enough : c.rest.length < fuel) :
    Ensures (params fuel seen) c (fun xs d => ∃ ys ps, xs = seen ++ ys ∧ ys ≠ [] ∧
      (∀ p, IsParams ys (ps ++ [tok .rparen p])) ∧ (seen.Nodup → xs.Nodup) ∧ Reads c ps d) fun _ _ => True := by
  -- On the fuel, for all the names seen so far: the pieces read are those of the names behind them.
  induction fuel generalizing seen c with
  | zero => omega
  | succ fuel ih =>
    unfold params
    refine Ensures.bind_iff.mpr ((follows_expectIdent whole).imp ?_)
    rintro ⟨x, p⟩ d named
    dsimp only
    split
    · trivial
    · next fresh =>
      have distinct (nodup : seen.Nodup) : (seen ++ [x]).Nodup := by
        rw [List.contains_iff_mem] at fresh
        rw [List.nodup_append]
        refine ⟨nodup, by simp, fun a ha b hb => ?_⟩
        rw [List.mem_singleton.mp hb]
        rintro rfl
        exact fresh ha
      refine Ensures.bind_iff.mpr ((follows_accept rfl named.whole).imp fun there e comma => ?_)
      split
      · next more =>
        rw [more, if_pos rfl] at comma
        obtain ⟨q, comma⟩ := comma
        have shorter := named.shorter
        have shorter' := comma.shorter
        refine (ih (seen ++ [x]) comma.whole (by omega)).imp ?_
        rintro xs f ⟨ys, ps, same, some', rule, nodup, reads⟩
        obtain ⟨y, ys, rfl⟩ := List.exists_cons_of_ne_nil some'
        refine ⟨x :: y :: ys, word x p :: tok .comma q :: ps, by rw [same]; simp, List.cons_ne_nil _ _,
          fun r => .more (rule r), fun h => nodup (distinct h), .token named (.token comma reads)⟩
      · next no =>
        rw [if_neg no] at comma
        subst comma
        exact ⟨[x], [word x p], rfl, List.cons_ne_nil _ _, fun _ => .last, distinct, .single named⟩

theorem follows_body (whole : c.torn = false) : Ensures body c (fun b d => c.Captures b d) fun _ _ => True := by
  refine Ensures.bind_iff.mpr (Ensures.get_iff.mpr ?_)
  cases captured : c.capture? with
  | some r => exact (Cursor.captures_iff whole).mpr captured
  | none => trivial

theorem follows_function (whole : c.torn = false) : Follows function (fun f ps => IsFunction f ps) c := by
  refine Ensures.bind_iff.mpr (Ensures.discard_iff.mpr ?_)
  refine (follows_expectKeyword whole).imp fun p c₁ keyword => ?_
  refine Ensures.bind_iff.mpr ((follows_expectIdent keyword.whole).imp ?_)
  rintro ⟨name, q⟩ c₂ named
  refine Ensures.bind_iff.mpr (Ensures.discard_iff.mpr ?_)
  refine (follows_expect rfl named.whole).imp ?_
  rintro _ c₃ ⟨r, opens⟩
  -- With the parameters read, the parenthesis and the body are left.
  have closing {xs : List String} {ps : List Piece} {d : Cursor} (reads : Reads c₃ ps d)
      (rule : ∀ p, IsParams xs (ps ++ [tok .rparen p])) (nodup : xs.Nodup) :
      Ensures (do
        discard (expect .rparen)
        discard (expect .lbrace)
        let body ← body
        return (⟨name, xs, body, q⟩ : FnDecl)) d
        (fun f d => ∃ ps, ps ≠ [] ∧ IsFunction f ps ∧ Reads c ps d) fun _ _ => True := by
    refine Ensures.bind_iff.mpr (Ensures.discard_iff.mpr ?_)
    refine (follows_expect rfl (reads.whole opens.whole)).imp ?_
    rintro _ d₁ ⟨s, closes⟩
    refine Ensures.bind_iff.mpr (Ensures.discard_iff.mpr ?_)
    refine (follows_expect rfl closes.whole).imp ?_
    rintro _ d₂ ⟨t, brace⟩
    refine Ensures.bind_iff.mpr ((follows_body brace.whole).imp fun b d₃ captures => ?_)
    refine ⟨word "fn" p :: word name q :: tok .lparen r :: ((ps ++ [tok .rparen s]) ++ [tok .lbrace t, .body b]),
      List.cons_ne_nil _ _, .mk (rule s) nodup, .token keyword (.token named (.token opens ?_))⟩
    exact (reads.append (.single closes)).append (.token brace (.body captures .nil))
  refine Ensures.bind_iff.mpr (ensures_peek_iff.mpr ?_)
  show Ensures (if _ then _ else _) c₃ _ _
  split
  · exact closing .nil (fun _ => .none) List.nodup_nil
  · refine Ensures.bind_iff.mpr (Ensures.get_iff.mpr (Ensures.bind_iff.mpr ?_))
    refine (follows_params _ [] opens.whole (by rw [fuelOf]; omega)).imp ?_
    rintro xs d ⟨ys, ps, rfl, -, rule, nodup, reads⟩
    exact closing reads rule (nodup List.nodup_nil)

theorem follows_field {keyword : String} (whole : c.torn = false) (starts : c.next.1.token = .ident keyword)
    (isKeyword : keyword = "pub" ∨ keyword = "let") : Follows field (fun f ps => IsField f ps) c := by
  refine Ensures.bind_iff.mpr (Ensures.bind_iff.mpr (ensures_next_iff.mpr ?_))
  rw [starts]
  have first := takes_of_token whole starts rfl
  refine Ensures.bind_iff.mpr ((follows_expectIdent first.whole).imp ?_)
  rintro ⟨name, q⟩ c₂ named
  refine Ensures.bind_iff.mpr (Ensures.discard_iff.mpr ?_)
  refine (follows_expect rfl named.whole).imp ?_
  rintro _ c₃ ⟨r, colon⟩
  refine Ensures.bind_iff.mpr ((follows_expectIdent colon.whole).imp ?_)
  rintro ⟨w, s⟩ c₄ kinded
  dsimp only
  cases known : Field.Kind.ofKeyword? w with
  | none => trivial
  | some kind =>
    -- What is in front of the default is the same for a field without one.
    have heads {default : Option Literal} {ps : List Piece} {d : Cursor} (rule : IsDefault default ps)
        (reads : Reads c₄ ps d) :
        ∃ ps, ps ≠ [] ∧ IsField ⟨name, kind, keyword == "pub", default, q⟩ ps ∧ Reads c ps d :=
      ⟨_, List.cons_ne_nil _ _, .mk isKeyword known rule,
        .token first (.token named (.token colon (.token kinded reads)))⟩
    refine Ensures.bind_iff.mpr ((follows_accept rfl kinded.whole).imp fun there d equals => ?_)
    split
    · next more =>
      rw [more, if_pos rfl] at equals
      obtain ⟨t, equals⟩ := equals
      refine Ensures.bind_iff.mpr (Ensures.get_iff.mpr (Ensures.bind_iff.mpr ?_))
      refine (follows_literal_fuelOf equals.whole).imp ?_
      rintro v e ⟨ps, _, rule, reads⟩
      refine Ensures.bind_iff.mpr (Ensures.pure_iff.mpr (Ensures.bind_iff.mpr (Ensures.discard_iff.mpr ?_)))
      refine (follows_expect rfl (reads.whole equals.whole)).imp ?_
      rintro _ f ⟨u, semi⟩
      exact heads (.some rule) (.token equals (reads.append (.single semi)))
    · next no =>
      rw [if_neg no] at equals
      subst equals
      refine Ensures.bind_iff.mpr (Ensures.pure_iff.mpr (Ensures.bind_iff.mpr (Ensures.discard_iff.mpr ?_)))
      refine (follows_expect rfl kinded.whole).imp ?_
      rintro _ f ⟨u, semi⟩
      exact heads .none (.single semi)

/-- A step that always fails follows any rule. -/
theorem follows_unexpectedHere {what : String} {Rule : α → List Piece → Prop} :
    Follows (unexpectedHere what) Rule c :=
  Ensures.bind_iff.mpr (ensures_next_iff.mpr trivial)

end Parse

/-! ## 4. Types -/

open Parse (Follows)

theorem follows_member (whole : c.torn = false) : Follows (member c.next.1.token) IsMember c := by
  unfold member
  split
  · refine Ensures.bind_iff.mpr ((Parse.follows_function whole).imp fun f d ⟨ps, some', rule, reads⟩ => ?_)
    exact ⟨ps, some', .method rule, reads⟩
  · split
    · next starts =>
      have field {w : String} (starts : c.next.1.token = .ident w) (isKeyword : w = "pub" ∨ w = "let") :
          Follows (do return .field (← Parse.field)) IsMember c := by
        refine Ensures.bind_iff.mpr ((Parse.follows_field whole starts isKeyword).imp ?_)
        exact fun f d ⟨ps, some', rule, reads⟩ => ⟨ps, some', .field rule, reads⟩
      rcases Bool.or_eq_true_iff.mp starts with starts | starts
      · exact field (eq_of_beq starts) (.inl rfl)
      · exact field (eq_of_beq starts) (.inr rfl)
    · exact Parse.follows_unexpectedHere

/-- Members that are closed and without a fault are what the text says. -/
theorem areMembers_of_members (fuel : Nat) (whole : c.torn = false) (enough : c.rest.length < fuel)
    (clean : (members fuel c).faults = []) (closed : (members fuel c).closed = true) :
    ∃ ps, AreMembers (members fuel c).found ps ∧ Reads c ps (members fuel c).cursor := by
  induction fuel generalizing c with
  | zero => omega
  | succ fuel ih =>
    have step := follows_member whole
    unfold Follows Ensures at step
    revert clean closed
    unfold members
    dsimp only
    split
    · next same => exact fun _ _ => ⟨_, .close, .single (Parse.takes_of_token whole same rfl)⟩
    -- The text has ended before the brace.
    · exact fun _ closed => absurd closed Bool.false_ne_true
    · split <;> rename_i run <;> rw [run] at step
      · obtain ⟨ps, some', rule, reads⟩ := step
        have shorter := Follows.shorter some' reads
        intro clean closed
        obtain ⟨qs, rules, reads'⟩ := ih (reads.whole whole) (by omega) clean closed
        exact ⟨_, .more rule rules, reads.append reads'⟩
      · exact fun clean => absurd clean (List.cons_ne_nil _ _)

theorem follows_typeHead (whole : c.torn = false) : Follows typeHead IsHead c := by
  unfold typeHead
  refine Ensures.bind_iff.mpr ((Parse.follows_accept rfl whole).imp fun isAbstract c₁ first => ?_)
  have first : ∃ ps, IsPrefix isAbstract ps ∧ Reads c ps c₁ := by
    cases isAbstract with
    | true =>
      obtain ⟨p, takes⟩ := first
      exact ⟨_, .abstract, .single takes⟩
    | false =>
      obtain rfl := first
      exact ⟨_, .none, .nil⟩
  obtain ⟨ps, isPrefix, reads⟩ := first
  have whole₁ := reads.whole whole
  refine Ensures.bind_iff.mpr (Ensures.discard_iff.mpr ((Parse.follows_expectKeyword whole₁).imp ?_))
  intro p c₂ keyword
  refine Ensures.bind_iff.mpr ((Parse.follows_expectIdent keyword.whole).imp ?_)
  rintro ⟨name, q⟩ c₃ named
  -- With the base read, the brace is left.
  have closing {base : Option (String × Position)} {bs : List Piece} {d : Cursor} (isBase : IsBase base bs)
      (reads' : Reads c₃ bs d) :
      Ensures (do
        discard (Parse.expect .lbrace)
        return (⟨name, base, isAbstract, [], [], q⟩ : TypeDecl)) d
        (fun head d => ∃ ps, ps ≠ [] ∧ IsHead head ps ∧ Reads c ps d) fun _ _ => True := by
    refine Ensures.bind_iff.mpr (Ensures.discard_iff.mpr ?_)
    refine (Parse.follows_expect rfl (reads'.whole named.whole)).imp ?_
    rintro _ e ⟨r, brace⟩
    exact ⟨_, by simp, .mk isPrefix isBase, reads.append (.token keyword (.token named (reads'.append (.single brace))))⟩
  refine Ensures.bind_iff.mpr ((Parse.follows_accept rfl named.whole).imp fun there d colon => ?_)
  split
  · next more =>
    rw [more, if_pos rfl] at colon
    obtain ⟨r, colon⟩ := colon
    refine Ensures.bind_iff.mpr (Ensures.map_iff.mpr ?_)
    refine (Parse.follows_expectIdent colon.whole).imp ?_
    rintro ⟨b, s⟩ e based
    exact closing .some (.token colon (.single based))
  · next no =>
    rw [if_neg no] at colon
    subst colon
    exact Ensures.bind_iff.mpr (Ensures.pure_iff.mpr (closing .none .nil))

/-! ## 5. Modules -/

/-- From the cursor the item is there and has been read, if there is no fault. -/
def ItemResult.Follows (r : ItemResult) (c : Cursor) : Prop :=
  r.faults = [] → ∃ i ps, r.item = some i ∧ ps ≠ [] ∧ IsItem i ps ∧ Reads c ps r.cursor

theorem follows_ofParse {α : Type} {make : α → Item} {x : Parse α}
    (h : Parse.Follows x (fun a ps => IsItem (make a) ps) c) : (ItemResult.ofParse make x c).Follows c := by
  unfold ItemResult.ofParse
  unfold Parse.Follows Ensures at h
  split <;> rename_i run <;> rw [run] at h
  · obtain ⟨ps, some', rule, reads⟩ := h
    exact fun _ => ⟨_, ps, rfl, some', rule, reads⟩
  · exact fun clean => absurd clean (List.cons_ne_nil _ _)

theorem follows_typeItem (whole : c.torn = false) : (typeItem c).Follows c := by
  have step := follows_typeHead whole
  unfold Parse.Follows Ensures at step
  unfold typeItem
  split <;> rename_i run <;> rw [run] at step
  · exact fun clean => absurd clean (List.cons_ne_nil _ _)
  · next head d =>
    obtain ⟨ps, some', rule, reads⟩ := step
    dsimp only
    split
    · next closed =>
      intro clean
      obtain ⟨qs, rules, reads'⟩ :=
        areMembers_of_members _ (reads.whole whole) (by rw [Parse.fuelOf]; omega) clean closed
      exact ⟨_, ps ++ qs, rfl, List.append_ne_nil_of_left_ne_nil some' _,
        .type (isType_iff.mpr ⟨_, _, _, _, rule, rules, rfl, rfl⟩), reads.append reads'⟩
    · exact fun clean => absurd clean (by simp)

theorem follows_item (t : Token) (whole : c.torn = false) : (item t c).Follows c := by
  unfold item
  split
  · exact follows_ofParse (Parse.follows_use whole)
  split
  · exact follows_ofParse ((Parse.follows_function whole).imp fun _ _ ⟨ps, some', rule, reads⟩ =>
      ⟨ps, some', .function rule, reads⟩)
  split
  · exact follows_typeItem whole
  · exact follows_ofParse Parse.follows_unexpectedHere

/-- Items without a fault are all that the text says. -/
theorem areItems_of_itemsFrom (fuel : Nat) (whole : c.torn = false) (enough : c.rest.length < fuel)
    (clean : (itemsFrom fuel c).2 = []) :
    ∃ ps after, AreItems (itemsFrom fuel c).1 ps ∧ Reads c ps after ∧ Final after.rest := by
  induction fuel generalizing c with
  | zero => omega
  | succ fuel ih =>
    have step := follows_item c.peek.token whole
    unfold itemsFrom at clean ⊢
    dsimp only at clean ⊢
    split
    · next last => exact ⟨[], c, .none, .nil, (Cursor.next_eof_iff whole).mp (eq_of_beq last)⟩
    · next more =>
      rw [if_neg more] at clean
      split at clean
      · next i isItem =>
        obtain ⟨clean, clean'⟩ := List.append_eq_nil_iff.mp clean
        obtain ⟨j, ps, isItem', some', rule, reads⟩ := step clean
        obtain rfl := Option.some.inj (isItem.symm.trans isItem')
        have shorter := Parse.Follows.shorter some' reads
        obtain ⟨qs, after, rules, reads', final⟩ := ih (reads.whole whole) (by omega) clean'
        exact ⟨_, after, .more rule rules, reads.append reads', final⟩
      -- Without an item there is a fault, and there should be none.
      · next isItem =>
        obtain ⟨clean, -⟩ := List.append_eq_nil_iff.mp clean
        obtain ⟨j, ps, isItem', -⟩ := step clean
        exact nomatch isItem.symm.trans isItem'

/-- A text that is read without a fault is a sentence, and declares what was read. -/
theorem sentence_of_parse {source : String} (clean : (parse source).2 = []) :
    Sentence Final source (parse source).1 := by
  have enough : (Cursor.ofString source).rest.length < source.length + 1 := by
    show source.toList.length < source.length + 1
    rw [String.length_toList]
    exact Nat.lt_succ_self _
  obtain ⟨ps, after, rules, reads, final⟩ := areItems_of_itemsFrom _ rfl enough clean
  exact ⟨_, ps, after, rules, reads, final, rfl⟩

/-! ## 6. Exactly the grammar -/

/-- A text is read without a fault exactly if it is a sentence, as the one tree that it declares. -/
theorem parse_exact (source : String) :
    ((parse source).2 = [] ↔ ∃ tree, Sentence Final source tree) ∧
      ∀ tree, Sentence Final source tree ↔ parse source = (tree, []) := by
  have read {tree : Tree} (h : parse source = (tree, [])) : Sentence Final source tree := by
    have sentence := sentence_of_parse (congrArg Prod.snd h)
    rw [h] at sentence
    exact sentence
  refine ⟨⟨fun clean => ⟨_, sentence_of_parse clean⟩, ?_⟩, fun tree => ⟨parse_of_sentence, read⟩⟩
  rintro ⟨tree, sentence⟩
  rw [parse_of_sentence sentence]

example : (parse "use lamps /* and /* their */ shades */ ;").2 = [] := rfl

/-- A block comment that nothing closes is no part of a sentence, yet at the end of a text it is no fault. -/
theorem open_comment_is_read : (parse "/*").2 = [] ∧ ¬ ∃ tree, Sentence Ended "/*" tree := by
  have final : Final (Cursor.ofString "/*").rest := .inr ⟨[], [], .none, .ended, rfl⟩
  constructor
  · rw [parse_of_sentence ⟨[], [], _, .none, .nil, final, rfl⟩]
  · rintro ⟨tree, items, ps, after, rules, reads, ended, -⟩
    cases rules with
    | none =>
      cases reads
      generalize split : (Cursor.ofString "/*").rest = cs at ended
      replace split : ['/', '*'] = cs := split
      cases ended with
      | gap gap =>
        cases gap with
        | none | line => exact nomatch split
        | blank blank =>
          obtain ⟨rfl, -⟩ := List.cons.inj split
          exact absurd blank (by decide)
        | block inside =>
          have nothing := (List.cons.inj (List.cons.inj split).2).2
          exact inside.ne_nil (List.append_eq_nil_iff.mp nothing.symm).1
      | @line gs us =>
        -- There is no room for a gap in front of the line comment.
        have length := congrArg List.length split
        simp only [List.length_append, List.length_cons, List.length_nil] at length
        obtain rfl : gs = [] := List.eq_nil_of_length_eq_zero (by omega)
        exact nomatch split
    | more rule =>
      obtain ⟨e, first, -⟩ := reads.split
      obtain ⟨w, starts, -⟩ := item_of_isItem rule rfl first
      exact nomatch starts.symm.trans ((Cursor.next_eof_iff rfl).mpr final)

end ScriptHost.Declaration
