import ScriptHost.Proofs.Declaration.Completeness

/-!
# Recovery — where reading goes on behind a broken member

Recovery goes over tokens and counts braces.  Over what is left of a member it gets to the end of this member, and the
next one is read as ever.  A name that is itself a word that members start with holds it up: there a member is tried
that fails at once, which costs one more fault.
-/

namespace ScriptHost.Declaration

open Text (Position)

/-! ## 1. Going over tokens -/

/-- The words that members start with. -/
def starters : List String := ["pub", "let", "fn"]

/-- With so many braces open recovery goes over the token, and as many stay open. -/
structure Token.IsIdle (n : Nat) (t : Token) : Prop where
  notLast : t ≠ .eof
  notOpening : t ≠ .lbrace
  notClosing : t ≠ .rbrace
  notEnding : n = 0 → t ≠ .semi
  notStarting : n = 0 → ∀ w ∈ starters, t ≠ .ident w

/-- With `n` braces open at the first cursor, recovery goes over tokens to the other cursor, where `m` are open. -/
inductive Skips : (n : Nat) → Cursor → (m : Nat) → Cursor → Prop
  | stay {n c} : Skips n c n c
  | opens {n m c e} : c.next.1.token = .lbrace → Skips (n + 1) c.next.2 m e → Skips n c m e
  | closes {n m c e} : c.next.1.token = .rbrace → Skips n c.next.2 m e → Skips (n + 1) c m e
  | passes {n m c e} : c.next.1.token.IsIdle n → Skips n c.next.2 m e → Skips n c m e

variable {c d e : Cursor} {l : Lexeme} {t : Token} {p q : Position} {w : String} {n m k : Nat} {ps : List Piece}

theorem recoverMember_opens (h : c.next.1.token = .lbrace) :
    recoverMember (k + 1) n c = recoverMember k (n + 1) c.next.2 := by
  rw [recoverMember]
  simp only [h]

theorem recoverMember_closes (h : c.next.1.token = .rbrace) :
    recoverMember (k + 1) (n + 1) c = recoverMember k n c.next.2 := by
  rw [recoverMember]
  simp only [h]

theorem recoverMember_passes (h : c.next.1.token.IsIdle n) :
    recoverMember (k + 1) n c = recoverMember k n c.next.2 := by
  rw [recoverMember]
  dsimp only
  split
  · next same => exact absurd same h.notLast
  · next same => exact absurd same (h.notEnding rfl)
  · next same => exact absurd same h.notClosing
  · next w same => exact if_neg fun starts => h.notStarting rfl w (List.contains_iff_mem.mp starts) same
  · next same => exact absurd same h.notOpening
  · next same => exact absurd same h.notClosing
  · rfl

/-- A semicolon outside braces is the end of a member. -/
theorem recoverMember_semi (h : c.next.1.token = .semi) : recoverMember (k + 1) 0 c = c.next.2 := by
  rw [recoverMember]
  simp only [h]

/-- What ends a member without being part of it: the word that starts another, or the brace that closes the type. -/
def Token.IsBoundary (t : Token) : Prop := t = .rbrace ∨ ∃ w ∈ starters, t = .ident w

theorem recoverMember_boundary (h : c.next.1.token.IsBoundary) : recoverMember (k + 1) 0 c = c := by
  rw [recoverMember]
  rcases h with closing | ⟨w, hw, start⟩
  · simp only [closing]
  · simp only [start]
    exact if_pos (List.contains_iff_mem.mpr hw)

/-- Recovery goes on as from the other cursor. -/
theorem recoverMember_of_skips (h : Skips n c m e) (k : Nat) (enough : c.rest.length < k) :
    e.rest.length ≤ c.rest.length ∧
      ∃ k', e.rest.length < k' ∧ recoverMember k n c = recoverMember k' m e := by
  -- On what is skipped, for any fuel that is enough: every token takes one step of it and one character at least.
  induction h generalizing k with
  | stay => exact ⟨Nat.le_refl _, k, enough, rfl⟩
  | @opens n m c e brace _ ih =>
    obtain ⟨k, rfl⟩ : ∃ j, k = j + 1 := Nat.exists_eq_add_one.mpr (by omega)
    have shorter := c.next_shorter (by rw [brace]; exact nofun)
    obtain ⟨le, k', enough', same⟩ := ih k (by omega)
    exact ⟨by omega, k', enough', (recoverMember_opens brace).trans same⟩
  | @closes n m c e brace _ ih =>
    obtain ⟨k, rfl⟩ : ∃ j, k = j + 1 := Nat.exists_eq_add_one.mpr (by omega)
    have shorter := c.next_shorter (by rw [brace]; exact nofun)
    obtain ⟨le, k', enough', same⟩ := ih k (by omega)
    exact ⟨by omega, k', enough', (recoverMember_closes brace).trans same⟩
  | @passes n m c e idle _ ih =>
    obtain ⟨k, rfl⟩ : ∃ j, k = j + 1 := Nat.exists_eq_add_one.mpr (by omega)
    have shorter := c.next_shorter idle.notLast
    obtain ⟨le, k', enough', same⟩ := ih k (by omega)
    exact ⟨by omega, k', enough', (recoverMember_passes idle).trans same⟩

namespace Skips

variable {e' : Cursor} {m' : Nat}

theorem trans (h : Skips n c m e) (h' : Skips m e m' e') : Skips n c m' e' := by
  induction h with
  | stay => exact h'
  | opens brace _ ih => exact .opens brace (ih h')
  | closes brace _ ih => exact .closes brace (ih h')
  | passes idle _ ih => exact .passes idle (ih h')

theorem passed (whole : c.torn = false) (takes : c.Takes l d) (idle : l.token.IsIdle n) (h : Skips n d m e) :
    Skips n c m e := by
  have next := takes.next whole
  exact .passes (by rw [next]; exact idle) (by rw [next]; exact h)

theorem opened (whole : c.torn = false) (takes : c.Takes ⟨.lbrace, p⟩ d) (h : Skips (n + 1) d m e) :
    Skips n c m e := by
  have next := takes.next whole
  exact .opens (by rw [next]) (by rw [next]; exact h)

theorem closed (whole : c.torn = false) (takes : c.Takes ⟨.rbrace, p⟩ d) (h : Skips n d m e) :
    Skips (n + 1) c m e := by
  have next := takes.next whole
  exact .closes (by rw [next]) (by rw [next]; exact h)

end Skips

/-! ## 2. Literals -/

/-- A token that recovery goes over everywhere. -/
def Token.isNeutral : Token → Bool
  | .ident w => !starters.contains w
  | .semi | .lbrace | .rbrace | .eof => false
  | _ => true

theorem Token.isIdle_of_isNeutral (h : t.isNeutral = true) (n : Nat) : t.IsIdle n := by
  refine ⟨?_, ?_, ?_, fun _ => ?_, fun _ w hw => ?_⟩
  all_goals
    rintro rfl
    simp [isNeutral, *] at h

theorem IsKey.isIdle {key : String} (h : IsKey t key) (n : Nat) : t.IsIdle (n + 1) := by
  cases h <;> exact ⟨nofun, nofun, nofun, nofun, nofun⟩

theorem isNeutral_of_vectorArity? {arity : Nat} (h : Parse.vectorArity? w = some arity) :
    (Token.ident w).isNeutral = true := by
  unfold Parse.vectorArity? at h
  split at h
  case h_4 => exact nomatch h
  all_goals rfl

theorem skips_neutral (whole : c.torn = false) (takes : c.Takes l d) (neutral : l.token.isNeutral = true)
    (h : Skips n d m e) : Skips n c m e :=
  h.passed whole takes (Token.isIdle_of_isNeutral neutral n)

/-- The braces that a phrase closes without opening them. -/
def Phrase.closing : Phrase → Nat
  | .entries _ => 1
  | _ => 0

/-- A literal leaves as many braces open as it finds. -/
theorem skips_of_derives {r : Phrase} (rule : Derives r ps) (n : Nat) (whole : c.torn = false)
    (reads : Reads c ps d) : Skips (n + r.closing) c n d := by
  -- On the derivation, for any number of braces that are open in front: only those of maps are counted.
  induction rule generalizing n c d with
  | int | float | text | true | false | noItem => exact skips_neutral whole reads.single_inv rfl .stay
  | negativeInt | negativeFloat =>
    obtain ⟨c₁, minus, reads⟩ := reads.cons_inv
    exact skips_neutral whole minus rfl (skips_neutral minus.whole reads.single_inv rfl .stay)
  | vector arity _ ih =>
    obtain ⟨c₁, head, reads⟩ := reads.cons_inv
    obtain ⟨c₂, opens, reads⟩ := reads.cons_inv
    exact skips_neutral whole head (isNeutral_of_vectorArity? arity)
      (skips_neutral head.whole opens rfl (ih n opens.whole reads))
  | array _ ih =>
    obtain ⟨c₁, opens, reads⟩ := reads.cons_inv
    exact skips_neutral whole opens rfl (ih n opens.whole reads)
  | map _ ih =>
    obtain ⟨c₁, hash, reads⟩ := reads.cons_inv
    obtain ⟨c₂, opens, reads⟩ := reads.cons_inv
    exact skips_neutral whole hash rfl (.opened hash.whole opens (ih n opens.whole reads))
  | lastComponent _ _ ih | lastItem _ ih =>
    obtain ⟨c₁, value, closes⟩ := reads.split
    exact (ih n whole value).trans (skips_neutral (value.whole whole) closes.single_inv rfl .stay)
  | component _ _ _ ih ih' | item _ _ ih ih' =>
    obtain ⟨c₁, value, reads⟩ := reads.split
    obtain ⟨c₂, comma, reads⟩ := reads.cons_inv
    exact (ih n whole value).trans (skips_neutral (value.whole whole) comma rfl (ih' n comma.whole reads))
  | noEntry => exact .closed whole reads.single_inv .stay
  | lastEntry isKey _ ih =>
    obtain ⟨c₁, key, reads⟩ := reads.cons_inv
    obtain ⟨c₂, colon, reads⟩ := reads.cons_inv
    obtain ⟨c₃, value, closes⟩ := reads.split
    refine .passed whole key (isKey.isIdle n) (skips_neutral key.whole colon rfl ?_)
    exact (ih (n + 1) colon.whole value).trans (.closed (value.whole colon.whole) closes.single_inv .stay)
  | entry isKey _ _ ih ih' =>
    obtain ⟨c₁, key, reads⟩ := reads.cons_inv
    obtain ⟨c₂, colon, reads⟩ := reads.cons_inv
    obtain ⟨c₃, value, reads⟩ := reads.split
    obtain ⟨c₄, comma, reads⟩ := reads.cons_inv
    refine .passed whole key (isKey.isIdle n) (skips_neutral key.whole colon rfl ?_)
    exact (ih (n + 1) colon.whole value).trans
      (skips_neutral (value.whole colon.whole) comma rfl (ih' n comma.whole reads))

/-! ## 3. Steps that fail -/

namespace Parse

variable {α β : Type} {x : Parse α} {f : α → Parse β} {a : α} {fault : Fault}

/-- From the one cursor the step fails and gets to the other cursor. -/
def Fails (x : Parse α) (c : Cursor) (fault : Fault) (d : Cursor) : Prop := x.run.run c = (.error fault, d)

theorem Fails.bind (hx : Fails x c fault d) : Fails (x >>= f) c fault d := by
  unfold Fails at hx ⊢
  rw [ExceptT.run_bind, StateT.run_bind, hx]
  rfl

theorem Gives.fails (hx : Gives x c a d) (hf : Fails (f a) d fault e) : Fails (x >>= f) c fault e := by
  unfold Fails at hf ⊢
  unfold Gives at hx
  rw [ExceptT.run_bind, StateT.run_bind, hx]
  exact hf

theorem Fails.discard (hx : Fails x c fault d) : Fails (discard x) c fault d := by
  show Fails ((fun _ => ()) <$> x) c fault d
  rw [map_eq_pure_bind]
  exact hx.bind

theorem fails_expect (whole : c.torn = false) (h : c.Takes l d) (other : l.token ≠ t) :
    Fails (expect t) c ⟨.expected t.describe l.token, l.position⟩ d := by
  refine (gives_next whole h).fails ?_
  rw [if_neg (by simpa using other)]
  rfl

theorem fails_expectIdent {what : String} (whole : c.torn = false) (h : c.Takes l d)
    (other : ∀ w, l.token ≠ .ident w) : Fails (expectIdent what) c ⟨.expected what l.token, l.position⟩ d := by
  refine (gives_next whole h).fails ?_
  split
  · next w same => exact absurd same (other w)
  · rfl

end Parse

open Parse (Fails Gives)

/-- The member that starts here is broken: a fault is found at `p`, and recovery starts at the other cursor. -/
def Cursor.Breaks (c : Cursor) (p : Position) (d : Cursor) : Prop :=
  ∃ w cause, c.next.1.token = .ident w ∧ Fails (member (.ident w)) c ⟨cause, p⟩ d

theorem fails_member {fault : Fault} (hw : w = "pub" ∨ w = "let") (fails : Fails Parse.field c fault d) :
    Fails (member (.ident w)) c fault d := by
  rcases hw with rfl | rfl
  · exact fails.bind
  · exact fails.bind

theorem breaks_field {cause : Cause} (hw : w = "pub" ∨ w = "let") (starts : c.next.1.token = .ident w)
    (fails : Fails Parse.field c ⟨cause, p⟩ d) : c.Breaks p d := ⟨w, cause, starts, fails_member hw fails⟩

/-- A member without a name is broken, and recovery starts behind what stands in its place. -/
theorem breaks_nameless (hw : w ∈ starters) (whole : c.torn = false) (start : c.Takes ⟨.ident w, p⟩ d)
    (sign : d.Takes l e) (other : ∀ v, l.token ≠ .ident v) : c.Breaks l.position e := by
  have starts : c.next.1.token = .ident w := by rw [start.next whole]
  have field : Fails Parse.field c ⟨.expected "field name" l.token, l.position⟩ e :=
    (Parse.gives_expectIdent whole start).fails (Parse.fails_expectIdent start.whole sign other).bind
  rcases List.mem_cons.mp hw with rfl | hw
  · exact breaks_field (.inl rfl) starts field
  rcases List.mem_cons.mp hw with rfl | hw
  · exact breaks_field (.inr rfl) starts field
  · obtain rfl := List.mem_singleton.mp hw
    have function : Fails Parse.function c ⟨.expected "function name" l.token, l.position⟩ e :=
      (Parse.gives_expectKeyword whole start).discard.fails (Parse.fails_expectIdent start.whole sign other).bind
    exact ⟨"fn", _, starts, function.bind⟩

/-! ## 4. Reading on -/

/-- The fault stands in the text between the two cursors. -/
def Fault.Between (c e : Cursor) (fault : Fault) : Prop :=
  ¬fault.position.Before c.position ∧ fault.position.Before e.position

/-- What is read behind some faults. -/
def Members.behind (faults : List Fault) (ms : Members) : Members := { ms with faults := faults ++ ms.faults }

/-- When recovery starts at the first cursor, members are read on from the other one, and what is met on the way are
    faults between the two. -/
structure Resumes (c e : Cursor) : Prop where
  further : ¬e.position.Before c.position
  run : ∀ n k, c.rest.length < n → c.rest.length < k → ∃ faults n', e.rest.length < n' ∧
    (∀ fault ∈ faults, fault.Between c e) ∧ members n (recoverMember k 0 c) = (members n' e).behind faults

/-- In front of a boundary there is nothing to go over. -/
theorem resumes_boundary (h : c.next.1.token.IsBoundary) : Resumes c c where
  further := Position.not_after_before c.position []
  run n k enough enough' := by
    obtain ⟨k, rfl⟩ : ∃ j, k = j + 1 := Nat.exists_eq_add_one.mpr (by omega)
    exact ⟨[], n, enough, List.forall_mem_nil _, by rw [recoverMember_boundary h]; rfl⟩

/-- The semicolon of a member is gone over. -/
theorem resumes_semi (whole : c.torn = false) (takes : c.Takes ⟨.semi, p⟩ d) : Resumes c d where
  further := takes.remains.not_before
  run n k enough enough' := by
    have shorter := takes.shorter
    have next := takes.next whole
    obtain ⟨k, rfl⟩ : ∃ j, k = j + 1 := Nat.exists_eq_add_one.mpr (by omega)
    refine ⟨[], n, by omega, List.forall_mem_nil _, ?_⟩
    rw [recoverMember_semi (by rw [next]), next]
    rfl

/-- Recovery goes over tokens and on from there. -/
theorem resumes_skips (h : Skips 0 c 0 d) (behind : ¬d.position.Before c.position) (resumes : Resumes d e) :
    Resumes c e := by
  refine ⟨Position.not_before_trans behind resumes.further, fun n k enough enough' => ?_⟩
  obtain ⟨shorter, k', enough', same⟩ := recoverMember_of_skips h k enough'
  obtain ⟨faults, n', enough'', between, run⟩ := resumes.run n k' (by omega) enough'
  refine ⟨faults, n', enough'', fun fault hf => ?_, same ▸ run⟩
  obtain ⟨low, high⟩ := between fault hf
  exact ⟨Position.not_before_trans behind low, high⟩

/-- A broken member costs its fault. -/
theorem members_fails {fault : Fault} (starts : c.next.1.token = .ident w)
    (fails : Fails (member (.ident w)) c fault d) (n : Nat) :
    members (n + 1) c = (members n (recoverMember (Parse.fuelOf d) 0 d)).behind [fault] := by
  rw [members]
  dsimp only
  rw [starts]
  dsimp only
  rw [fails]
  rfl

theorem members_broken (breaks : c.Breaks p d) : ∃ cause, ∀ n,
    members (n + 1) c = (members n (recoverMember (Parse.fuelOf d) 0 d)).behind [⟨cause, p⟩] := by
  obtain ⟨w, cause, starts, fails⟩ := breaks
  exact ⟨cause, members_fails starts fails⟩

/-- At a name that members start with one more fails, and recovery goes on behind the sign that follows. -/
theorem resumes_starter (hw : w ∈ starters) (whole : c.torn = false) (start : c.Takes ⟨.ident w, p⟩ d)
    {e' : Cursor} (sign : d.Takes l e) (other : ∀ v, l.token ≠ .ident v) (resumes : Resumes e e') :
    Resumes c e' := by
  obtain ⟨cause, broken⟩ := members_broken (breaks_nameless hw whole start sign other)
  have starts : c.next.1.token = .ident w := by rw [start.next whole]
  obtain ⟨low, high⟩ := sign.place
  have low : ¬l.position.Before c.position := Position.not_before_trans start.remains.not_before low
  have behind : ¬e.position.Before c.position := (start.remains.trans sign.remains).not_before
  refine ⟨Position.not_before_trans behind resumes.further, fun n k enough enough' => ?_⟩
  obtain ⟨n, rfl⟩ : ∃ j, n = j + 1 := Nat.exists_eq_add_one.mpr (by omega)
  obtain ⟨k, rfl⟩ : ∃ j, k = j + 1 := Nat.exists_eq_add_one.mpr (by omega)
  have shorter := start.shorter
  have shorter' := sign.shorter
  obtain ⟨faults, n', enough'', between, run⟩ :=
    resumes.run n (Parse.fuelOf e) (by omega) (by rw [Parse.fuelOf]; omega)
  refine ⟨⟨cause, l.position⟩ :: faults, n', enough'', List.forall_mem_cons.mpr ⟨?_, fun fault hf => ?_⟩, ?_⟩
  · exact ⟨low, high.trans_not resumes.further⟩
  · obtain ⟨low, high⟩ := between fault hf
    exact ⟨Position.not_before_trans behind low, high⟩
  · rw [recoverMember_boundary (.inr ⟨w, hw, starts⟩), broken, run]
    rfl

/-! ## 5. What is left of a member -/

/-- A name with the sign behind it, whatever the name. -/
theorem resumes_name {e' : Cursor} (whole : c.torn = false) (named : c.Takes ⟨.ident w, p⟩ d)
    (sign : d.Takes l e) (other : ∀ v, l.token ≠ .ident v) (neutral : l.token.isNeutral = true)
    (resumes : Resumes e e') : Resumes c e' := by
  by_cases hw : w ∈ starters
  · exact resumes_starter hw whole named sign other resumes
  · have idle : (Token.ident w).isNeutral = true := by simpa [Token.isNeutral] using hw
    have skips : Skips 0 c 0 e := skips_neutral whole named idle (skips_neutral named.whole sign neutral .stay)
    exact resumes_skips skips (named.remains.trans sign.remains).not_before resumes

theorem keyword_of_ofKeyword? {kind : Field.Kind} (h : Field.Kind.ofKeyword? w = some kind) : kind.keyword = w := by
  have named := List.find?_some h
  exact eq_of_beq named

theorem isNeutral_of_ofKeyword? {kind : Field.Kind} (h : Field.Kind.ofKeyword? w = some kind) :
    (Token.ident w).isNeutral = true := by
  obtain rfl := keyword_of_ofKeyword? h
  cases kind <;> rfl

/-- Behind its first word a field is gone over up to its semicolon. -/
theorem resumes_field {decl : FieldDecl} (rule : IsField decl (word w p :: ps)) (whole : c.torn = false)
    (reads : Reads c ps d) : Resumes c d := by
  cases rule with
  | mk isKeyword known isDefault =>
    obtain ⟨c₁, named, reads⟩ := reads.cons_inv
    obtain ⟨c₂, colon, reads⟩ := reads.cons_inv
    obtain ⟨c₃, kinded, reads⟩ := reads.cons_inv
    have idle := isNeutral_of_ofKeyword? known
    refine resumes_name whole named colon nofun rfl ?_
    cases isDefault with
    | none =>
      exact resumes_skips (skips_neutral colon.whole kinded idle .stay) kinded.remains.not_before
        (resumes_semi kinded.whole reads.single_inv)
    | some rule =>
      obtain ⟨c₄, equals, reads⟩ := reads.cons_inv
      obtain ⟨c₅, value, semi⟩ := reads.split
      have skips : Skips 0 c₂ 0 c₅ := skips_neutral colon.whole kinded idle
        (skips_neutral kinded.whole equals rfl (skips_of_derives rule 0 equals.whole value))
      exact resumes_skips skips (Reads.token kinded (.token equals value)).remains.not_before
        (resumes_semi (value.whole equals.whole) semi.single_inv)

theorem resumes_params {xs : List String} (rule : IsParams xs ps) (whole : c.torn = false) (reads : Reads c ps d)
    (resumes : Resumes d e) : Resumes c e := by
  induction rule generalizing c with
  | none =>
    exact resumes_skips (skips_neutral whole reads.single_inv rfl .stay) reads.remains.not_before resumes
  | last =>
    obtain ⟨c₁, named, closes⟩ := reads.cons_inv
    exact resumes_name whole named closes.single_inv nofun rfl resumes
  | more _ ih =>
    obtain ⟨c₁, named, reads⟩ := reads.cons_inv
    obtain ⟨c₂, comma, reads⟩ := reads.cons_inv
    exact resumes_name whole named comma nofun rfl (ih comma.whole reads)

/-- Wherever the body stands in front of this text: read as tokens of declarations, its braces pair, and the one that
    closes it is the last one. -/
def Body.Pairs (b : Body) (rest : List Char) : Prop :=
  ∀ p, Skips 1 ⟨b.text.toList ++ '\x7d' :: rest, p, false⟩ 0 ⟨rest, p.after (b.text.toList ++ ['\x7d']), false⟩

theorem skips_body {b : Body} (captures : c.Captures b d) (whole : c.torn = false) (pairs : b.Pairs d.rest) :
    Skips 1 c 0 d := by
  have start : c = ⟨b.text.toList ++ '\x7d' :: d.rest, c.position, false⟩ := by
    rw [← captures.split, ← whole]
  have behind : d = ⟨d.rest, c.position.after (b.text.toList ++ ['\x7d']), false⟩ := by
    rw [Position.after_append, ← captures.whole]
    exact congrArg (Cursor.mk d.rest · d.torn) captures.behind
  have skips := pairs c.position
  rwa [← start, ← behind] at skips

/-- Behind its first word a method is gone over up to its closing brace, if its braces pair. -/
theorem resumes_function {decl : FnDecl} (rule : IsFunction decl (word w p :: ps)) (whole : c.torn = false)
    (reads : Reads c ps d) (pairs : decl.body.Pairs d.rest) (boundary : d.next.1.token.IsBoundary) :
    Resumes c d := by
  cases rule with
  | mk rule =>
    obtain ⟨c₁, named, reads⟩ := reads.cons_inv
    obtain ⟨c₂, opens, reads⟩ := reads.cons_inv
    obtain ⟨c₃, params, reads⟩ := reads.split
    obtain ⟨c₄, brace, body⟩ := reads.cons_inv
    have further := reads.remains.not_before
    cases body with
    | body captures nothing =>
      cases nothing
      have whole' := params.whole opens.whole
      have skips : Skips 0 c₃ 0 d := .opened whole' brace (skips_body captures brace.whole pairs)
      refine resumes_name whole named opens nofun rfl (resumes_params rule opens.whole params ?_)
      exact resumes_skips skips further (resumes_boundary boundary)

end ScriptHost.Declaration
