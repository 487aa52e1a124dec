import ScriptHost.Declaration.Parser
import ScriptHost.Proofs.Declaration.Body
import ScriptHost.Proofs.Declaration.Spelling
import ScriptHost.Proofs.Step

/-!
# Parser — declarations are where they say

All that a module declares is kept with places of its text, and so is every complaint.  Every function has a word for
its name and words for its parameters, the places it keeps are those of its name and of its body, and its body is what
the scan passed up to the brace that closes it.
-/

namespace ScriptHost.Declaration

open Text (Position Remains)
open Cursor (Within within_of_remains)

variable {cs source : List Char} {p : Position} {c : Cursor}

/-! ## 1. Captured bodies -/

/-- A body is the text that the scan passes up to its brace. -/
structure Body.Captured (cs : List Char) (p : Position) (b : Body) (after : Cursor) : Prop where
  place : b.position = p
  split : cs = b.text.toList ++ '\x7d' :: after.rest
  scan : Scans b.refs.reverse (.code false false) 0 [] (b.text.toList ++ ['\x7d'])
  refs : ∀ r ∈ b.refs, r.StandsIn (b.text.toList ++ ['\x7d']) p
  within : after.Within cs p
  whole : after.torn = false

theorem captured_of_capture? {b : Body} {after : Cursor} (whole : c.torn = false)
    (h : c.capture? = some (b, after)) : b.Captured c.rest c.position after := by
  rw [Cursor.capture?, Cursor.mend_of_whole whole, Cursor.remnant_of_whole whole] at h
  obtain ⟨⟨tail, closing, refs⟩, hs, h⟩ := Option.bind_eq_some_iff.mp h
  obtain ⟨w, ds, split, rfl, place, again⟩ := scanBlock_cut hs
  have text : c.rest.take (c.rest.length - ('\x7d' :: ds).length) = w := by
    rw [split, List.length_append, Nat.add_sub_cancel, List.take_left]
  have scan := again []
  dsimp only at h
  rw [text] at h
  obtain ⟨rfl, rfl⟩ := Prod.mk.inj (Option.some.inj h)
  refine ⟨rfl, ?_, ?_, fun r hr => ?_, ?_, rfl⟩
  · simpa using split
  · simp only [List.nil_append, String.toList_ofList, List.reverse_reverse]
    exact ⟨[], _, _, scan⟩
  · simp only [List.nil_append, String.toList_ofList]
    exact (standsIn_of_scanBlock scan (List.mem_reverse.mp hr)).resolve_left List.not_mem_nil
  · refine within_of_remains ⟨w ++ ['\x7d'], by simp [split], ?_⟩
    rw [place, Position.after_append]
    rfl

/-! ## 2. Steps that keep to their text -/

/-- The place is one of the text `cs` at `p`, or its end. -/
def IsPlace (cs : List Char) (p q : Position) : Prop := ∃ ds, Remains cs p ds q

/-- The words stand in the text `cs` at `p`, at the place `q` of it. -/
def StandsAt (cs : List Char) (p : Position) (w : String) (q : Position) : Prop := ∃ ds, Remains cs p (w.toList ++ ds) q

theorem StandsAt.isPlace {w : String} {q : Position} (h : StandsAt cs p w q) : IsPlace cs p q := by
  obtain ⟨ds, h⟩ := h
  exact ⟨_, h⟩

theorem IsPlace.trans {ds : List Char} {q r : Position} (h : Remains cs p ds q) (h' : IsPlace ds q r) :
    IsPlace cs p r := by
  obtain ⟨es, h'⟩ := h'
  exact ⟨es, h.trans h'⟩

theorem StandsAt.trans {ds : List Char} {w : String} {q r : Position} (h : Remains cs p ds q) (h' : StandsAt ds q w r) :
    StandsAt cs p w r := by
  obtain ⟨es, h'⟩ := h'
  exact ⟨es, h.trans h'⟩

/-- A module path stands where it says. -/
theorem ModuleRef.StandsIn.standsAt {r : ModuleRef} {us : List Char} (h : r.StandsIn us p) (ds : List Char) :
    StandsAt (us ++ ds) p r.name r.position := by
  obtain ⟨-, before, behind, rfl, place⟩ := h
  exact ⟨':' :: ':' :: behind ++ ds, before, by simp, place⟩

theorem Cursor.Within.isPlace (h : c.Within cs p) : IsPlace cs p c.position := ⟨_, h.place⟩

/-- The place of the next token is behind the blanks and comments in front of it. -/
theorem Cursor.isPlace_next (h : c.Within cs p) : IsPlace cs p c.next.1.position := by
  have same : c.next.1.position = c.skipBlank.position := by
    unfold Cursor.next
    dsimp only
    split
    · rfl
    · split
      · rfl
      · split
        · rfl
        · split
          · rfl
          · split
            · rfl
            · split <;> rfl
  rw [same]
  unfold Cursor.skipBlank
  split
  · exact h.isPlace
  · next whole =>
    have whole : c.torn = false := Bool.eq_false_iff.mpr whole
    exact ((within_skip .blank c.rest c.position).1.trans (h.remains whole)).isPlace

/-- A step that stops leaves its cursor in the text and complains of a place of it. -/
structure Stops (cs : List Char) (p : Position) (e : Fault) (c : Cursor) : Prop where
  within : c.Within cs p
  place : IsPlace cs p e.position

theorem Stops.trans {ds : List Char} {q : Position} {e : Fault} (h : Remains cs p ds q) (h' : Stops ds q e c) :
    Stops cs p e c := ⟨h'.within.trans h, h'.place.trans h⟩

namespace Parse

/-- Whatever the step gives or stops at, the cursor stays in its text, and so do the places that are told of: those of
    what is given, as `Q` says, and that of the complaint. -/
def Keeps {α : Type} (cs : List Char) (p : Position) (Q : α → Prop) (x : Parse α) : Prop :=
  ∀ ⦃c : Cursor⦄, c.Within cs p → Ensures x c (fun a c' => c'.Within cs p ∧ Q a) (Stops cs p)

section Keeps

variable {α β : Type} {x y : Parse α} {f : α → Parse β} {cause : Cause} {P : α → Prop} {Q : β → Prop} {q : Position}

theorem keeps_pure {a : α} (h : P a) : Keeps cs p P (pure a) := fun _ within => ⟨within, h⟩

theorem keeps_failAt (h : IsPlace cs p q) : Keeps cs p P (failAt q cause) := fun _ within => ⟨within, h⟩

theorem keeps_bind (hx : Keeps cs p P x) (hf : ∀ a, P a → Keeps cs p Q (f a)) : Keeps cs p Q (x >>= f) := fun _ h =>
  Ensures.bind_iff.mpr ((hx h).imp fun a _ ha => hf a ha.2 ha.1)

theorem keeps_discard (hx : Keeps cs p P x) : Keeps cs p (fun _ => True) (discard x) := fun _ h =>
  Ensures.discard_iff.mpr ((hx h).imp fun _ _ ha => ⟨ha.1, trivial⟩)

theorem keeps_map {g : α → β} (hx : Keeps cs p P x) (hg : ∀ a, P a → Q (g a)) : Keeps cs p Q (g <$> x) := fun _ h =>
  Ensures.map_iff.mpr ((hx h).imp fun a _ ha => ⟨ha.1, hg a ha.2⟩)

theorem keeps_ite {q : Prop} [Decidable q] (hx : Keeps cs p P x) (hy : Keeps cs p P y) :
    Keeps cs p P (if q then x else y) := by
  split
  · exact hx
  · exact hy

theorem keeps_get : Keeps cs p (fun _ => True) (get : Parse Cursor) := fun _ h => ⟨h, trivial⟩

theorem keeps_peek : Keeps cs p (fun l => IsPlace cs p l.position) peek := fun _ h => ⟨h, Cursor.isPlace_next h⟩

/-- The next token is at a place of the text, and a word stands there. -/
theorem keeps_next : Keeps cs p
    (fun l => IsPlace cs p l.position ∧ ∀ w, l.token = .ident w → StandsAt cs p w l.position) next := fun _ h =>
  have ⟨passed, named⟩ := Cursor.passes_next h
  ⟨passed.within, Cursor.isPlace_next h, fun w hw => ⟨_, (named w hw).2⟩⟩

theorem keeps_accept {t : Token} : Keeps cs p (fun _ => True) (accept t) :=
  keeps_bind keeps_peek fun _ _ =>
    keeps_ite (keeps_bind (keeps_discard keeps_next) fun _ _ => keeps_pure trivial) (keeps_pure trivial)

theorem keeps_expect {t : Token} : Keeps cs p (fun l => IsPlace cs p l.position) (expect t) :=
  keeps_bind keeps_next fun _ there => keeps_ite (keeps_pure there.1) (keeps_failAt there.1)

theorem keeps_expectIdent {what : String} :
    Keeps cs p (fun named => StandsAt cs p named.1 named.2) (expectIdent what) := by
  refine keeps_bind keeps_next fun l there => ?_
  split
  · next name word => exact keeps_pure (there.2 name word)
  · exact keeps_failAt there.1

theorem keeps_expectKeyword {word : String} : Keeps cs p (StandsAt cs p word) (expectKeyword word) := by
  refine keeps_bind keeps_next fun l there => ?_
  split
  · next same => exact keeps_pure (there.2 word (eq_of_beq same))
  · exact keeps_failAt there.1

end Keeps

/-- What is told of a value without places. -/
abbrev Anything {α : Type} : α → Prop := fun _ => True

theorem keeps_entry {fuel : Nat} (keepsLiteral : Keeps cs p Anything (literal fuel))
    (keepsEntries : Keeps cs p Anything (entries fuel)) (key : String) : Keeps cs p Anything (do
      discard (expect .colon)
      let value ← literal fuel
      match (← peek).token with
      | .comma =>
        discard next
        return (key, value) :: (← entries fuel)
      | .rbrace => return (key, value) :: (← entries fuel)
      | _ =>
        let lexeme ← next
        failAt lexeme.position (.expected "`,` or `\x7d`" lexeme.token)) := by
  refine keeps_bind (keeps_discard keeps_expect) fun _ _ => keeps_bind keepsLiteral fun value _ => ?_
  refine keeps_bind keeps_peek fun l _ => ?_
  split
  · exact keeps_bind (keeps_discard keeps_next) fun _ _ => keeps_bind keepsEntries fun _ _ => keeps_pure trivial
  · exact keeps_bind keepsEntries fun _ _ => keeps_pure trivial
  · exact keeps_bind keeps_next fun _ there => keeps_failAt there.1

/-- Literals keep to their text. -/
theorem keeps_literals (fuel : Nat) : Keeps cs p Anything (literal fuel) ∧
    (∀ q, IsPlace cs p q → Keeps cs p Anything (components fuel q)) ∧
    Keeps cs p Anything (items fuel) ∧ Keeps cs p Anything (entries fuel) := by
  -- On the fuel, for the four functions at once: each runs the others with one step less.
  induction fuel with
  | zero =>
    refine ⟨?_, fun q _ => ?_, ?_, ?_⟩
    · exact keeps_bind keeps_peek fun _ place => keeps_failAt place
    · exact keeps_pure trivial
    · exact keeps_pure trivial
    · exact keeps_pure trivial
  | succ fuel ih =>
    obtain ⟨ihLiteral, ihComponents, ihItems, ihEntries⟩ := ih
    refine ⟨?_, fun q head => ?_, ?_, ?_⟩
    · refine keeps_bind keeps_next fun l ⟨place, _⟩ => ?_
      split
      · exact keeps_pure trivial
      · exact keeps_pure trivial
      · exact keeps_pure trivial
      · refine keeps_bind keeps_next fun operand there => ?_
        split
        · exact keeps_pure trivial
        · exact keeps_pure trivial
        · exact keeps_failAt there.1
      · exact keeps_pure trivial
      · exact keeps_pure trivial
      · split
        · refine keeps_bind (keeps_discard keeps_expect) fun _ _ => keeps_bind (ihComponents _ place) fun _ _ => ?_
          exact keeps_bind (keeps_discard keeps_expect) fun _ _ => keeps_ite (keeps_pure trivial) (keeps_failAt place)
        · exact keeps_failAt place
      · exact keeps_bind ihItems fun _ _ => keeps_pure trivial
      · exact keeps_bind (keeps_discard keeps_expect) fun _ _ => keeps_bind ihEntries fun _ _ => keeps_pure trivial
      · exact keeps_failAt place
    · refine keeps_bind ihLiteral fun value _ => ?_
      split
      · exact keeps_failAt head
      · exact keeps_bind keeps_accept fun _ _ =>
          keeps_ite (keeps_bind (ihComponents _ head) fun _ _ => keeps_pure trivial) (keeps_pure trivial)
    · refine keeps_bind keeps_accept fun _ _ => keeps_ite (keeps_pure trivial) ?_
      refine keeps_bind ihLiteral fun item _ => keeps_bind keeps_peek fun l _ => ?_
      split
      · exact keeps_bind (keeps_discard keeps_next) fun _ _ => keeps_bind ihItems fun _ _ => keeps_pure trivial
      · exact keeps_bind ihItems fun _ _ => keeps_pure trivial
      · exact keeps_bind keeps_next fun _ there => keeps_failAt there.1
    · have entry := keeps_entry ihLiteral ihEntries
      refine keeps_bind keeps_next fun l there => ?_
      split
      · exact keeps_pure trivial
      · exact entry _
      · exact entry _
      · exact keeps_failAt there.1

theorem keeps_use : Keeps cs p (fun decl => StandsAt cs p "use" decl.position) use :=
  keeps_bind keeps_expectKeyword fun _ place => keeps_bind keeps_expectIdent fun _ _ =>
    keeps_bind (keeps_discard keeps_expect) fun _ _ => keeps_pure place

theorem keeps_field : Keeps cs p (fun decl => StandsAt cs p decl.name decl.position) field := by
  refine keeps_bind keeps_expectIdent fun (_, _) _ => keeps_bind keeps_expectIdent fun (_, _) place => ?_
  refine keeps_bind (keeps_discard keeps_expect) fun _ _ => keeps_bind keeps_expectIdent fun (word, _) place' => ?_
  dsimp only
  cases Field.Kind.ofKeyword? word with
  | none => exact keeps_failAt place'.isPlace
  | some kind =>
    refine keeps_bind keeps_accept fun _ _ => keeps_ite ?_ ?_
    · refine keeps_bind keeps_get fun _ _ => keeps_bind (keeps_literals _).1 fun _ _ => ?_
      refine keeps_bind (P := Anything) (keeps_pure trivial) fun _ _ => ?_
      exact keeps_bind (keeps_discard keeps_expect) fun _ _ => keeps_pure place
    · refine keeps_bind (P := Anything) (keeps_pure trivial) fun _ _ => ?_
      exact keeps_bind (keeps_discard keeps_expect) fun _ _ => keeps_pure place

/-- A token that nothing starts with gives nothing. -/
theorem fails_unexpectedHere {α : Type} {what : String} {Q : α → Cursor → Prop} (h : c.Within cs p) :
    Ensures (unexpectedHere what) c Q (Stops cs p) :=
  Ensures.bind_iff.mpr ((keeps_next h).imp fun _ _ there => ⟨there.1, there.2.1⟩)

end Parse

/-! ## 3. Words and functions -/

open Parse (Keeps keeps_accept keeps_bind keeps_discard keeps_expect keeps_expectIdent keeps_expectKeyword
  keeps_ite keeps_map keeps_pure)

theorem ensures_next (h : c.Within cs p) :
    Ensures Parse.next c (fun l c' => Cursor.Passes cs p l.token c' ∧ IsPlace cs p l.position ∧
      ∀ w, l.token = .ident w → IsWord w ∧ Remains cs p (w.toList ++ c'.rest) l.position)
      fun _ _ => False :=
  have ⟨passed, named⟩ := Cursor.passes_next h
  ⟨passed, Cursor.isPlace_next h, named⟩

/-- Behind a token that is no complaint the cursor is whole. -/
theorem ensures_expect {t : Token} (valid : ∀ s, t ≠ .invalid s) (h : c.Within cs p) :
    Ensures (Parse.expect t) c (fun _ c' => c'.Within cs p ∧ c'.torn = false) (Stops cs p) := by
  refine Ensures.bind_iff.mpr ((ensures_next h).mono (fun l c' ⟨passed, place, _⟩ => ?_) nofun)
  split
  · next same =>
    refine ⟨passed.within, passed.whole fun s hs => ?_⟩
    exact valid s ((eq_of_beq same).symm.trans hs)
  · exact ⟨passed.within, place⟩

/-- The brace that opens a body stands right before it. -/
theorem ensures_expect_brace (whole : c.torn = false) :
    Ensures (Parse.expect .lbrace) c (fun _ c' => c'.torn = false ∧
      ∃ gap, c.rest = gap ++ '\x7b' :: c'.rest ∧ c'.position = c.position.after (gap ++ ['\x7b']))
      (Stops c.rest c.position) := by
  have taken : Ensures Parse.next c (fun l c' => c.next = (l, c')) fun _ _ => False := rfl
  refine Ensures.bind_iff.mpr (taken.mono (fun l c' next => ?_) nofun)
  split
  · next same =>
    have brace : l.token = .lbrace := eq_of_beq same
    have takes := (Cursor.takes_iff whole).mpr ⟨next, brace ▸ rfl⟩
    obtain ⟨gap, word, -, spelled, -, split, place, behind, whole'⟩ := takes
    obtain rfl := spelled.of_sign (x := '\x7b') (brace ▸ rfl)
    exact ⟨whole', gap, split, by rw [behind, place, Position.after_append]⟩
  · have passed := (Cursor.passes_next (Cursor.within_rest whole)).1.within
    have place := Cursor.isPlace_next (Cursor.within_rest whole)
    rw [next] at passed place
    exact ⟨passed, place⟩

/-- What is known behind a name: what is left stands behind it. -/
structure Named (cs : List Char) (p : Position) (w : String) (q : Position) (c : Cursor) : Prop where
  word : IsWord w
  place : Remains cs p (w.toList ++ c.rest) q
  within : c.Within cs p
  whole : c.torn = false

theorem ensures_expectIdent {what : String} (h : c.Within cs p) :
    Ensures (Parse.expectIdent what) c (fun (w, q) c' => Named cs p w q c') (Stops cs p) := by
  refine Ensures.bind_iff.mpr ((ensures_next h).mono (fun l c' ⟨passed, place, named⟩ => ?_) nofun)
  split
  · next name hl =>
    obtain ⟨word, place⟩ := named name hl
    exact ⟨word, place, passed.within, passed.whole fun s hs => nomatch hl.symm.trans hs⟩
  · exact ⟨passed.within, place⟩

theorem ensures_params (fuel : Nat) {seen : List String} (words : ∀ x ∈ seen, IsWord x)
    (h : c.Within cs p) :
    Ensures (Parse.params fuel seen) c (fun xs c' => c'.Within cs p ∧ ∀ x ∈ xs, IsWord x) (Stops cs p) := by
  -- On the fuel, for all the names seen so far: what is said of the names holds of those, and of each new one.
  induction fuel generalizing seen c with
  | zero => exact ⟨h, words⟩
  | succ fuel ih =>
    refine Ensures.bind_iff.mpr ((ensures_expectIdent h).imp fun (name, q) c named => ?_)
    have words : ∀ x ∈ seen ++ [name], IsWord x := by
      intro x hx
      rcases List.mem_append.mp hx with hx | hx
      · exact words x hx
      · exact List.mem_singleton.mp hx ▸ named.word
    dsimp only
    split
    · exact ⟨named.within, _, named.place⟩
    · refine Ensures.bind_iff.mpr ((keeps_accept named.within).imp fun more c ⟨within, _⟩ => ?_)
      split
      · exact ih words within
      · exact ⟨within, words⟩

theorem ensures_body (whole : c.torn = false) :
    Ensures Parse.body c (fun b c' => b.Captured c.rest c.position c') (Stops c.rest c.position) := by
  refine Ensures.bind_iff.mpr (Ensures.get_iff.mpr ?_)
  cases hc : c.capture? with
  | some captured => exact captured_of_capture? whole hc
  | none =>
    -- The complaint tells where the body begins, and all of it is passed.
    show Stops c.rest c.position ⟨.unclosedBody, c.position⟩ c.finish
    rw [Cursor.finish, Cursor.mend_of_whole whole]
    exact ⟨within_of_remains ⟨c.rest, (List.append_nil _).symm, rfl⟩, _, .refl _ _⟩

/-- What holds of every function that the text declares. -/
structure FnDecl.Declared (source : List Char) (f : FnDecl) : Prop where
  name : IsWord f.name
  params : ∀ x ∈ f.params, IsWord x
  named : ∃ ds, Remains source .start (f.name.toList ++ ds) f.position
  bodied : ∃ ds, Remains source .start (f.body.text.toList ++ '\x7d' :: ds) f.body.position
  scanned : Scans f.body.refs.reverse (.code false false) 0 [] (f.body.text.toList ++ ['\x7d'])
  refs : ∀ r ∈ f.body.refs, StandsAt source .start r.name r.position
  inOrder : f.position.line ≤ f.body.position.line
  /-- From the name on there is the rest of the header, up to the brace that opens the body. -/
  headed : ∃ head ds,
    Remains source .start (f.name.toList ++ (head ++ '\x7b' :: (f.body.text.toList ++ '\x7d' :: ds))) f.position ∧
      f.body.position = f.position.after (f.name.toList ++ (head ++ ['\x7b']))

theorem ensures_function (h : c.Within source .start) :
    Ensures Parse.function c (fun f c' => c'.Within source .start ∧ f.Declared source) (Stops source .start) := by
  refine Ensures.bind_iff.mpr ((keeps_discard keeps_expectKeyword h).imp fun _ c ⟨h, _⟩ => ?_)
  refine Ensures.bind_iff.mpr ((ensures_expectIdent h).imp fun (name, position) n named => ?_)
  have place := named.within.remains named.whole
  -- From here on all is told in the text behind the name.
  have back {e : Fault} {c : Cursor} (stops : Stops n.rest n.position e c) : Stops source .start e c :=
    stops.trans place
  have parenthesized {xs : List String} {c : Cursor} (words : ∀ x ∈ xs, IsWord x)
      (within : c.Within n.rest n.position) :
      Ensures (do
        discard (Parse.expect .rparen)
        discard (Parse.expect .lbrace)
        let body ← Parse.body
        return (⟨name, xs, body, position⟩ : FnDecl)) c
        (fun f c' => c'.Within source .start ∧ f.Declared source) (Stops source .start) := by
    refine Ensures.bind_iff.mpr (Ensures.discard_iff.mpr ?_)
    refine (ensures_expect (t := .rparen) nofun within).mono (fun _ b there => ?_) fun _ _ => back
    have inFront := there.1.remains there.2
    refine Ensures.bind_iff.mpr (Ensures.discard_iff.mpr ?_)
    refine (ensures_expect_brace there.2).mono (fun _ c opened => ?_) fun _ _ stops => back (stops.trans inFront)
    obtain ⟨whole, gap, split, opens⟩ := opened
    have inside : Remains n.rest n.position c.rest c.position :=
      inFront.trans ⟨gap ++ ['\x7b'], by rw [split, List.append_assoc]; rfl, opens⟩
    have behind := place.trans inside
    refine Ensures.bind_iff.mpr ?_
    refine (ensures_body whole).mono (fun body c' captured => ?_) fun _ _ stops => stops.trans behind
    have behindName := named.place.behind place
    have start : n.position.line ≤ c.position.line := by
      obtain ⟨taken, -, there⟩ := inside
      exact there ▸ Position.line_le_after _ _
    refine ⟨captured.within.trans behind, named.word, words, ⟨_, named.place⟩, ⟨c'.rest, ?_⟩, captured.scan, ?_, ?_, ?_⟩
    · exact captured.split ▸ captured.place ▸ behind
    · intro r hr
      have there := (captured.refs r hr).standsAt c'.rest
      rw [List.append_assoc, List.singleton_append, ← captured.split] at there
      exact there.trans behind
    · rw [captured.place]
      refine Nat.le_trans ?_ start
      exact behindName ▸ Position.line_le_after _ _
    · obtain ⟨passed, header, behind⟩ := inFront
      refine ⟨passed ++ gap, c'.rest, ?_, ?_⟩
      · have written : n.rest = passed ++ gap ++ '\x7b' :: (body.text.toList ++ '\x7d' :: c'.rest) := by
          rw [header, split, captured.split, List.append_assoc]
        exact written ▸ named.place
      · rw [captured.place, opens, behind, behindName]
        simp only [Position.after_append, List.append_assoc]
  refine Ensures.bind_iff.mpr ?_
  refine (keeps_discard keeps_expect (Cursor.within_rest named.whole)).mono ?_ fun _ _ => back
  refine fun _ c ⟨within, _⟩ => Ensures.bind_iff.mpr ?_
  show Ensures (if _ then _ else _) c _ _
  split
  · exact parenthesized nofun within
  · refine Ensures.bind_iff.mpr (Ensures.get_iff.mpr (Ensures.bind_iff.mpr ?_))
    refine (ensures_params _ (List.forall_mem_nil _) within).mono ?_ fun _ _ => back
    exact fun xs c ⟨within, words⟩ => parenthesized words within

/-! ## 4. Modules -/

/-- The places that a function tells, with the words that stand there. -/
def FnDecl.told (f : FnDecl) : List (String × Position) :=
  (f.name, f.position) :: (f.body.text, f.body.position) :: f.body.refs.map fun r => (r.name, r.position)

theorem FnDecl.Declared.standsAt {f : FnDecl} (h : f.Declared source) :
    ∀ w ∈ f.told, StandsAt source .start w.1 w.2 := by
  obtain ⟨_, bodied⟩ := h.bodied
  refine List.forall_mem_cons.mpr ⟨h.named, List.forall_mem_cons.mpr ⟨⟨_, bodied⟩, ?_⟩⟩
  exact List.forall_mem_map.mpr h.refs

/-- What holds of a member. -/
def Member.Declared (source : List Char) : Member → Prop
  | .field decl => StandsAt source .start decl.name decl.position
  | .method decl => decl.Declared source

theorem ensures_member (t : Token) (h : c.Within source .start) :
    Ensures (member t) c (fun m c' => c'.Within source .start ∧ m.Declared source) (Stops source .start) := by
  unfold member
  split
  · exact Ensures.bind_iff.mpr (ensures_function h)
  · split
    · exact Ensures.bind_iff.mpr (Parse.keeps_field h)
    · exact Parse.fails_unexpectedHere h

theorem within_recoverMember (fuel depth : Nat) (h : c.Within cs p) :
    (recoverMember fuel depth c).Within cs p := by
  induction fuel generalizing depth c with
  | zero => exact h
  | succ fuel ih =>
    have passed := (Cursor.passes_next h).1.within
    unfold recoverMember
    dsimp only
    split
    · exact h
    · exact passed
    · exact h
    · split
      · exact h
      · exact ih 0 passed
    · exact ih _ passed
    · exact ih _ passed
    · exact ih _ passed

theorem within_recoverItem (fuel depth : Nat) (h : c.Within cs p) :
    (recoverItem fuel depth c).Within cs p := by
  induction fuel generalizing depth c with
  | zero => exact h
  | succ fuel ih =>
    have passed := (Cursor.passes_next h).1.within
    unfold recoverItem
    dsimp only
    split
    · exact h
    · split
      · exact h
      · exact ih 0 passed
    · exact ih _ passed
    · exact ih _ passed
    · exact ih _ passed

/-- Members that are read, and the cursor behind them. -/
structure Members.Declared (source : List Char) (ms : Members) : Prop where
  within : ms.cursor.Within source .start
  found : ∀ m ∈ ms.found, m.Declared source
  faults : ∀ e ∈ ms.faults, IsPlace source .start e.position

theorem declared_of_members (fuel : Nat) (h : c.Within source .start) : (members fuel c).Declared source := by
  induction fuel generalizing c with
  | zero => exact ⟨h, nofun, nofun⟩
  | succ fuel ih =>
    unfold members
    dsimp only
    split
    · exact ⟨(Cursor.passes_next h).1.within, nofun, nofun⟩
    · exact ⟨h, nofun, nofun⟩
    · have step := ensures_member c.next.1.token h
      unfold Ensures at step
      split
      · next m c' run =>
        rw [run] at step
        obtain ⟨within, declared, faults⟩ := ih step.1
        exact ⟨within, List.forall_mem_cons.mpr ⟨step.2, declared⟩, faults⟩
      · next run =>
        rw [run] at step
        obtain ⟨within, declared, faults⟩ := ih (within_recoverMember _ _ step.within)
        exact ⟨within, declared, List.forall_mem_cons.mpr ⟨step.place, faults⟩⟩

/-- What holds of a type: its name stands where it says, and so do that of its base and its members. -/
structure TypeDecl.Declared (source : List Char) (t : TypeDecl) : Prop where
  named : StandsAt source .start t.name t.position
  base : ∀ b ∈ t.base, StandsAt source .start b.1 b.2
  fields : ∀ f ∈ t.fields, StandsAt source .start f.name f.position
  methods : ∀ f ∈ t.methods, f.Declared source

theorem keeps_typeHead : Keeps source .start (TypeDecl.Declared source) typeHead := by
  refine keeps_bind keeps_accept fun _ _ => keeps_bind (keeps_discard keeps_expectKeyword) fun _ _ => ?_
  refine keeps_bind keeps_expectIdent fun (_, _) named => keeps_bind keeps_accept fun _ _ => keeps_ite ?_ ?_
  · refine keeps_bind (keeps_map (Q := fun base => ∀ b ∈ base, StandsAt source .start b.1 b.2) keeps_expectIdent ?_) ?_
    · exact fun _ based _ hb => Option.some.inj hb ▸ based
    · exact fun _ based => keeps_bind (keeps_discard keeps_expect) fun _ _ => keeps_pure ⟨named, based, nofun, nofun⟩
  · refine keeps_bind (P := fun base => base = none) (keeps_pure rfl) fun _ none => ?_
    refine keeps_bind (keeps_discard keeps_expect) fun _ _ => keeps_pure ⟨named, ?_, nofun, nofun⟩
    exact none ▸ nofun

/-- What holds of an item. -/
def Item.Declared (source : List Char) : Item → Prop
  | .use decl => StandsAt source .start "use" decl.position
  | .function decl => decl.Declared source
  | .type decl => decl.Declared source

/-- An item that is read, and the cursor behind it. -/
structure ItemResult.Declared (source : List Char) (r : ItemResult) : Prop where
  within : r.cursor.Within source .start
  item : ∀ i ∈ r.item, i.Declared source
  faults : ∀ e ∈ r.faults, IsPlace source .start e.position

theorem declared_ofParse {α : Type} {make : α → Item} {x : Parse α}
    (h : Ensures x c (fun a c' => c'.Within source .start ∧ (make a).Declared source) (Stops source .start)) :
    (ItemResult.ofParse make x c).Declared source := by
  unfold ItemResult.ofParse
  unfold Ensures at h
  split <;> rename_i run <;> rw [run] at h
  · exact ⟨h.1, fun i hi => Option.some.inj hi ▸ h.2, nofun⟩
  · exact ⟨h.within, nofun, List.forall_mem_singleton.mpr h.place⟩

theorem declared_typeItem (h : c.Within source .start) : (typeItem c).Declared source := by
  have step := keeps_typeHead h
  unfold Ensures at step
  unfold typeItem
  split <;> rename_i run <;> rw [run] at step
  · exact ⟨step.within, nofun, List.forall_mem_singleton.mpr step.place⟩
  · next head c' =>
    obtain ⟨within, declared, faults⟩ := declared_of_members (Parse.fuelOf c') step.1
    dsimp only
    split
    · refine ⟨within, fun i hi => Option.some.inj hi ▸ ⟨step.2.named, step.2.base, ?_, ?_⟩, faults⟩ <;> intro f hf
      · obtain ⟨m, hm, hf⟩ := List.mem_filterMap.mp hf
        cases m with
        | method => exact nomatch hf
        | field decl => exact Option.some.inj hf ▸ declared _ hm
      · obtain ⟨m, hm, hf⟩ := List.mem_filterMap.mp hf
        cases m with
        | field => exact nomatch hf
        | method decl => exact Option.some.inj hf ▸ declared _ hm
    · refine ⟨within, nofun, List.forall_mem_append.mpr ⟨faults, List.forall_mem_singleton.mpr ?_⟩⟩
      exact Cursor.isPlace_next within

theorem declared_item (t : Token) (h : c.Within source .start) : (item t c).Declared source := by
  unfold item
  split
  · exact declared_ofParse (Parse.keeps_use h)
  · split
    · exact declared_ofParse (ensures_function h)
    · split
      · exact declared_typeItem h
      · exact declared_ofParse (Parse.fails_unexpectedHere h)

theorem declared_itemsFrom (fuel : Nat) (h : c.Within source .start) :
    (∀ i ∈ (itemsFrom fuel c).1, i.Declared source) ∧ ∀ e ∈ (itemsFrom fuel c).2, IsPlace source .start e.position := by
  induction fuel generalizing c with
  | zero => exact ⟨nofun, nofun⟩
  | succ fuel ih =>
    obtain ⟨within, declared, faults⟩ := declared_item c.peek.token h
    unfold itemsFrom
    dsimp only
    split
    · exact ⟨nofun, nofun⟩
    · split
      · next i hi =>
        obtain ⟨later, laterFaults⟩ := ih within
        exact ⟨List.forall_mem_cons.mpr ⟨declared i hi, later⟩, List.forall_mem_append.mpr ⟨faults, laterFaults⟩⟩
      · obtain ⟨later, laterFaults⟩ := ih (within_recoverItem _ _ within)
        exact ⟨later, List.forall_mem_append.mpr ⟨faults, laterFaults⟩⟩

/-- The functions and methods that a module declares. -/
def Tree.declarations (t : Tree) : List FnDecl := t.functions ++ t.types.flatMap (·.methods)

/-- The places that a module tells, with the words that stand there. -/
def Tree.told (t : Tree) : List (String × Position) :=
  t.uses.map (fun use => ("use", use.position)) ++ t.types.map (fun type => (type.name, type.position)) ++
    t.types.flatMap (fun type => type.base.toList ++ type.fields.map fun field => (field.name, field.position)) ++
    t.declarations.flatMap FnDecl.told

/-- What holds of a module. -/
structure Tree.Declared (source : List Char) (t : Tree) : Prop where
  uses : ∀ u ∈ t.uses, StandsAt source .start "use" u.position
  types : ∀ type ∈ t.types, type.Declared source
  functions : ∀ f ∈ t.functions, f.Declared source

theorem Tree.Declared.declarations {t : Tree} (h : t.Declared source) : ∀ f ∈ t.declarations, f.Declared source := by
  refine List.forall_mem_append.mpr ⟨h.functions, fun f hf => ?_⟩
  obtain ⟨type, htype, hf⟩ := List.mem_flatMap.mp hf
  exact (h.types type htype).methods f hf

/-- What a module tells stands where it says. -/
theorem Tree.Declared.standsAt {t : Tree} (h : t.Declared source) : ∀ w ∈ t.told, StandsAt source .start w.1 w.2 := by
  refine List.forall_mem_append.mpr ⟨List.forall_mem_append.mpr ⟨List.forall_mem_append.mpr ⟨?_, ?_⟩, ?_⟩, ?_⟩
  · exact List.forall_mem_map.mpr h.uses
  · exact List.forall_mem_map.mpr fun type htype => (h.types type htype).named
  · intro w hw
    obtain ⟨type, htype, hw⟩ := List.mem_flatMap.mp hw
    rcases List.mem_append.mp hw with base | field
    · exact (h.types type htype).base w (Option.mem_toList.mp base)
    · obtain ⟨decl, hdecl, rfl⟩ := List.mem_map.mp field
      exact (h.types type htype).fields decl hdecl
  · intro w hw
    obtain ⟨f, hf, hw⟩ := List.mem_flatMap.mp hw
    exact (h.declarations f hf).standsAt w hw

theorem declared_ofItems {items : List Item} (h : ∀ i ∈ items, i.Declared source) :
    (Tree.ofItems items).Declared source := by
  refine ⟨fun u hu => ?_, fun type htype => ?_, fun f hf => ?_⟩
  · obtain ⟨i, hi, hu⟩ := List.mem_filterMap.mp hu
    cases i with
    | function | type => exact nomatch hu
    | use decl => exact Option.some.inj hu ▸ h _ hi
  · obtain ⟨i, hi, htype⟩ := List.mem_filterMap.mp htype
    cases i with
    | use | function => exact nomatch htype
    | type decl => exact Option.some.inj htype ▸ h _ hi
  · obtain ⟨i, hi, hf⟩ := List.mem_filterMap.mp hf
    cases i with
    | use | type => exact nomatch hf
    | function decl => exact Option.some.inj hf ▸ h _ hi

/-- A module declares what stands where it says, and complains of places of its text. -/
theorem tree_of_parse (text : String) :
    (parse text).1.Declared text.toList ∧ ∀ e ∈ (parse text).2, IsPlace text.toList .start e.position := by
  obtain ⟨items, faults⟩ := declared_itemsFrom (text.length + 1) (within_of_remains (.refl text.toList .start))
  exact ⟨declared_ofItems items, faults⟩

/-- Every function of a module is declared where and as it says. -/
theorem declared_of_parse {text : String} {f : FnDecl} (hf : f ∈ (parse text).1.declarations) :
    f.Declared text.toList :=
  (tree_of_parse text).1.declarations f hf

end ScriptHost.Declaration
