import ScriptHost.Proofs.Declaration.Recovery

/-!
# Rounds — the loops of the parser

The parser goes by loops, over parameters, over what a literal holds, over members and items, and over what it leaves
out behind a broken one.  A round of a loop is a step that tells whether there is another.  With fuel each function goes
one round and then on with less; without it a loop comes to a result only where there is a last round.
-/

namespace ScriptHost.Declaration

open Text (Position)

/-! ## 1. Loops -/

/-- How a round of a loop ends: the next one begins, or the loop is left. -/
inductive Round (σ α : Type) where
  | again (s : σ)
  | leave (a : α)

section Loops

variable {σ α : Type}

/-- What is done behind a round. -/
def Round.andThen (more : σ → Parse α) : Round σ α → Parse α
  | again s => more s
  | leave a => pure a

/-- The loop with these rounds comes to the result, after finitely many of them.  A round that fails is the last. -/
inductive Loops (round : σ → Parse (Round σ α)) : σ → Cursor → Except Fault α × Cursor → Prop
  | fails {s c fault d} : (round s).run.run c = (.error fault, d) → Loops round s c (.error fault, d)
  | leaves {s c a d} : (round s).run.run c = (.ok (.leave a), d) → Loops round s c (.ok a, d)
  | goesOn {s t c d result} : (round s).run.run c = (.ok (.again t), d) → Loops round t d result →
      Loops round s c result

end Loops

namespace Parse

variable {α β : Type} {fuel : Nat}

theorem run_bind (x : Parse α) (f : α → Parse β) (c : Cursor) : (x >>= f).run.run c = match x.run.run c with
    | (.ok a, d) => (f a).run.run d
    | (.error fault, d) => (.error fault, d) := by
  rw [ExceptT.run_bind, StateT.run_bind]
  rcases x.run.run c with ⟨_ | _, d⟩ <;> rfl

/-- A function with fuel, with enough of it for what is left. -/
def fueled (f : Nat → Parse α) : Parse α := do f (fuelOf (← get))

/-! ## 2. Parameters and literals -/

/-- A parameter's name and the comma behind it. -/
def paramRound (seen : List String) : Parse (Round (List String) (List String)) := do
  let (name, position) ← expectIdent "parameter name"
  if seen.contains name then failAt position (.duplicateParameter name)
  else if ← accept .comma then return .again (seen ++ [name])
  else return .leave (seen ++ [name])

/-- A component and the comma behind it. -/
def vectorRound (literal : Parse Literal) (head : Position) (sofar : List Float) :
    Parse (Round (List Float) (List Float)) := do
  let value ← literal
  match component? value with
  | none => failAt head (.componentKind value.describe)
  | some x => if ← accept .comma then return .again (sofar ++ [x]) else return .leave (sofar ++ [x])

/-- The closing bracket, or an item and the comma behind it. -/
def arrayRound (literal : Parse Literal) (sofar : List Literal) : Parse (Round (List Literal) (List Literal)) := do
  if ← accept .rbracket then return .leave sofar
  let item ← literal
  match (← peek).token with
  | .comma =>
    discard next
    return .again (sofar ++ [item])
  | .rbracket => return .again (sofar ++ [item])
  | _ =>
    let lexeme ← next
    failAt lexeme.position (.expected "`,` or `]`" lexeme.token)

/-- What stands behind a key, and the comma behind it. -/
def entryRound (literal : Parse Literal) (sofar : List (String × Literal)) (key : String) :
    Parse (Round (List (String × Literal)) (List (String × Literal))) := do
  discard (expect .colon)
  let value ← literal
  match (← peek).token with
  | .comma =>
    discard next
    return .again (sofar ++ [(key, value)])
  | .rbrace => return .again (sofar ++ [(key, value)])
  | _ =>
    let lexeme ← next
    failAt lexeme.position (.expected "`,` or `\x7d`" lexeme.token)

/-- The closing brace, or an entry. -/
def mapRound (literal : Parse Literal) (sofar : List (String × Literal)) :
    Parse (Round (List (String × Literal)) (List (String × Literal))) := do
  let lexeme ← next
  match lexeme.token with
  | .rbrace => return .leave sofar
  | .ident key => entryRound literal sofar key
  | .str key => entryRound literal sofar key
  | found => failAt lexeme.position (.expected "a map key" found)

/-- Behind nothing a list is read by itself. -/
theorem map_nil_append (x : Parse (List α)) : (([] : List α) ++ ·) <$> x = x := id_map x

theorem params_succ (seen : List String) :
    params (fuel + 1) seen = paramRound seen >>= Round.andThen (params fuel) := by
  rw [params, paramRound, bind_assoc]
  refine congrArg _ (funext fun named => ?_)
  obtain ⟨name, position⟩ := named
  dsimp only
  split
  · rfl
  · rw [bind_assoc]
    refine congrArg _ (funext fun there => ?_)
    cases there <;> simp [Round.andThen]

theorem components_succ (head : Position) (sofar : List Float) :
    (sofar ++ ·) <$> components (fuel + 1) head =
      vectorRound (literal fuel) head sofar >>= Round.andThen fun s => (s ++ ·) <$> components fuel head := by
  rw [components, vectorRound, bind_assoc, map_bind]
  refine congrArg _ (funext fun value => ?_)
  cases component? value with
  | none => rfl
  | some x =>
    dsimp only
    rw [bind_assoc, map_bind]
    refine congrArg _ (funext fun there => ?_)
    cases there <;> simp [Round.andThen]

theorem items_succ (sofar : List Literal) :
    (sofar ++ ·) <$> items (fuel + 1) =
      arrayRound (literal fuel) sofar >>= Round.andThen fun s => (s ++ ·) <$> items fuel := by
  rw [items, arrayRound, bind_assoc, map_bind]
  refine congrArg _ (funext fun there => ?_)
  cases there with
  | true => simp [Round.andThen]
  | false =>
    simp only [Bool.false_eq_true, if_false, bind_assoc, map_bind]
    refine congrArg _ (funext fun item => congrArg _ (funext fun l => ?_))
    cases l.token with
    | comma => simp [Round.andThen]
    | rbracket => simp [Round.andThen]
    | _ =>
      simp only [bind_assoc, map_bind]
      rfl

theorem entryRound_eq (sofar : List (String × Literal)) (key : String) : (sofar ++ ·) <$> (do
    discard (expect .colon)
    let value ← literal fuel
    match (← peek).token with
    | .comma =>
      discard next
      return (key, value) :: (← entries fuel)
    | .rbrace => return (key, value) :: (← entries fuel)
    | _ =>
      let lexeme ← next
      failAt lexeme.position (.expected "`,` or `\x7d`" lexeme.token)) =
    entryRound (literal fuel) sofar key >>= Round.andThen fun s => (s ++ ·) <$> entries fuel := by
  simp only [entryRound, bind_assoc, map_bind]
  refine congrArg _ (funext fun _ => congrArg _ (funext fun value => congrArg _ (funext fun l => ?_)))
  cases l.token with
  | comma => simp [Round.andThen]
  | rbrace => simp [Round.andThen]
  | _ =>
    simp only [bind_assoc, map_bind]
    rfl

theorem entries_succ (sofar : List (String × Literal)) :
    (sofar ++ ·) <$> entries (fuel + 1) =
      mapRound (literal fuel) sofar >>= Round.andThen fun s => (s ++ ·) <$> entries fuel := by
  rw [entries, mapRound, bind_assoc, map_bind]
  refine congrArg _ (funext fun l => ?_)
  cases l.token with
  | rbrace => simp [Round.andThen]
  | ident key => exact entryRound_eq sofar key
  | str key => exact entryRound_eq sofar key
  | _ => rfl

end Parse

/-! ## 3. Recovery -/

/-- What the recovery does at a token: it ends in front of it or behind it, or passes it and counts on. -/
inductive Move where
  | before
  | behind
  | pass (depth : Nat)

/-- Behind a broken member. -/
def memberMove (depth : Nat) : Token → Move
  | .eof => .before
  | .semi => if depth == 0 then .behind else .pass depth
  | .rbrace => if depth == 0 then .before else .pass (depth - 1)
  | .ident word => if depth == 0 && ["pub", "let", "fn"].contains word then .before else .pass depth
  | .lbrace => .pass (depth + 1)
  | _ => .pass depth

/-- Behind a broken item.  A closing brace that nothing opened is not counted. -/
def itemMove (depth : Nat) : Token → Move
  | .eof => .before
  | .ident word => if depth == 0 && ["use", "fn", "type", "abstract"].contains word then .before else .pass depth
  | .lbrace => .pass (depth + 1)
  | .rbrace => .pass (depth - 1)
  | _ => .pass depth

namespace Parse

variable {fuel : Nat}

/-- One token of what is left out. -/
def recoveryRound (move : Nat → Token → Move) (depth : Nat) : Parse (Round Nat Unit) := do
  match move depth (← peek).token with
  | .before => return .leave ()
  | .behind =>
    discard next
    return .leave ()
  | .pass depth =>
    discard next
    return .again depth

/-- Goes on where the recovery ends. -/
def resume (recover : Cursor → Cursor) : Parse Unit := modify recover

theorem run_recoveryRound (move : Nat → Token → Move) (depth : Nat) (c : Cursor) :
    (recoveryRound move depth).run.run c = match move depth c.next.1.token with
      | .before => (.ok (.leave ()), c)
      | .behind => (.ok (.leave ()), c.next.2)
      | .pass depth => (.ok (.again depth), c.next.2) := by
  rw [recoveryRound, run_bind]
  show (match move depth c.next.1.token with
    | .before => return .leave ()
    | .behind => discard next >>= fun _ => return .leave ()
    | .pass depth => discard next >>= fun _ => return .again depth : Parse (Round Nat Unit)).run.run c = _
  cases move depth c.next.1.token <;> rfl

/-- A recovery that goes on as it moves at the next token is one round and what is behind it. -/
theorem resume_eq {recover : Cursor → Cursor} {more : Nat → Cursor → Cursor} {move : Nat → Token → Move} {depth : Nat}
    (h : ∀ c, recover c = match move depth c.next.1.token with
      | .before => c
      | .behind => c.next.2
      | .pass d => more d c.next.2) :
    resume recover = recoveryRound move depth >>= Round.andThen fun d => resume (more d) := by
  refine funext fun c => ?_
  show (Except.ok (), recover c) = (recoveryRound move depth >>= _).run.run c
  rw [run_bind, run_recoveryRound, h]
  cases move depth c.next.1.token <;> rfl

theorem recoverMember_succ (depth : Nat) : resume (recoverMember (fuel + 1) depth) =
    recoveryRound memberMove depth >>= Round.andThen fun d => resume (recoverMember fuel d) := by
  refine resume_eq fun c => ?_
  rw [recoverMember]
  dsimp only
  cases c.next.1.token <;> cases depth <;> grind [memberMove]

theorem recoverItem_succ (depth : Nat) : resume (recoverItem (fuel + 1) depth) =
    recoveryRound itemMove depth >>= Round.andThen fun d => resume (recoverItem fuel d) := by
  refine resume_eq fun c => ?_
  rw [recoverItem]
  dsimp only
  cases c.next.1.token <;> cases depth <;> grind [itemMove]

/-! ## 4. Members -/

/-- What a step gives or fails with, where what stands behind goes on with either. -/
def attempt {α : Type} (x : Parse α) : Parse (Except Fault α) := ExceptT.lift x.run

/-- A member that starts with the token; a broken one costs a fault. -/
def oneMember (t : Token) (sofar : List Member × List Fault) :
    Parse (Round (List Member × List Fault) (List Member × List Fault × Bool)) := do
  match ← attempt (member t) with
  | .ok m => return .again (sofar.1 ++ [m], sofar.2)
  | .error fault =>
    resume fun c => recoverMember (fuelOf c) 0 c
    return .again (sofar.1, sofar.2 ++ [fault])

/-- The closing brace or the end, or a member. -/
def memberRound (sofar : List Member × List Fault) :
    Parse (Round (List Member × List Fault) (List Member × List Fault × Bool)) := do
  match (← peek).token with
  | .rbrace =>
    discard next
    return .leave (sofar.1, sofar.2, true)
  | .eof => return .leave (sofar.1, sofar.2, false)
  | t => oneMember t sofar

/-- The members that are left, behind those so far, and whether a brace closes them. -/
def membersBehind (fuel : Nat) (sofar : List Member × List Fault) : Parse (List Member × List Fault × Bool) :=
  modifyGet fun c =>
    ((sofar.1 ++ (members fuel c).found, sofar.2 ++ (members fuel c).faults, (members fuel c).closed),
      (members fuel c).cursor)

section Members

variable {c : Cursor}

/-! A list of members and a round of it, by the token where they stand. -/

theorem members_of_rbrace (closes : c.next.1.token = .rbrace) : members (fuel + 1) c = ⟨[], [], true, c.next.2⟩ := by
  rw [members]
  dsimp only
  rw [closes]

theorem members_of_eof (ends : c.next.1.token = .eof) : members (fuel + 1) c = ⟨[], [], false, c⟩ := by
  rw [members]
  dsimp only
  rw [ends]

theorem members_of_other (open' : c.next.1.token ≠ .rbrace) (more : c.next.1.token ≠ .eof) :
    members (fuel + 1) c = match (member c.next.1.token).run.run c with
      | (.ok m, d) => { members fuel d with found := m :: (members fuel d).found }
      | (.error fault, d) => (members fuel (recoverMember (fuelOf d) 0 d)).behind [fault] := by
  rw [members]
  dsimp only
  split
  · next closes => exact absurd closes open'
  · next ends => exact absurd ends more
  · rcases (member c.next.1.token).run.run c with ⟨_ | _, d⟩ <;> rfl

theorem run_memberRound_of_rbrace (closes : c.next.1.token = .rbrace) (sofar : List Member × List Fault) :
    (memberRound sofar).run.run c = (.ok (.leave (sofar.1, sofar.2, true)), c.next.2) := by
  rw [memberRound, run_bind]
  show (match c.next.1.token with | .rbrace => _ | .eof => _ | _ => _ : Parse _).run.run c = _
  rw [closes]
  rfl

theorem run_memberRound_of_eof (ends : c.next.1.token = .eof) (sofar : List Member × List Fault) :
    (memberRound sofar).run.run c = (.ok (.leave (sofar.1, sofar.2, false)), c) := by
  rw [memberRound, run_bind]
  show (match c.next.1.token with | .rbrace => _ | .eof => _ | _ => _ : Parse _).run.run c = _
  rw [ends]
  rfl

theorem run_memberRound_of_other (open' : c.next.1.token ≠ .rbrace) (more : c.next.1.token ≠ .eof)
    (sofar : List Member × List Fault) :
    (memberRound sofar).run.run c = match (member c.next.1.token).run.run c with
      | (.ok m, d) => (.ok (.again (sofar.1 ++ [m], sofar.2)), d)
      | (.error fault, d) => (.ok (.again (sofar.1, sofar.2 ++ [fault])), recoverMember (fuelOf d) 0 d) := by
  have one : (memberRound sofar).run.run c = (oneMember c.next.1.token sofar).run.run c := by
    rw [memberRound, run_bind]
    show (match c.next.1.token with | .rbrace => _ | .eof => _ | t => oneMember t sofar : Parse _).run.run c = _
    split
    · next closes => exact absurd closes open'
    · next ends => exact absurd ends more
    · rfl
  have tried : (attempt (member c.next.1.token)).run.run c =
      (.ok ((member c.next.1.token).run.run c).1, ((member c.next.1.token).run.run c).2) := rfl
  rw [one, oneMember, run_bind, tried]
  rcases (member c.next.1.token).run.run c with ⟨_ | _, d⟩ <;> rfl

end Members

/-- The members that are left are one round and what is behind it. -/
theorem membersBehind_succ (sofar : List Member × List Fault) :
    membersBehind (fuel + 1) sofar = memberRound sofar >>= Round.andThen (membersBehind fuel) := by
  refine funext fun c => ?_
  show (Except.ok (sofar.1 ++ (members (fuel + 1) c).found, sofar.2 ++ (members (fuel + 1) c).faults,
    (members (fuel + 1) c).closed), (members (fuel + 1) c).cursor) =
      (memberRound sofar >>= Round.andThen (membersBehind fuel)).run.run c
  rw [run_bind]
  by_cases closes : c.next.1.token = .rbrace
  · rw [members_of_rbrace closes, run_memberRound_of_rbrace closes, List.append_nil, List.append_nil]
    rfl
  by_cases ends : c.next.1.token = .eof
  · rw [members_of_eof ends, run_memberRound_of_eof ends, List.append_nil, List.append_nil]
    rfl
  rw [members_of_other closes ends, run_memberRound_of_other closes ends]
  rcases (member c.next.1.token).run.run c with ⟨fault | m, d⟩
  · show (Except.ok (_, sofar.2 ++ ([fault] ++ _), _), _) = _
    rw [← List.append_assoc]
    rfl
  · show (Except.ok (sofar.1 ++ m :: (members fuel d).found, _), _) = _
    rw [List.append_cons]
    rfl

end Parse

/-! ## 5. Modules -/

/-- Where reading goes on behind an item. -/
def ItemResult.resumed (r : ItemResult) : Cursor :=
  match r.item with
  | some _ => r.cursor
  | none => recoverItem (Parse.fuelOf r.cursor) 0 r.cursor

namespace Parse

variable {fuel : Nat} {c : Cursor}

/-- The end, or an item; behind one that is not whole the next start of an item is looked for. -/
def moduleRound (sofar : List Item × List Fault) :
    Parse (Round (List Item × List Fault) (List Item × List Fault)) := do
  let t := (← peek).token
  if t == .eof then return .leave sofar
  let result ← modifyGet fun c => (item t c, (item t c).cursor)
  match result.item with
  | some i => return .again (sofar.1 ++ [i], sofar.2 ++ result.faults)
  | none =>
    resume fun c => recoverItem (fuelOf c) 0 c
    return .again (sofar.1, sofar.2 ++ result.faults)

theorem itemsFrom_of_eof (ends : c.next.1.token = .eof) : itemsFrom (fuel + 1) c = ([], []) := by
  rw [itemsFrom, Cursor.peek, ends]
  rfl

theorem itemsFrom_of_other (more : c.next.1.token ≠ .eof) {r : ItemResult} (same : item c.next.1.token c = r) :
    itemsFrom (fuel + 1) c =
      (r.item.toList ++ (itemsFrom fuel r.resumed).1, r.faults ++ (itemsFrom fuel r.resumed).2) := by
  rw [itemsFrom, Cursor.peek]
  dsimp only
  rw [if_neg (by simpa using more), same]
  obtain ⟨_ | i, faults, d⟩ := r <;> rfl

theorem run_moduleRound_of_eof (ends : c.next.1.token = .eof) (sofar : List Item × List Fault) :
    (moduleRound sofar).run.run c = (.ok (.leave sofar), c) := by
  rw [moduleRound, run_bind]
  show (if c.next.1.token == .eof then _ else _ : Parse _).run.run c = _
  rw [ends]
  rfl

theorem run_moduleRound_of_other (more : c.next.1.token ≠ .eof) {r : ItemResult} (same : item c.next.1.token c = r)
    (sofar : List Item × List Fault) :
    (moduleRound sofar).run.run c =
      (.ok (.again (sofar.1 ++ r.item.toList, sofar.2 ++ r.faults)), r.resumed) := by
  rw [moduleRound, run_bind]
  show (if c.next.1.token == .eof then _ else _ : Parse _).run.run c = _
  have read : (modifyGet fun c' => (item c.peek.token c', (item c.peek.token c').cursor) : Parse ItemResult).run.run c =
      (.ok r, r.cursor) := same ▸ rfl
  rw [if_neg (by simpa using more), run_bind, read]
  obtain ⟨_ | i, faults, d⟩ := r
  · rw [Option.toList_none, List.append_nil]
    rfl
  · rfl

end Parse

end ScriptHost.Declaration
