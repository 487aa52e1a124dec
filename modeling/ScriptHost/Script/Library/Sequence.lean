import ScriptHost.Script.Arithmetic
import ScriptHost.Script.Library.Basic

/-!
# Sequence — library functions on arrays and maps

An index may count from the end.  Functions that remove items give what they have removed.
-/

namespace ScriptHost.Script

/-! ## 1. Order and equality of items -/

/-- The place of the first item equal to a value. -/
def findFrom (v : Value) (i : Nat) : List Value → Except Trouble (Option Nat)
  | [] => .ok none
  | a :: as => do if ← equals a v then .ok (some i) else findFrom v (i + 1) as

/-- The items without those that equal the one in front of them. -/
def withoutRepeats (last : Value) : List Value → Except Trouble (List Value)
  | [] => .ok []
  | a :: as => do
    if ← equals a last then withoutRepeats last as else return a :: (← withoutRepeats a as)

/-- Whether a value may stand in front of another in ascending order, if the two are of one ordered type. -/
def inOrder? : Value → Value → Option Bool
  | .int a, .int b => some (a ≤ b)
  | .float a, .float b => some (!(b < a))
  | .char a, .char b => some (a ≤ b)
  | .text a, .text b => some (a ≤ b)
  | .bool a, .bool b => some (!a || b)
  | _, _ => none

/-- The items in ascending order; all must be of one ordered type. -/
def sorted (items : List Value) : Except Trouble (List Value) :=
  match items with
  | a :: _ :: _ =>
    if items.all fun b => (inOrder? a b).isSome then
      .ok (items.mergeSort fun x y => (inOrder? x y).getD true)
    else .error (.functionNotFound "sort() cannot be called with elements of different types")
  | items => .ok items

/-! ## 2. Arrays -/

/-- Functions that leave an array as it is. -/
def arrayQuery (name : String) (items : List Value) (args : List Value) :
    Option (Except Trouble Value) :=
  match name, args with
  | "get", [.int i] => some (.ok (((indexFrom? items.length i).bind (items[·]?)).getD .unit))
  | "contains", [v] => some (do return .bool (← findFrom v 0 items).isSome)
  | "index_of", [v] => some (do return .int (((← findFrom v 0 items).map Int.ofNat).getD (-1)))
  | "index_of", [v, .int start] =>
    let first := (spanFrom items.length start 0).1
    some (do return .int (((← findFrom v first (items.drop first)).map Int.ofNat).getD (-1)))
  | "extract", span => (spanOf? span).map fun (start, n) =>
    let (first, n) := spanFrom items.length start n
    .ok (.array ((items.drop first).take n))
  | _, _ => none

/-- Functions that change an array: their value and what they leave. -/
def arrayChange (name : String) (items : List Value) (args : List Value) :
    Option (Except Trouble (Value × List Value)) :=
  let leaving (left : List Value) : Option (Except Trouble (Value × List Value)) :=
    some (.ok (.unit, left))
  let splice (start n : Int) (new : List Value) : Option (Except Trouble (Value × List Value)) :=
    let (first, n) := spanFrom items.length start n
    leaving (items.take first ++ new ++ items.drop (first + n))
  match name, args with
  | "push", [v] => leaving (items ++ [v])
  | "append", [.array new] => leaving (items ++ new)
  | "insert", [.int i, v] => splice i 0 [v]
  | "splice", [.int start, .int n, .array new] => splice start n new
  | "splice", [.range a b closed, .array new] =>
    (spanOf? [.range a b closed]).bind fun (start, n) => splice start n new
  | "set", [.int i, v] =>
    leaving ((indexFrom? items.length i).elim items fun j => items.set j v)
  | "pop", [] => some (.ok (items.getLast?.getD .unit, items.dropLast))
  | "shift", [] => some (.ok (items.head?.getD .unit, items.tail))
  | "remove", [.int i] =>
    match indexFrom? items.length i with
    | some j => some (.ok (items.getD j .unit, items.eraseIdx j))
    | none => leaving items
  | "clear", [] => leaving []
  | "reverse", [] => leaving items.reverse
  | "pad", [.int n, v] => leaving (items ++ List.replicate (n.toNat - items.length) v)
  | "truncate", [.int n] => leaving (items.take n.toNat)
  | "chop", [.int n] => leaving (items.drop (items.length - n.toNat))
  | "split", [.int i] =>
    let first := (spanFrom items.length i 0).1
    some (.ok (.array (items.drop first), items.take first))
  | "drain", [a] | "retain", [a] =>
    match a with
    | .range .. => (spanOf? [a]).map fun (start, n) => .ok (parted (name == "drain") start n)
    | _ => none
  | "drain", [.int start, .int n] | "retain", [.int start, .int n] =>
    some (.ok (parted (name == "drain") start n))
  | "dedup", [] =>
    match items with
    | [] => leaving []
    | a :: as => some (do return (.unit, a :: (← withoutRepeats a as)))
  | "sort", [] => some (do return (.unit, ← sorted items))
  | _, _ => none
where
  /-- The items of a span and those around it, as what is removed and what is left, or the other way
      round. -/
  parted (removes : Bool) (start n : Int) : Value × List Value :=
    let (first, n) := spanFrom items.length start n
    let inner := (items.drop first).take n
    let outer := items.take first ++ items.drop (first + n)
    if removes then (.array inner, outer) else (.array outer, inner)

/-- Functions on arrays. -/
def arrayFunction (name : String) (args : List Value) : Called :=
  match args with
  | .array items :: args =>
    match arrayQuery name items args, arrayChange name items args with
    | some r, _ => some (r.map .pure)
    | none, some r => some (r.map fun (v, left) => .change v (.array left))
    | none, none => none
  | _ => none

/-! ## 3. Maps -/

/-- Functions on maps. -/
def mapFunction (name : String) (args : List Value) : Called :=
  match name, args with
  | "len", [.map es] => .value (.int es.length)
  | "is_empty", [.map es] => .value (.bool es.isEmpty)
  | "clear", [.map _] => .change .unit (.map [])
  | "remove", [.map es, .text key] =>
    .change ((Entries.get? key es).getD .unit) (.map (Entries.erase key es))
  | "contains", [.map es, .text key] => .value (.bool (Entries.get? key es).isSome)
  | "keys", [.map es] => .value (.array (es.map fun e => .text e.1))
  | "values", [.map es] => .value (.array (es.map (·.2)))
  | "mixin", [.map as, .map bs] => .change .unit (.map (mixin as bs))
  | "fill_with", [.map as, .map bs] => .change .unit (.map (mixin bs as))
  | "get", [.map es, .text key] => .value ((Entries.get? key es).getD .unit)
  | "set", [.map es, .text key, v] => .change .unit (.map (Entries.insert key v es))
  | _, _ => none

/-! ## 4. Functions that call functions -/

/-- The answer yes. -/
def Value.isTrue : Value → Bool
  | bool b => b
  | _ => false

/-- Whether a comparison says that its first argument stands in front. -/
def Value.isBelow : Value → Bool
  | int n => n < 0
  | _ => false

/-- Puts an item behind those that it does not stand in front of; `front` has its last item first. -/
def Errand.insert (f : Pointer) (v : Value) (next : List Value → Errand) :
    (front behind : List Value) → Errand
  | [], behind => next (v :: behind)
  | w :: front, behind =>
    ask ⟨f, none, [v, w], [], 0, true⟩ fun order _ =>
      if order.isBelow then insert f v next front (w :: behind)
      else next ((w :: front).reverse ++ v :: behind)

/-- Brings items in the order of a comparison, those in front being in order. -/
def Errand.sort (f : Pointer) : (sorted items : List Value) → Errand
  | sorted, [] => done (.change .unit (.array sorted))
  | sorted, v :: vs => insert f v (fun sorted => sort f sorted vs) sorted.reverse []

/-- Functions on arrays that call a function for their items. -/
def arrayErrand (name : String) (items : List Value) (f : Pointer) (args : List Value) :
    Option Errand :=
  let each {σ : Type} (_ : σ) (i : Nat) (v : Value) : Request := ⟨f, some v, [], [.int i], 0, false⟩
  -- Goes over the items until one is a hit; the state is the place of the next one.
  let search (start : List Value) (hit : Nat → Value → Value → Option Value) (miss : Value) : Option Errand :=
    let first : Option Nat := match start with
      | [] => some 0
      | [.int start] => some (spanFrom items.length start 0).1
      | _ => none
    first.map fun first =>
      .walk each (fun i v answer _ => (hit i v answer).elim (.inl (i + 1)) fun w => .inr (.pure w))
        (fun _ => .pure miss) first first (items.drop first)
  let fold (place : Nat → Nat) (items : List Value) (start : Value) : Errand :=
    .walk (fun total i v => ⟨f, some v, [total], [.int (place i)], 1, false⟩)
      (fun _ _ answer _ => .inl answer) .pure 0 start items
  let part (removes : Bool) : Errand :=
    .walk each
      (fun s _ answer left =>
        if answer.isTrue == removes then .inl (s.1 ++ [left], s.2) else .inl (s.1, s.2 ++ [left]))
      (fun s => .change (.array s.1) (.array s.2)) 0 (([], []) : List Value × List Value) items
  match name, args with
  | "map", [] =>
    some (.walk each (fun vs _ answer _ => .inl (vs ++ [answer])) (fun vs => .pure (.array vs)) 0 [] items)
  | "filter", [] =>
    some (.walk each (fun vs v answer _ => .inl (if answer.isTrue then vs ++ [v] else vs))
      (fun vs => .pure (.array vs)) 0 [] items)
  | "for_each", [] =>
    some (.walk each (fun vs _ _ left => .inl (vs ++ [left])) (fun vs => .change .unit (.array vs)) 0 [] items)
  | "find", start => search start (fun _ v answer => if answer.isTrue then some v else none) .unit
  | "find_map", start => search start (fun _ _ answer => if answer.isUnit then none else some answer) .unit
  | "index_of", start =>
    search start (fun i _ answer => if answer.isTrue then some (.int i) else none) (.int (-1))
  | "some", [] => search [] (fun _ _ answer => if answer.isTrue then some (.bool true) else none) (.bool false)
  | "all", [] => search [] (fun _ _ answer => if answer.isTrue then none else some (.bool false)) (.bool true)
  | "reduce", [] => some (fold id items .unit)
  | "reduce", [start] => some (fold id items start)
  | "reduce_rev", [] => some (fold (items.length - 1 - ·) items.reverse .unit)
  | "reduce_rev", [start] => some (fold (items.length - 1 - ·) items.reverse start)
  | "drain", [] => some (part true)
  | "retain", [] => some (part false)
  | "sort", [] => some (.sort f [] items)
  | "dedup", [] =>
    match items with
    | [] => some (.done (.change .unit (.array [])))
    | a :: as =>
      some (.walk (fun kept _ v => ⟨f, none, [kept.getLast?.getD a, v], [], 0, true⟩)
        (fun kept v answer _ => .inl (if answer.isTrue then kept else kept ++ [v]))
        (fun kept => .change .unit (.array kept)) 0 [a] as)
  | _, _ => none

/-- Functions on maps that call a function for their entries. -/
def mapErrand (name : String) (es : Entries Value) (f : Pointer) : Option Errand :=
  let part (answer : Entries Value × Entries Value → Answer) : Errand :=
    .walk (fun _ _ e => ⟨f, some e.2, [.text e.1], [], 1, false⟩)
      (fun s e answer _ => if answer.isTrue then .inl (s.1 ++ [e], s.2) else .inl (s.1, s.2 ++ [e]))
      answer 0 ([], []) es
  match name with
  | "filter" => some (part fun s => .pure (.map s.1))
  | "drain" => some (part fun s => .change (.map s.1) (.map s.2))
  | "retain" => some (part fun s => .change (.map s.2) (.map s.1))
  | _ => none

/-- The library functions that call a function which they are given. -/
def errand? (name : String) : List Value → Option Errand
  | .array items :: .pointer f key :: args => arrayErrand name items ⟨f, key⟩ args
  | [.map es, .pointer f key] => mapErrand name es ⟨f, key⟩
  | _ => none

end ScriptHost.Script
