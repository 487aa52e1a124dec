import ScriptHost.Script.Machine

/-!
# Chain — places inside a value

A chain of links leads from a value to a place inside it.  What is done at that place gives a result
and the new value of the whole; the new value counts even where the result is an interruption.
-/

namespace ScriptHost.Script

open Text (Position)

/-! ## 1. Parts -/

/-- A part of a value: what is there, if anything, and how to put something else in its place. -/
structure Part where
  value : Option Value
  put : Value → Except Trouble Value

namespace Part

/-- The refusal of a value that is not of the type wanted. -/
def refuse (expected : String) (v : Value) : Except Trouble Value :=
  .error (.unfit v expected)

/-- The items of an array. -/
def ofArray (items : List Value) (key : Value) : Except Trouble Part :=
  match key with
  | .int i =>
    match indexFrom? items.length i with
    | some j => .ok ⟨items[j]?, fun v => .ok (.array (items.set j v))⟩
    | none => .error (.arrayBounds items.length i)
  | k => .error (.unfit k "i64")

/-- The entries of a map; one that is missing can be put. -/
def ofMap (entries : Entries Value) (key : Value) : Except Trouble Part :=
  match key with
  | .text k => .ok ⟨Entries.get? k entries, fun v => .ok (.map (Entries.insert k v entries))⟩
  | k => .error (.unfit k "string")

/-- The characters of a text from place `start` on and before place `stop`. -/
def ofSlice (s : String) (start stop : Nat) : Part :=
  let cs := s.toList
  let put (v : Value) : Except Trouble Value := match v with
    | .text t => .ok (.text (String.ofList (cs.take start ++ t.toList ++ cs.drop (max start stop))))
    | v => refuse "string" v
  ⟨some (.text (String.ofList ((cs.take stop).drop start))), put⟩

/-- An end of a slice of a text; a negative one counts from the end of the text. -/
def bound (length : Nat) (i : Int) : Except Trouble Nat :=
  if 0 ≤ i then .ok i.toNat
  else if -(length : Int) ≤ i then .ok (i + length).toNat
  else .error (.textBounds length i)

/-- The characters of a text, one by one or a range of them. -/
def ofText (s : String) (key : Value) : Except Trouble Part :=
  match key with
  | .int i =>
    match indexFrom? s.length i with
    | some j =>
      let put (v : Value) : Except Trouble Value := match v with
        | .char c => .ok (.text (String.ofList (s.toList.set j c)))
        | v => refuse "char" v
      .ok ⟨s.toList[j]?.map .char, put⟩
    | none => .error (.textBounds s.length i)
  | .range a b closed => do
    let start ← bound s.length a
    let stop ← bound s.length b
    return ofSlice s start (if closed then stop + 1 else stop)
  | k => .error (.unfit k "i64")

/-- The 64 bits of an integer as a natural number. -/
def bitsOf (n : Int) : Nat := (n % (1 <<< 64)).toNat

/-- `count` bits of an integer from bit `start` on, as an integer. -/
def ofBitRange (n : Int) (start count : Nat) : Part :=
  let mask : Nat := (1 <<< count - 1) <<< start
  let bits : Nat := bitsOf n
  let put (v : Value) : Except Trouble Value := match v with
    | .int m => .ok (wrapped (bits - (bits &&& mask) + ((bitsOf m <<< start) &&& mask) : Nat))
    | v => refuse "i64" v
  ⟨some (.int (Int.bmod ((bits &&& mask : Nat) : Int) (1 <<< 64) >>> start)), put⟩

/-- The bits of an integer, one by one or a range of them. -/
def ofBits (n : Int) (key : Value) : Except Trouble Part :=
  match key with
  | .int i =>
    match indexFrom? 64 i with
    | some j =>
      let bits : Nat := bitsOf n
      let put (v : Value) : Except Trouble Value := match v with
        | .bool b => .ok (wrapped (bits - (bits &&& 1 <<< j) + (if b then 1 <<< j else 0) : Nat))
        | v => refuse "bool" v
      .ok ⟨some (.bool (bits.testBit j)), put⟩
    | none => .error (.bitBounds i)
  | .range a b closed =>
    let stop := if closed then b + 1 else b
    if a < 0 || 64 ≤ a then .error (.bitBounds a)
    else if stop < 0 || 64 < stop then .error (.bitBounds b)
    else .ok (ofBitRange n a.toNat (stop - a).toNat)
  | k => .error (.unfit k "i64")

end Part

/-- The part of a value that an index names, for the values that have such parts. -/
def Value.part? (target key : Value) : Option (Except Trouble Part) :=
  match target with
  | .array items => some (Part.ofArray items key)
  | .map entries => some (Part.ofMap entries key)
  | .text s => some (Part.ofText s key)
  | .int n => some (Part.ofBits n key)
  | _ => none

/-- Whether the parts of a value are values of their own, as those of a text or of an integer are not. -/
def Value.hasItems : Value → Bool
  | .array _ | .map _ => true
  | _ => false

/-! ## 2. Steps and deeds -/

/-- A link whose arguments have been computed; an index keeps the place of its key. -/
inductive Step where
  | property (name : String) (position : Position) (joint : Joint)
  | method (name : String) (args : List Value) (position : Position) (joint : Joint)
  | index (key : Value) (position : Position) (joint : Joint)

def Step.joint : Step → Joint
  | property _ _ j | method _ _ _ j | index _ _ j => j

/-- What to do at the end of a chain: read, or assign, perhaps combined with an operator at a place. -/
inductive Deed where
  | read
  | assign (op : Option Operator) (value : Value) (position : Position)

/-- What a step leads to in a value, if there is anything. -/
def Step.peek? (target : Value) : Step → Option Value
  | method .. => none
  | index key _ _ =>
    match target.part? key with
    | some (.ok part) => part.value
    | _ => none
  | property name _ _ =>
    match target with
    | .map es => Entries.get? name es
    | v => property? name v

/-- The operations that a step into `target` takes, by their places: a property that is no entry of a
    map is the work of a function. -/
def Step.accesses (target : Value) : Step → List (Option Position)
  | method .. => []
  | index .. => [none]
  | property _ p _ =>
    match target with
    | .map _ => [none]
    | _ => [some p]

/-- The operations that a deed takes at the last step of a chain: where it needs the old value for a new
    one, the step is taken to read it, the operator may call functions, and a function puts a property
    back. -/
def Deed.accesses (d : Deed) (target : Value) (step : Step) : List (Option Position) :=
  match d with
  | .assign (some op) new p =>
    let calls := (step.peek? target).elim 0 fun old => op.assigningCalls old new
    let writes := match step, target with
      | .property .., .map _ => []
      | .property _ q _, _ => [some q]
      | _, _ => []
    step.accesses target ++ List.replicate calls (some p) ++ writes
  | _ => step.accesses target

/-- The outcome of a visit and the value that is left behind. -/
structure Visit where
  outcome : Except Signal Value
  left : Value

/-- The failure of a trouble at a place. -/
def troubleAt (t : Trouble) (p : Position) : Except Signal Value := .error (.failed (.raised t (some p)))

namespace Visit

/-- A visit to a part, seen from the whole; `p` is the place of what puts the part back. -/
def within (whole : Value) (part : Part) (p : Position) (v : Visit) : Visit :=
  match part.put v.left with
  | .ok w => { v with left := w }
  | .error t =>
    match v.outcome with
    | .ok _ => ⟨troubleAt t p, whole⟩
    | .error s => ⟨.error s, whole⟩

end Visit

namespace Deed

/-- The new value at a place whose value is `old`. -/
def newValue (op : Option Operator) (old new : Value) (p : Position) : Except Signal Value :=
  match op with
  | none => .ok new
  | some op =>
    match op.combine old new with
    | .ok v => .ok v
    | .error t => troubleAt t p

/-- Does a deed at a place that can be replaced. -/
def onPlace (d : Deed) (old : Value) : Visit :=
  match d with
  | .read => ⟨.ok old, old⟩
  | .assign op new p =>
    match newValue op old new p with
    | .ok v => ⟨.ok .unit, v⟩
    | .error s => ⟨.error s, old⟩

/-- Does a deed at a part.  What is there already stays as it is where the whole belongs to a constant,
    whose name and place `owner` gives. -/
def atPart (d : Deed) (owner : Option Ident) (target : Value) (part : Part) : Visit :=
  match d with
  | .read => ⟨.ok (part.value.getD .unit), target⟩
  | .assign _ _ p =>
    match owner, part.value with
    | some c, some _ => ⟨troubleAt (.constantTarget c.name) c.position, target⟩
    | _, old => (d.onPlace (old.getD .unit)).within target part p

/-- Does a deed at the place that an index names.  Characters and bits may be put even into a constant. -/
def atIndex (d : Deed) (owner : Option Ident) (target key : Value) (p : Position) (joint : Joint) :
    Visit :=
  match target.part? key with
  | some (.ok part) => d.atPart (if target.hasItems then owner else none) target part
  | some (.error t) => ⟨troubleAt t p, target⟩
  | none =>
    let valueType := match d with
      | .read => none
      | .assign _ v _ => some v.typeName
    ⟨troubleAt (.notIndexable target.typeName key.typeName valueType) joint.position, target⟩

/-- Does a deed at a property. -/
def atProperty (d : Deed) (owner : Option Ident) (target : Value) (name : String) (p : Position) :
    Visit :=
  match target with
  | .map entries =>
    d.atPart owner target ⟨Entries.get? name entries, fun v => .ok (.map (Entries.insert name v entries))⟩
  | _ =>
    let unreadable := Trouble.unreadableProperty name target.typeName
    match d, property? name target with
    | .read, some v => ⟨.ok v, target⟩
    | .read, none => ⟨troubleAt unreadable p, target⟩
    | .assign (some _) _ _, none => ⟨troubleAt unreadable p, target⟩
    | .assign op new q, old =>
      match newValue op (old.getD .unit) new q with
      | .error s => ⟨.error s, target⟩
      | .ok v =>
        match setProperty? name v target with
        | some changed =>
          if owner.isSome then ⟨troubleAt (.constantProperty name) p, target⟩
          else ⟨.ok .unit, changed⟩
        | none => ⟨troubleAt (.unwritableProperty name target.typeName v.typeName) p, target⟩

end Deed

/-! ## 3. Ways through a part -/

/-- Visits a part of `target` at a step that is no call.  `go` continues from the part; what it leaves
    is put back, unless the part was never there. -/
def visitPart (target : Value) (step : Step) (go : Value → Run Visit) : Run Visit := do
  let through (part : Part) (p : Position) : Run Visit :=
    match part.value with
    | some v => return (← go v).within target part p
    | none => return { ← go .unit with left := target }
  match step with
  | .index key p joint =>
    match target.part? key with
    | some (.ok part) => through part p
    | some (.error t) => return ⟨troubleAt t p, target⟩
    | none =>
      return ⟨troubleAt (.notIndexable target.typeName key.typeName none) joint.position, target⟩
  | .property name p _ =>
    match target with
    | .map es => through ⟨Entries.get? name es, fun v => .ok (.map (Entries.insert name v es))⟩ p
    | _ =>
      match property? name target with
      | some v => through ⟨some v, fun w => .ok ((setProperty? name w target).getD target)⟩ p
      | none => return ⟨troubleAt (.unreadableProperty name target.typeName) p, target⟩
  | .method .. => return ⟨.ok .unit, target⟩

end ScriptHost.Script
