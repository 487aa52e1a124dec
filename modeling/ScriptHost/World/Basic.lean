import ScriptHost.Config

/-!
# World — the things that scripts are about

A world holds its things in rows.  A thing that is removed leaves its place to the last row, and its
index to the next thing that comes, in the next generation: the index freed last is used first.
-/

namespace ScriptHost

/-! ## 1. Things -/

/-- Where a thing is; the rotation is in radians. -/
structure Placement where
  translation : Vector
  rotation : Float32
  scale : Vector
deriving Inhabited

def Placement.start (translation : Vector) : Placement := ⟨translation, 0, [1, 1]⟩

/-- A thing with the names of the behaviours that it is to have.  What others put into a world may be without
    a placement, and then it is nowhere, or without a velocity, and then it never moves. -/
structure Thing where
  entity : Entity
  name : String
  placement? : Option Placement
  velocity? : Option Vector
  behaviours : List String
deriving Inhabited

namespace Thing

/-- The placement, or the one that things start with. -/
def placement (t : Thing) : Placement := t.placement?.getD (.start (.zero 2))

/-- The velocity, or that of a thing at rest. -/
def velocity (t : Thing) : Vector := t.velocity?.getD (.zero 2)

/-- The thing placed otherwise, if it is anywhere. -/
def place (t : Thing) (f : Placement → Placement) : Thing := { t with placement? := t.placement?.map f }

/-- The thing at another velocity, if it has one. -/
def drive (t : Thing) (v : Vector) : Thing := { t with velocity? := t.velocity?.map fun _ => v }

end Thing

/-- The things in the order of their rows, the freed indices with their next generations, the latest
    first, and the first index that was never used.  The order is that of things that lack nothing. -/
structure World where
  rows : List Thing
  freed : List Entity
  unused : Nat
deriving Inhabited

namespace World

def empty : World := ⟨[], [], 0⟩

def find? (w : World) (e : Entity) : Option Thing := w.rows.find? (·.entity == e)

/-- The first thing of that name. -/
def named? (w : World) (name : String) : Option Entity :=
  (w.rows.find? (·.name == name)).map Thing.entity

def count (w : World) : Nat := w.rows.length

/-! ## 2. Coming and going -/

/-- The entity for the next thing. -/
def allocate (w : World) : Entity × World :=
  match w.freed with
  | e :: es => (e, { w with freed := es })
  | [] => (.first w.unused, { w with unused := w.unused + 1 })

/-- Brings a thing into the world, at rest. -/
def spawn (w : World) (name : String) (translation : Vector) (behaviours : List String) :
    Entity × World :=
  let (e, w) := w.allocate
  (e, { w with rows := w.rows ++ [⟨e, name, some (.start translation), some (.zero 2), behaviours⟩] })

/-- Brings a thing into the world as settings describe it. -/
def spawnAs (w : World) (s : EntitySettings) : Entity × World :=
  let translation := match s.translation with
    | some (x, y) => [x, y]
    | none => .zero 2
  w.spawn s.name translation s.behaviours

/-- The rows without the thing of an entity, whose place the last one takes. -/
def withoutRow (rows : List Thing) (e : Entity) : List Thing :=
  match rows.getLast? with
  | none => []
  | some last =>
    let rest := rows.dropLast
    if last.entity == e then rest else rest.map fun t => if t.entity == e then last else t

/-- Takes a thing out of the world, if it is there. -/
def despawn (w : World) (e : Entity) : Option World :=
  (w.find? e).map fun _ =>
    { w with rows := withoutRow w.rows e, freed := ⟨e.index, e.generation + 1⟩ :: w.freed }

/-! ## 3. Change -/

/-- Changes the thing of an entity, if it is there. -/
def change (w : World) (e : Entity) (f : Thing → Thing) : World :=
  { w with rows := w.rows.map fun t => if t.entity == e then f t else t }

/-- Names the behaviours that a thing is to have from now on. -/
def setBehaviours (w : World) (e : Entity) (behaviours : List String) : World :=
  w.change e fun t => { t with behaviours := behaviours }

/-- Moves every thing along its velocity. -/
def advance (w : World) (dt : Float32) : World :=
  let move (t : Thing) : Thing :=
    match t.velocity? with
    | none => t
    | some v => t.place fun p => { p with translation := p.translation.add (v.scale dt) }
  { w with rows := w.rows.map move }

/-! ## 4. Commands -/

/-- Half a turn over 180, in single precision. -/
def radiansPerDegree : Float32 := 3.14159274 / 180

/-- Does what a command asks for; nothing where its entity is not there, or lacks what it is about.  Impulses
    and sounds are not the world's business. -/
def apply (w : World) (c : Command) : Option World :=
  match c.effect with
  | .setTranslation v =>
    some (w.change c.entity fun t => t.place fun p => { p with translation := v })
  | .setRotation degrees =>
    some (w.change c.entity fun t => t.place fun p => { p with rotation := degrees * radiansPerDegree })
  | .setVelocity v => some (w.change c.entity fun t => t.drive v)
  | .despawn => some ((w.despawn c.entity).getD w)
  | .applyImpulse _ | .playSound _ => none

/-- Applies commands in order, and gives back those that are for others. -/
def applyAll (w : World) : List Command → List Command × World
  | [] => ([], w)
  | c :: cs =>
    match w.apply c with
    | some w => applyAll w cs
    | none =>
      let (rest, w) := applyAll w cs
      (c :: rest, w)

theorem applyAll_append (w : World) (cs ds : List Command) :
    w.applyAll (cs ++ ds) =
      let first := w.applyAll cs
      let second := first.2.applyAll ds
      (first.1 ++ second.1, second.2) := by
  induction cs generalizing w with
  | nil => rfl
  | cons c cs ih =>
    simp only [List.cons_append, applyAll]
    cases w.apply c with
    | some w => simp only [ih]
    | none => simp only [ih, List.cons_append]

end World

end ScriptHost
