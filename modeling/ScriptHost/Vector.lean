import ScriptHost.Decimal.Layout

/-!
# Vector — two to four single-precision components

A sum is formed from left to right; with four components the outer pairs are summed first.
-/

namespace ScriptHost

/-- The components of a vector. -/
abbrev Vector := List Float32

namespace Vector

def ofFloats (xs : List Float) : Vector := xs.map Float.toFloat32

def zero (n : Nat) : Vector := List.replicate n 0

def add (v w : Vector) : Vector := v.zipWith (· + ·) w

def sub (v w : Vector) : Vector := v.zipWith (· - ·) w

def scale (v : Vector) (s : Float32) : Vector := v.map (· * s)

def sum : Vector → Float32
  | [] => 0
  | [x, y, z, w] => (x + z) + (y + w)
  | x :: xs => xs.foldl (· + ·) x

def dot (v w : Vector) : Float32 := sum (v.zipWith (· * ·) w)

def length (v : Vector) : Float32 := (v.dot v).sqrt

/-- The vector divided by its length, or zero where the inverse of the length is no positive number. -/
def normalize (v : Vector) : Vector :=
  let inverse := 1 / v.length
  if inverse.isFinite && 0 < inverse then v.scale inverse else zero (List.length v)

/-- Equality of numbers, component by component: zeros are equal, and nothing equals a NaN. -/
def equal (v w : Vector) : Bool := List.length v == List.length w && (v.zip w).all fun p => p.1 == p.2

def axes : List String := ["x", "y", "z", "w"]

/-- The place of the component that an axis names. -/
def axis? (v : Vector) (name : String) : Option Nat := (axes.take (List.length v)).idxOf? name

/-- The name of the type of vectors with `n` components. -/
def typeName (v : Vector) : String := s!"Vec{List.length v}"

/-- `[1, 2.5]` -/
def display (v : Vector) : String :=
  "[" ++ String.intercalate ", " (v.map fun x => Decimal.plain.write (Decimal.ofFloat32 x)) ++ "]"

/-- `Vec2(1.0, 2.5)` -/
def structured (v : Vector) : String :=
  let parts := v.map fun x => Decimal.structured.write (Decimal.ofFloat32 x)
  v.typeName ++ "(" ++ String.intercalate ", " parts ++ ")"

end Vector

end ScriptHost
