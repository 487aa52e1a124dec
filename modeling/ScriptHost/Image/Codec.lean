import ScriptHost.Image.Basic
import ScriptHost.Source

/-!
# Codec — images as bytes

Numbers are written with the least significant byte first, a version in four bytes and a length in
eight; texts and lists follow their lengths, and a byte of zero or one tells a truth value or whether
there is something.  Reading takes an image off the front and leaves the rest alone.
-/

namespace ScriptHost.Image

/-- A sequence of bytes. -/
abbrev Bytes := List UInt8

/-! ## 1. Parts -/

/-- A number in so many bytes. -/
def putNat : Nat → Nat → Bytes
  | 0, _ => []
  | width + 1, n => n.toUInt8 :: putNat width (n / 256)

def takeNat? : Nat → Bytes → Option (Nat × Bytes)
  | 0, bs => some (0, bs)
  | _ + 1, [] => none
  | width + 1, b :: bs => do
    let (n, rest) ← takeNat? width bs
    some (b.toNat + 256 * n, rest)

/-- A length. -/
def putLength (n : Nat) : Bytes := putNat 8 n

def takeLength? (bs : Bytes) : Option (Nat × Bytes) := takeNat? 8 bs

def putBool (b : Bool) : Bytes := [if b then 1 else 0]

def takeBool? : Bytes → Option (Bool × Bytes)
  | 0 :: bs => some (false, bs)
  | 1 :: bs => some (true, bs)
  | _ => none

def putString (s : String) : Bytes :=
  let bytes := utf8 s
  putLength bytes.length ++ bytes

def takeString? (bs : Bytes) : Option (String × Bytes) := do
  let (n, bs) ← takeLength? bs
  if bs.length < n then none
  else
    let s ← String.fromUTF8? ⟨(bs.take n).toArray⟩
    some (s, bs.drop n)

def putOption {α : Type} (put : α → Bytes) : Option α → Bytes
  | none => [0]
  | some a => 1 :: put a

def takeOption? {α : Type} (take? : Bytes → Option (α × Bytes)) : Bytes → Option (Option α × Bytes)
  | 0 :: bs => some (none, bs)
  | 1 :: bs => (take? bs).map fun (a, bs) => (some a, bs)
  | _ => none

def putList {α : Type} (put : α → Bytes) (as : List α) : Bytes :=
  putLength as.length ++ as.flatMap put

/-- So many values, one after the other. -/
def takeMany? {α : Type} (take? : Bytes → Option (α × Bytes)) : Nat → Bytes → Option (List α × Bytes)
  | 0, bs => some ([], bs)
  | n + 1, bs => do
    let (a, bs) ← take? bs
    let (as, bs) ← takeMany? take? n bs
    some (a :: as, bs)

def takeList? {α : Type} (take? : Bytes → Option (α × Bytes)) (bs : Bytes) :
    Option (List α × Bytes) := do
  let (n, bs) ← takeLength? bs
  takeMany? take? n bs

/-! ## 2. Images -/

def Function.put (f : Function) : Bytes :=
  putString f.name ++ putList putString f.params ++ putString f.text

def Function.take? (bs : Bytes) : Option (Function × Bytes) := do
  let (name, bs) ← takeString? bs
  let (params, bs) ← takeList? takeString? bs
  let (text, bs) ← takeString? bs
  some (⟨name, params, text⟩, bs)

def Field.put (f : Field) : Bytes := putString f.name ++ putString f.kind ++ putBool f.isPublic

def Field.take? (bs : Bytes) : Option (Field × Bytes) := do
  let (name, bs) ← takeString? bs
  let (kind, bs) ← takeString? bs
  let (isPublic, bs) ← takeBool? bs
  some (⟨name, kind, isPublic⟩, bs)

def TypeDecl.put (t : TypeDecl) : Bytes :=
  putString t.name ++ putOption putString t.base ++ putBool t.isAbstract ++ putString t.path ++
    putList Field.put t.fields ++ putList Function.put t.methods

def TypeDecl.take? (bs : Bytes) : Option (TypeDecl × Bytes) := do
  let (name, bs) ← takeString? bs
  let (base, bs) ← takeOption? takeString? bs
  let (isAbstract, bs) ← takeBool? bs
  let (path, bs) ← takeString? bs
  let (fields, bs) ← takeList? Field.take? bs
  let (methods, bs) ← takeList? Function.take? bs
  some (⟨name, base, isAbstract, path, fields, methods⟩, bs)

def Module.put (m : Module) : Bytes := putString m.path ++ putList Function.put m.functions

def Module.take? (bs : Bytes) : Option (Module × Bytes) := do
  let (path, bs) ← takeString? bs
  let (functions, bs) ← takeList? Function.take? bs
  some (⟨path, functions⟩, bs)

/-- The bytes of an image. -/
def encode (i : Image) : Bytes :=
  putNat 4 i.version.toNat ++ putString i.unit ++ putString i.corpusHash ++
    putList Module.put i.modules ++ putList TypeDecl.put i.types

/-- An image at the front of some bytes, whatever its version. -/
def take? (bs : Bytes) : Option (Image × Bytes) := do
  let (version, bs) ← takeNat? 4 bs
  let (unit, bs) ← takeString? bs
  let (corpusHash, bs) ← takeString? bs
  let (modules, bs) ← takeList? Module.take? bs
  let (types, bs) ← takeList? TypeDecl.take? bs
  some (⟨version.toUInt32, unit, corpusHash, modules, types⟩, bs)

/-- Why some bytes are no image for this host. -/
inductive DecodeError where
  | malformed
  | version (unit : String) (found : UInt32)
deriving DecidableEq, Inhabited

def DecodeError.message : DecodeError → String
  | malformed => "decode unit image"
  | version unit found =>
    s!"unit {unit} was built for host ABI {found} but this host is ABI {hostVersion}"

/-- Reads an image of this host's version; what stands behind it is ignored. -/
def decode (bs : Bytes) : Except DecodeError Image :=
  match take? bs with
  | none => .error .malformed
  | some (i, _) => if i.version = hostVersion then .ok i else .error (.version i.unit i.version)

end ScriptHost.Image
