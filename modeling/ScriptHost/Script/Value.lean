import ScriptHost.Entity
import ScriptHost.Text.Quoted
import ScriptHost.Vector

/-!
# Value — what scripts compute with

Values are copied, never shared; what closures share are variables.  The entries of a map stand in the
order of their keys.
-/

namespace ScriptHost.Script

/-! ## 1. Entries -/

/-- Entries in ascending order of their keys, each key once. -/
abbrev Entries (α : Type) := List (String × α)

namespace Entries

variable {α : Type}

def get? (key : String) (es : Entries α) : Option α := es.lookup key

/-- Puts a value at its key, in place of the one that was there. -/
def insert (key : String) (a : α) : Entries α → Entries α
  | [] => [(key, a)]
  | e :: es =>
    if e.1 == key then (key, a) :: es
    else if key < e.1 then (key, a) :: e :: es
    else e :: insert key a es

def erase (key : String) (es : Entries α) : Entries α := es.filter (·.1 != key)

def ofList (es : List (String × α)) : Entries α := es.foldl (fun m e => insert e.1 e.2 m) []

theorem get?_cons (key k : String) (a : α) (es : Entries α) :
    get? key ((k, a) :: es) = if key = k then some a else get? key es := by
  rw [get?, List.lookup_cons]
  by_cases h : key = k
  · rw [if_pos h, beq_iff_eq.mpr h]
  · rw [if_neg h, beq_eq_false_iff_ne.mpr h]
    rfl

theorem get?_insert_self (key : String) (a : α) (es : Entries α) :
    get? key (insert key a es) = some a := by
  induction es with
  | nil => rw [insert, get?_cons, if_pos rfl]
  | cons e es ih =>
    obtain ⟨k, b⟩ := e
    rw [insert]
    by_cases h : k = key
    · rw [if_pos (beq_iff_eq.mpr h), get?_cons, if_pos rfl]
    · rw [if_neg (by simpa using h)]
      split
      · rw [get?_cons, if_pos rfl]
      · rw [get?_cons, if_neg (Ne.symm h)]
        exact ih

theorem get?_insert_of_ne {key other : String} (h : other ≠ key) (a : α) (es : Entries α) :
    get? other (insert key a es) = get? other es := by
  induction es with
  | nil => rw [insert, get?_cons, if_neg h]
  | cons e es ih =>
    obtain ⟨k, b⟩ := e
    rw [insert]
    by_cases hk : k = key
    · have hne : other ≠ k := fun he => h (he.trans hk)
      rw [if_pos (beq_iff_eq.mpr hk), get?_cons, get?_cons, if_neg h, if_neg hne]
    · rw [if_neg (by simpa using hk)]
      split
      · rw [get?_cons, if_neg h]
      · rw [get?_cons, get?_cons, ih]

/-- What is found after a put was put there or found before. -/
theorem eq_or_get?_of_get?_insert {key other : String} {a b : α} {es : Entries α}
    (h : get? other (insert key a es) = some b) : (other = key ∧ b = a) ∨ get? other es = some b := by
  by_cases hk : other = key
  · rw [hk, get?_insert_self] at h
    exact .inl ⟨hk, (Option.some.inj h).symm⟩
  · rw [get?_insert_of_ne hk] at h
    exact .inr h

theorem mem_of_get?_ofList {key : String} {a : α} {es : List (String × α)}
    (h : get? key (ofList es) = some a) : (key, a) ∈ es := by
  -- Over the entries put so far: what is found is one of those to come or was found before them.
  suffices later : ∀ m : Entries α, get? key (es.foldl (fun m e => insert e.1 e.2 m) m) = some a →
      (key, a) ∈ es ∨ get? key m = some a by
    rcases later [] h with hm | hn
    · exact hm
    · exact absurd hn (by simp [get?])
  clear h
  intro m h
  induction es generalizing m with
  | nil => exact .inr h
  | cons e es ih =>
    rcases ih (insert e.1 e.2 m) h with hm | hf
    · exact .inl (List.mem_cons_of_mem e hm)
    · rcases eq_or_get?_of_get?_insert hf with ⟨rfl, rfl⟩ | hf
      · exact .inl List.mem_cons_self
      · exact .inr hf

end Entries

/-! ## 2. Values -/

/-- What a hook is told about its caller: the entity, the name of the type, and the keys held down. -/
structure Context where
  entity : Entity
  typeName : String
  held : List String
deriving DecidableEq, Inhabited

/-- A value of the script language.  Integers have 64 bits. -/
inductive Value where
  | unit
  | bool (value : Bool)
  | int (value : Int)
  | float (value : Float)
  | char (value : Char)
  | text (value : String)
  | array (items : List Value)
  | map (entries : List (String × Value))
  | vector (value : Vector)
  | range (first last : Int) (closed : Bool)
  | context (value : Context)
  /-- A function by its name; `key` is there if more belongs to it than that. -/
  | pointer (name : String) (key : Option Nat)
deriving Inhabited

namespace Value

/-- The integers that a script can hold. -/
def fits (n : Int) : Bool := -(1 <<< 63) ≤ n && n < 1 <<< 63

/-- The name of a value's type. -/
def typeName : Value → String
  | unit => "()"
  | bool _ => "bool"
  | int _ => "i64"
  | float _ => "f64"
  | char _ => "char"
  | text _ => "string"
  | array _ => "array"
  | map _ => "map"
  | vector v => v.typeName
  | range _ _ false => "range"
  | range _ _ true => "range="
  | context _ => "Context"
  | pointer .. => "Fn"

/-- The name of a value's type in the signature of a call. -/
def argumentName : Value → String
  | text _ => "&str | ImmutableString | String"
  | v => v.typeName

def isUnit : Value → Bool
  | unit => true
  | _ => false

mutual

/-- Sameness of literals: same type, same digits.  Vectors, contexts and functions are never the same. -/
def same : Value → Value → Bool
  | unit, unit => true
  | bool a, bool b => a == b
  | int a, int b => a == b
  | float a, float b => a.toBits == b.toBits
  | char a, char b => a == b
  | text a, text b => a == b
  | array as, array bs => sameItems as bs
  | map as, map bs => sameEntries as bs
  | range a b c, range d e f => a == d && b == e && c == f
  | _, _ => false

def sameItems : List Value → List Value → Bool
  | [], [] => true
  | a :: as, b :: bs => same a b && sameItems as bs
  | _, _ => false

def sameEntries : List (String × Value) → List (String × Value) → Bool
  | [], [] => true
  | (k, a) :: as, (l, b) :: bs => k == l && same a b && sameEntries as bs
  | _, _ => false

end

/-! ## 3. Texts -/

/-- A number of a script: positional where that is not too long, and never without a fraction. -/
def floatText (x : Float) : String :=
  let magnitude := x.abs
  if magnitude == 0 then "0.0"
  else if magnitude > 9999999827968 || magnitude < 9.9999998245167e-14 then
    Decimal.powered.write (Decimal.ofFloat x)
  else
    let digits := Decimal.plain.write (Decimal.ofFloat x)
    if x.floor == x then digits ++ ".0" else digits

/-- `'c'` -/
def quotedCharText (c : Char) : String :=
  let inner := if c == '\'' then ['\\', '\''] else if c == '"' then ['"'] else Text.quotedChar c
  String.ofList ('\'' :: inner ++ ['\''])

/-- How values that are no texts are written inside others: characters, and the host's own types. -/
structure Style where
  char : Char → String
  foreign : Value → String

mutual

/-- A value inside another: texts are quoted. -/
def structured (style : Style) : Value → String
  | unit => "()"
  | bool b => toString b
  | int n => toString n
  | float x => Decimal.structured.write (Decimal.ofFloat x)
  | char c => style.char c
  | text s => Text.quoted s
  | array items => "[" ++ String.intercalate ", " (structuredItems style items) ++ "]"
  | map entries => "#\x7b" ++ String.intercalate ", " (structuredEntries style entries) ++ "\x7d"
  | range a b closed => toString a ++ (if closed then "..=" else "..") ++ toString b
  | pointer name _ => "Fn(" ++ name ++ ")"
  | v => style.foreign v

def structuredItems (style : Style) : List Value → List String
  | [] => []
  | v :: vs => structured style v :: structuredItems style vs

def structuredEntries (style : Style) : List (String × Value) → List String
  | [] => []
  | (k, v) :: es => (Text.quoted k ++ ": " ++ structured style v) :: structuredEntries style es

end

/-- A value by itself: texts and characters stand as they are.  `foreign` writes the host's own types. -/
def display (foreign : Value → String) (nested : Style) : Value → String
  | unit => ""
  | float x => floatText x
  | char c => String.singleton c
  | text s => s
  | vector v => foreign (vector v)
  | context c => foreign (context c)
  | v => structured nested v

/-- What scripts call the values of the host's own types, inside others. -/
def foreignDebug : Value → String
  | vector v => v.structured
  | v => v.typeName

def foreignText : Value → String
  | vector v => v.display
  | v => v.typeName

/-- The host's own name for the type of a value: it differs for the types that scripts know by a short
    name. -/
def hostTypeName : Value → String
  | vector [_, _] => "glam::f32::vec2::Vec2"
  | vector [_, _, _] => "glam::f32::vec3::Vec3"
  | vector _ => "glam::f32::sse2::vec4::Vec4"
  | context _ => "kestrel_scripting::api::ScriptContext"
  | range _ _ false => "core::ops::range::Range<i64>"
  | range _ _ true => "core::ops::range::RangeInclusive<i64>"
  | v => v.typeName

/-- Scripts see characters without quotes. -/
def scriptStyle : Style := ⟨String.singleton, foreignDebug⟩

/-- The host sees characters quoted, and its own types by their full names. -/
def hostStyle : Style := ⟨quotedCharText, hostTypeName⟩

/-- The text of a value as scripts print it. -/
def printed : Value → String := display foreignText scriptStyle

/-- The text of a value as scripts show it for inspection. -/
def inspected : Value → String := structured scriptStyle

/-- The text of a value as the host logs it. -/
def logged : Value → String := display hostTypeName hostStyle

end Value

end ScriptHost.Script
