/-!
# Kind — the declared types of script fields
-/

namespace ScriptHost.Field

/-- What a field may hold. -/
inductive Kind where
  | int
  | float
  | bool
  | text
  | vec2
  | vec3
  | vec4
  | array
  | map
deriving DecidableEq, Inhabited

namespace Kind

def all : List Kind := [int, float, bool, text, vec2, vec3, vec4, array, map]

/-- The word for a kind in a declaration. -/
def keyword : Kind → String
  | int => "int"
  | float => "float"
  | bool => "bool"
  | text => "string"
  | vec2 => "vec2"
  | vec3 => "vec3"
  | vec4 => "vec4"
  | array => "array"
  | map => "map"

/-- The kind that a word declares. -/
def ofKeyword? (word : String) : Option Kind := all.find? (·.keyword == word)

/-- The tag of a kind in structured text. -/
def tag : Kind → String
  | text => "text"
  | kind => kind.keyword

/-- The kind of a tag. -/
def ofTag? (tag : String) : Option Kind := all.find? (·.tag == tag)

/-- Whether an inspector can show and edit fields of this kind. -/
def isSupported : Kind → Bool
  | array | map => false
  | _ => true

theorem ofKeyword?_keyword (k : Kind) : ofKeyword? k.keyword = some k := by
  cases k <;> rfl

end Kind

end ScriptHost.Field
