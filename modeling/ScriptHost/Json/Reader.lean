import ScriptHost.Json.Basic

/-!
# Reader — JSON values from text

A text holds one value and blanks around it, nothing else.  String literals admit no control
character; an escape outside the basic plane comes as a pair of halves, and a half that stands alone
makes the literal `broken`, as does a byte that belongs to no character.
-/

namespace ScriptHost.Json

/-- Drops blanks at the front. -/
def skipBlank (cs : List Char) : List Char :=
  cs.dropWhile fun c => c == ' ' || c == '\t' || c == '\n' || c == '\r'

/-! ## 1. String literals -/

def hexValue? (c : Char) : Option Nat :=
  if '0' ≤ c && c ≤ '9' then some (c.toNat - '0'.toNat)
  else if 'a' ≤ c && c ≤ 'f' then some (c.toNat - 'a'.toNat + 10)
  else if 'A' ≤ c && c ≤ 'F' then some (c.toNat - 'A'.toNat + 10)
  else none

/-- The code unit of four hexadecimal digits. -/
def codeUnit? (a b c d : Char) : Option Nat := do
  some (((← hexValue? a) * 16 + (← hexValue? b)) * 256 + (← hexValue? c) * 16 + (← hexValue? d))

/-- The character of a one-letter escape. -/
def plainEscape? : Char → Option Char
  | '"' => some '"'
  | '\\' => some '\\'
  | '/' => some '/'
  | 'b' => some '\x08'
  | 'f' => some '\x0c'
  | 'n' => some '\n'
  | 'r' => some '\r'
  | 't' => some '\t'
  | _ => none

/-- What is read where a byte belongs to no character; such a byte is passed on as a zero, which no
    text may hold. -/
def spoiled : Nat := 0x110000

/-- Characters and code units up to the closing quote, and the text after it. -/
def readUnits? : List Char → Option (List Nat × List Char)
  | [] => none
  | '"' :: rest => some ([], rest)
  | '\x00' :: rest => do
    let (units, rest) ← readUnits? rest
    some (spoiled :: units, rest)
  | '\\' :: 'u' :: a :: b :: c :: d :: rest => do
    let unit ← codeUnit? a b c d
    let (units, rest) ← readUnits? rest
    some (unit :: units, rest)
  | '\\' :: c :: rest => do
    let c ← plainEscape? c
    let (units, rest) ← readUnits? rest
    some (c.toNat :: units, rest)
  | c :: rest =>
    if c.toNat < 0x20 || c == '\\' then none
    else do
      let (units, rest) ← readUnits? rest
      some (c.toNat :: units, rest)

def isHighHalf (n : Nat) : Bool := 0xD800 ≤ n && n ≤ 0xDBFF

def isLowHalf (n : Nat) : Bool := 0xDC00 ≤ n && n ≤ 0xDFFF

/-- Joins pairs of halves; `none` if a half stands alone or something is spoiled. -/
def joinHalves? : List Nat → Option (List Char)
  | [] => some []
  | [n] => if isHighHalf n || isLowHalf n || n == spoiled then none else some [Char.ofNat n]
  | n :: m :: rest =>
    if isHighHalf n then
      if isLowHalf m then
        (joinHalves? rest).map (Char.ofNat (0x10000 + (n - 0xD800) * 0x400 + (m - 0xDC00)) :: ·)
      else none
    else if isLowHalf n || n == spoiled then none
    else (joinHalves? (m :: rest)).map (Char.ofNat n :: ·)

/-- A string literal after its opening quote: its text, or `none` where it is broken. -/
def readString? (cs : List Char) : Option (Option String × List Char) := do
  let (units, rest) ← readUnits? cs
  some ((joinHalves? units).map String.ofList, rest)

/-! ## 2. Values -/

/-- Drops `word` at the front. -/
def dropWord? : List Char → List Char → Option (List Char)
  | [], cs => some cs
  | w :: word, c :: cs => if w == c then dropWord? word cs else none
  | _ :: _, [] => none

mutual

/-- The value at the front of a text without leading blanks; `fuel` bounds the nesting and the number
    of items. -/
def readValue? : Nat → List Char → Option (Json × List Char)
  | 0, _ => none
  | fuel + 1, cs =>
    match cs with
    | [] => none
    | '"' :: rest => do
      let (text, rest) ← readString? rest
      some (match text with
        | some s => .string s
        | none => .broken, rest)
    | '[' :: rest =>
      match skipBlank rest with
      | ']' :: rest => some (.array [], rest)
      | rest => do
        let (items, rest) ← readItems? fuel rest
        some (.array items, rest)
    | '\x7b' :: rest =>
      match skipBlank rest with
      | '\x7d' :: rest => some (.object [], rest)
      | rest => do
        let (members, rest) ← readMembers? fuel rest
        some (match members with
          | some members => .object members
          | none => .broken, rest)
    | 'n' :: rest => (dropWord? ['u', 'l', 'l'] rest).map (.null, ·)
    | 't' :: rest => (dropWord? ['r', 'u', 'e'] rest).map (.bool true, ·)
    | 'f' :: rest => (dropWord? ['a', 'l', 's', 'e'] rest).map (.bool false, ·)
    | cs => (Numeral.read? cs).map fun (n, rest) => (.number n, rest)

/-- The items of an array that has at least one, up to its bracket. -/
def readItems? : Nat → List Char → Option (List Json × List Char)
  | 0, _ => none
  | fuel + 1, cs => do
    let (item, rest) ← readValue? fuel cs
    match skipBlank rest with
    | ']' :: rest => some ([item], rest)
    | ',' :: rest => do
      let (items, rest) ← readItems? fuel (skipBlank rest)
      some (item :: items, rest)
    | _ => none

/-- The members of an object that has at least one, up to its brace; there are none to speak of where
    a name is broken. -/
def readMembers? : Nat → List Char → Option (Option (List (String × Json)) × List Char)
  | 0, _ => none
  | fuel + 1, cs =>
    match cs with
    | '"' :: rest => do
      let (name, rest) ← readString? rest
      match skipBlank rest with
      | ':' :: rest => do
        let (value, rest) ← readValue? fuel (skipBlank rest)
        let member := name.map (·, value)
        match skipBlank rest with
        | '\x7d' :: rest => some (member.map ([·]), rest)
        | ',' :: rest => do
          let (members, rest) ← readMembers? fuel (skipBlank rest)
          some (do some ((← member) :: (← members)), rest)
        | _ => none
      | _ => none
    | _ => none

end

/-- The value of a whole text. -/
def readChars? (cs : List Char) : Option Json := do
  let cs := skipBlank cs
  let (value, rest) ← readValue? (cs.length + 1) cs
  if (skipBlank rest).isEmpty then some value else none

def read? (s : String) : Option Json :=
  if s.toList.contains '\x00' then none else readChars? s.toList

/-! ## 3. Bytes -/

/-- The characters of some bytes from number `i` on, a zero for every byte that belongs to none. -/
def charsFrom (bytes : ByteArray) (i : Nat) : List Char :=
  if _h : i < bytes.size then
    match bytes.utf8DecodeChar? i with
    | some c => c :: charsFrom bytes (i + c.utf8Size)
    | none => '\x00' :: charsFrom bytes (i + 1)
  else []
termination_by bytes.size - i
decreasing_by
  · have := c.utf8Size_pos
    omega
  · omega

/-- The value of a whole file.  Only inside string literals may there be bytes that belong to no
    character. -/
def readBytes? (bytes : List UInt8) : Option Json :=
  match String.fromUTF8? ⟨bytes.toArray⟩ with
  | some s => read? s
  | none => if bytes.contains 0 then none else readChars? (charsFrom ⟨bytes.toArray⟩ 0)

end ScriptHost.Json
