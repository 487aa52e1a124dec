import ScriptHost.Text.Invisible

/-!
# Quoted — text between double quotes, fit for a message

A quote and a backslash take a backslash, the common control characters their letter, and every
other character without a glyph its code point in hexadecimal.
-/

namespace ScriptHost.Text

/-- The digits of `n` to base sixteen, lower case, without leading zeros. -/
def hexDigits (n : Nat) : List Char := Nat.toDigits 16 n

/-- The spelling of one character between double quotes. -/
def quotedChar (c : Char) : List Char :=
  match c with
  | '\x00' => ['\\', '0']
  | '\t' => ['\\', 't']
  | '\n' => ['\\', 'n']
  | '\r' => ['\\', 'r']
  | '"' => ['\\', '"']
  | '\\' => ['\\', '\\']
  | c =>
    if c.toNat < 0x20 || c.toNat == 0x7f || (0x80 ≤ c.toNat && isInvisible c) then
      ['\\', 'u', '\x7b'] ++ hexDigits c.toNat ++ ['\x7d']
    else [c]

/-- `s` between double quotes. -/
def quoted (s : String) : String :=
  String.ofList ('"' :: s.toList.flatMap quotedChar ++ ['"'])

/-- `n` to base sixteen in exactly `width` digits: higher digits are dropped, missing ones are zero. -/
def hexPadded (width : Nat) (n : Nat) : String :=
  let digits := Nat.toDigits 16 n
  String.ofList ((List.replicate (width - digits.length) '0' ++ digits).drop (digits.length - width))

end ScriptHost.Text
