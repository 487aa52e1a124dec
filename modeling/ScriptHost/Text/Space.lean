/-!
# Space — blanks around and between words

Blanks are the characters of the property White_Space.
-/

namespace ScriptHost.Text

/-- The characters of the property White_Space. -/
def isSpace (c : Char) : Bool :=
  let n := c.toNat
  (0x9 ≤ n && n ≤ 0xD) || n == 0x20 || n == 0x85 || n == 0xA0 || n == 0x1680 ||
    (0x2000 ≤ n && n ≤ 0x200A) || n == 0x2028 || n == 0x2029 || n == 0x202F || n == 0x205F ||
    n == 0x3000

/-- The text without the blanks around it. -/
def trim (cs : List Char) : List Char :=
  ((cs.dropWhile isSpace).reverse.dropWhile isSpace).reverse

/-- The words between blanks; `word` holds what has been read of the first one, last character first. -/
def wordsFrom (word : List Char) : List Char → List (List Char)
  | [] => if word.isEmpty then [] else [word.reverse]
  | c :: cs =>
    if !isSpace c then wordsFrom (c :: word) cs
    else if word.isEmpty then wordsFrom [] cs
    else word.reverse :: wordsFrom [] cs

/-- The words between blanks. -/
def words (cs : List Char) : List (List Char) := wordsFrom [] cs

end ScriptHost.Text
