import DocTags.Text.Basic

/-!
Blank characters and trimming. Blank are the characters with the Unicode property `White_Space`;
zero-width marks such as U+200B and U+FEFF do not have it.
-/

namespace DocTags

/-- The Unicode property `White_Space`. -/
def isBlank (c : Char) : Bool :=
  let n := c.toNat
  (9 ≤ n && n ≤ 13) || n == 0x20 || n == 0x85 || n == 0xA0 || n == 0x1680 ||
    (0x2000 ≤ n && n ≤ 0x200A) || n == 0x2028 || n == 0x2029 || n == 0x202F || n == 0x205F ||
    n == 0x3000

namespace Text

def trimStart (s : Text) : Text :=
  s.dropWhile isBlank

def trimEnd (s : Text) : Text :=
  (s.reverse.dropWhile isBlank).reverse

def trim (s : Text) : Text :=
  trimEnd (trimStart s)

/-- Leaves out every `mark` at both ends. -/
def trimMarks (mark : Char) (s : Text) : Text :=
  ((s.dropWhile (· == mark)).reverse.dropWhile (· == mark)).reverse

end Text
end DocTags
