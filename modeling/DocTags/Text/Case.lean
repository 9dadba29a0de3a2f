import DocTags.Text.Basic

/-!
Comparison of tokens without regard to the case of ASCII letters. Letters outside ASCII are equal
to themselves only.
-/

namespace DocTags.Text

/-- Writes the ASCII letters of a text in lower case. -/
def lower (s : Text) : Text :=
  s.map Char.toLower

/-- Whether two texts differ at most in the case of ASCII letters. -/
def sameLetters (s t : Text) : Bool :=
  lower s == lower t

end DocTags.Text
