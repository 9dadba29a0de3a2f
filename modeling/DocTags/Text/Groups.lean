import DocTags.Text.Blank

/-!
Bracketed groups of a text. A group runs from an opening mark to the first closing mark after it;
an opening mark inside a group is content, and one that is never closed opens nothing.
-/

namespace DocTags.Text

/-- Reads the groups of the rest of a text. `inside` holds what has been read of the group that is
open, last character first. -/
def groupsFrom (opening closing : Char) : (inside : Option Text) → Text → List Text
  | _, [] => []
  | none, c :: s =>
    if c = opening then groupsFrom opening closing (some []) s
    else groupsFrom opening closing none s
  | some inside, c :: s =>
    if c = closing then trim inside.reverse :: groupsFrom opening closing none s
    else groupsFrom opening closing (some (c :: inside)) s

/-- The trimmed contents of the groups of a text, in order. -/
def groups (opening closing : Char) (s : Text) : List Text :=
  groupsFrom opening closing none s

/-- The content of the first group between parentheses, brackets, or the like. -/
def firstGroup? (opening closing : Char) (s : Text) : Option Text :=
  (groups opening closing s).head?

end DocTags.Text
