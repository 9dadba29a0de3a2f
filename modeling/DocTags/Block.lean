import DocTags.Line

/-!
Blocks of comment lines. A block is a run of comment lines that follow each other without a gap; a
line with the block mark begins a new one. What a block documents is decided by its tags.
-/

namespace DocTags

/-- A comment line of a source. -/
structure CommentLine where
  /-- Its line number; the first line of a source is line 1. -/
  number : Nat
  tag : Option Tag
  text : Text
  /-- What follows the tag; the whole comment where there is no tag. -/
  rest : Text
  deriving DecidableEq, Repr

namespace CommentLine

def has (l : CommentLine) (tag : Tag) : Bool :=
  l.tag = some tag

def isPlain (l : CommentLine) : Bool :=
  l.tag.isNone

theorem has_iff {l : CommentLine} {tag : Tag} : l.has tag = true ↔ l.tag = some tag := by
  simp [has]

theorem has_eq_false_of_has {l : CommentLine} {tag other : Tag} (h : l.has other = true)
    (hne : tag ≠ other) : l.has tag = false := by
  rw [has_iff] at h
  simpa [has, h] using hne.symm

theorem has_eq_false_of_isPlain {l : CommentLine} (h : l.isPlain = true) (tag : Tag) :
    l.has tag = false := by
  rw [isPlain, Option.isNone_iff_eq_none] at h
  simp [has, h]

theorem isPlain_eq_false_of_has {l : CommentLine} {tag : Tag} (h : l.has tag = true) :
    l.isPlain = false := by
  rw [has_iff] at h
  simp [isPlain, h]

/-- The text of a line that starts with no tag and is not empty. -/
def prose? (l : CommentLine) : Option Text :=
  if l.isPlain && !l.text.isEmpty then some l.text else none

/-- The comment line that stands on a source line. -/
def ofLine? (number : Nat) : Line → Option CommentLine
  | .code => none
  | .plain text => some ⟨number, none, text, text⟩
  | .tagged tag body rest => some ⟨number, some tag, body, rest⟩

/-- The texts of the lines without a tag, one below the other. -/
def prose (lines : List CommentLine) : Text :=
  Text.joinLines (lines.filterMap prose?)

end CommentLine

inductive BlockKind where
  /-- The resource that the endpoints after it belong to. -/
  | resource
  | endpoint
  | model
  | commentary
  deriving DecidableEq, Repr

structure Block where
  lines : List CommentLine
  deriving DecidableEq, Repr

namespace Block

def startLine (b : Block) : Nat :=
  match b.lines with
  | [] => 0
  | l :: _ => l.number

def has (b : Block) (tag : Tag) : Bool :=
  b.lines.any (·.has tag)

def kind (b : Block) : BlockKind :=
  if b.has .resource then .resource
  else if b.has .path then .endpoint
  else if b.has .model then .model
  else .commentary

/-- The lines before the first one with the tag, that line, and the lines after it. -/
def splitAt? (tag : Tag) :
    List CommentLine → Option (List CommentLine × CommentLine × List CommentLine)
  | [] => none
  | l :: ls =>
    if l.has tag then some ([], l, ls)
    else (splitAt? tag ls).map fun (before, found, after) => (l :: before, found, after)

theorem splitAt?_eq_some {tag : Tag} {lines above below : List CommentLine} {l : CommentLine}
    (h : splitAt? tag lines = some (above, l, below)) :
    lines = above ++ l :: below ∧ l.has tag = true ∧ ∀ m ∈ above, m.has tag = false := by
  induction lines generalizing above with
  | nil => simp [splitAt?] at h
  | cons m lines ih =>
    rw [splitAt?] at h
    split at h
    · next hm =>
      obtain ⟨rfl, rfl, rfl⟩ : [] = above ∧ m = l ∧ lines = below := by simpa using h
      exact ⟨rfl, hm, by simp⟩
    · next hm =>
      obtain ⟨⟨a, k, b⟩, hs, he⟩ := Option.map_eq_some_iff.1 h
      obtain ⟨rfl, rfl, rfl⟩ : m :: a = above ∧ k = l ∧ b = below := by simpa using he
      obtain ⟨rfl, hk, ha⟩ := ih hs
      exact ⟨rfl, hk, by simpa [hm] using ha⟩

theorem splitAt?_append_cons {tag : Tag} {above below : List CommentLine} {l : CommentLine}
    (habove : ∀ m ∈ above, m.has tag = false) (hl : l.has tag = true) :
    splitAt? tag (above ++ l :: below) = some (above, l, below) := by
  induction above with
  | nil => simp [splitAt?, hl]
  | cons m above ih =>
      rw [List.cons_append, splitAt?, if_neg (by simp [habove m List.mem_cons_self]),
        ih fun k hk => habove k (List.mem_cons_of_mem m hk)]
      rfl

theorem splitAt?_eq_none_iff {tag : Tag} {lines : List CommentLine} :
    splitAt? tag lines = none ↔ ∀ l ∈ lines, l.has tag = false := by
  induction lines with
  | nil => simp [splitAt?]
  | cons l lines ih =>
    rw [splitAt?]
    cases h : l.has tag <;> simp [h, ih]

/-- The blocks of the rest of a source, of which the first may still be continued upwards. -/
structure Runs where
  /-- The comment lines that the rest begins with, up to the next block mark. -/
  leading : List CommentLine
  /-- The blocks behind them. -/
  closed : List Block

/-- All blocks, once nothing can be put in front of them. -/
def Runs.close (r : Runs) : List Block :=
  if r.leading.isEmpty then r.closed else ⟨r.leading⟩ :: r.closed

/-- Puts one more source line in front. A line of code closes the run below it, and so does a block
mark, as the first line of that run. -/
def Runs.push (line : Option CommentLine) (r : Runs) : Runs :=
  match line with
  | none => ⟨[], r.close⟩
  | some l =>
    if l.has .blockStart then ⟨[], ⟨l :: r.leading⟩ :: r.closed⟩
    else ⟨l :: r.leading, r.closed⟩

/-- The source lines of a text, those of code as `none`. -/
def sourceLines (g : Grammar) (source : Text) : List (Option CommentLine) :=
  (Text.lines source).zipIdx.map fun (line, i) =>
    CommentLine.ofLine? (i + 1) (Line.classify g line)

def ofSource (g : Grammar) (source : Text) : List Block :=
  ((sourceLines g source).foldr Runs.push ⟨[], []⟩).close

end Block
end DocTags
