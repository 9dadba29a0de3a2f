/-!
Text as a list of characters, and the cuts that the readers of this library make in it. Every cut
is a recursion on the characters, so that nothing of a text is lost without a lemma saying so:
`cut?` and `after?` are characterised by the equation that puts their parts together again.
-/

namespace DocTags

/-- Text is held as its characters: the rules of the formats are recursions over them. -/
abbrev Text := List Char

namespace Text

/-- Cuts a text at the first character that satisfies `p`, which belongs to neither part. -/
def cut? (p : Char → Bool) : Text → Option (Text × Text)
  | [] => none
  | c :: s =>
    if p c then some ([], s)
    else (cut? p s).map fun (before, after) => (c :: before, after)

/-- What follows the last character that satisfies `p`. -/
def afterLast? (p : Char → Bool) : Text → Option Text
  | [] => none
  | c :: s =>
    match afterLast? p s with
    | some after => some after
    | none => if p c then some s else none

/-- What follows `lead`, if the text begins with it. -/
def after? : (lead : Text) → Text → Option Text
  | [], s => some s
  | _ :: _, [] => none
  | l :: lead, c :: s => if l = c then after? lead s else none

def contains (part : Text) : Text → Bool
  | [] => part.isPrefixOf []
  | c :: s => part.isPrefixOf (c :: s) || contains part s

/-- Puts one character in front of the first piece. -/
def consPiece (c : Char) : List Text → List Text
  | [] => [[c]]
  | piece :: pieces => (c :: piece) :: pieces

/-- The pieces of a text between the occurrences of a separator; there is always at least one. -/
def pieces (sep : Char) (s : Text) : List Text :=
  s.foldr (fun c ps => if c = sep then [] :: ps else consPiece c ps) [[]]

/-- Leaves out a last piece that is empty. -/
def dropLastEmpty : List Text → List Text
  | [] => []
  | [piece] => if piece.isEmpty then [] else [piece]
  | piece :: next :: rest => piece :: dropLastEmpty (next :: rest)

/-- The lines of a text. A line break ends a line, so that a text which ends in one has no empty
last line; a carriage return before it stays in the line, where it counts as a blank. -/
def lines (s : Text) : List Text :=
  dropLastEmpty (pieces '\n' s)

/-- Writes texts one after the other with `sep` between them. -/
def join (sep : Text) (parts : List Text) : Text :=
  sep.intercalate parts

/-- Writes lines one below the other, without a final line break. -/
def joinLines (parts : List Text) : Text :=
  join ['\n'] parts

/-- The length of a text in UTF-8. -/
def byteLength : Text → Nat
  | [] => 0
  | c :: s => c.utf8Size + byteLength s

def ofNat (n : Nat) : Text :=
  Nat.toDigits 10 n

/-- The text itself, unless it is empty. -/
def nonempty? (s : Text) : Option Text :=
  if s.isEmpty then none else some s

theorem cut?_eq_some {p : Char → Bool} {s before after : Text}
    (h : cut? p s = some (before, after)) :
    ∃ c, p c = true ∧ s = before ++ c :: after ∧ ∀ x ∈ before, p x = false := by
  induction s generalizing before with
  | nil => simp [cut?] at h
  | cons c s ih =>
    rw [cut?] at h
    split at h
    · next hc =>
      obtain ⟨rfl, rfl⟩ := Prod.mk.injEq .. ▸ Option.some.injEq .. ▸ h
      exact ⟨c, hc, rfl, by simp⟩
    · next hc =>
      obtain ⟨⟨b, a⟩, hs, he⟩ := Option.map_eq_some_iff.1 h
      obtain ⟨rfl, rfl⟩ := Prod.mk.injEq .. ▸ he
      obtain ⟨d, hd, rfl, hb⟩ := ih hs
      exact ⟨d, hd, rfl, by simpa [hc] using hb⟩

theorem after?_append (lead s : Text) : after? lead (lead ++ s) = some s := by
  induction lead with
  | nil => cases s <;> rfl
  | cons l lead ih => simp [after?, ih]

theorem eq_append_of_after? {lead s rest : Text} (h : after? lead s = some rest) :
    s = lead ++ rest := by
  induction lead generalizing s with
  | nil => cases s <;> simp_all [after?]
  | cons l lead ih =>
    cases s with
    | nil => simp [after?] at h
    | cons c s =>
      simp only [after?] at h
      split at h
      · next hc => rw [hc, ih h, List.cons_append]
      · simp at h

theorem after?_eq_some_iff {lead s rest : Text} : after? lead s = some rest ↔ s = lead ++ rest :=
  ⟨eq_append_of_after?, fun h => h ▸ after?_append lead rest⟩

theorem byteLength_append (s t : Text) : byteLength (s ++ t) = byteLength s + byteLength t := by
  induction s with
  | nil => simp [byteLength]
  | cons c s ih => simp [byteLength, ih, Nat.add_assoc]

end Text
end DocTags
