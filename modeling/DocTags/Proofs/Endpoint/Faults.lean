import DocTags.Proofs.Endpoint.Items

/-!
Where the problems of an endpoint block lie. Every problem is one of the three malformations, and it
has the number of a line of the block that carries the tag in question.
-/

namespace DocTags

/-- A problem of an endpoint block, as opposed to one of a file, of a model or between files. -/
def Problem.isMalformed : Problem → Bool
  | malformedPath _ _ | malformedParameter _ _ | malformedResponse _ => true
  | _ => false

/-- The problem is one of a line among these, and of the tag of that line. -/
def Problem.LiesIn (lines : List CommentLine) : Problem → Prop
  | malformedPath n _ => ∃ l ∈ lines, l.number = n ∧ l.has .path = true
  | malformedParameter n _ => ∃ l ∈ lines, l.number = n ∧ l.has .parameter = true
  | malformedResponse n => ∃ l ∈ lines, l.number = n ∧ l.has .response = true
  | _ => False

theorem Problem.LiesIn.isMalformed {lines : List CommentLine} {p : Problem}
    (h : p.LiesIn lines) : p.isMalformed = true := by
  cases p with
  | malformedPath | malformedParameter | malformedResponse => rfl
  | unreadable | unlisted | missingResource | ambiguousModel | duplicateOperation => exact h.elim

theorem CommentLine.HasFault.liesIn {l : CommentLine} {p : Problem} (h : l.HasFault p)
    {lines : List CommentLine} (hl : l ∈ lines) : p.LiesIn lines := by
  cases h with
  | noLocation htag | unknownLocation htag | noCode htag => exact ⟨l, hl, rfl, htag⟩

namespace Operation

theorem liesIn_of_readItems_error {lines : List CommentLine} {p : Problem}
    (h : readItems lines = .error p) : p.LiesIn lines := by
  obtain ⟨above, l, below, hlines, -, hl⟩ := exists_hasFault_of_readItems_error h
  exact hl.liesIn (by simp [hlines])

end Operation

namespace Endpoint

/-- A block with a path line is only left out for a line in it. -/
theorem liesIn_of_ofBlock_error {resource : Resource} {b : Block} {p : Problem}
    (hpath : b.has .path = true) (h : ofBlock resource b = .error p) : p.LiesIn b.lines := by
  unfold ofBlock at h
  split at h
  · next hnone =>
      rw [Block.splitAt?_eq_none_iff] at hnone
      obtain ⟨l, hl, htag⟩ := List.any_eq_true.1 hpath
      simp [hnone l hl] at htag
  · next above l below hsome =>
      obtain ⟨hlines, htag, -⟩ := Block.splitAt?_eq_some hsome
      split at h
      · cases h
        exact ⟨l, by simp [hlines], rfl, htag⟩
      · exact Operation.liesIn_of_readItems_error (error_of_map_error h)

end Endpoint
end DocTags
