import DocTags.Block
import DocTags.Proofs.Line.MostSpecific
import DocTags.Proofs.Text.Contains

/-!
Mentions of a tag. A text mentions a tag if one of its spellings stands anywhere in it, be it inside
a longer word; a line is classified by the longest spelling that begins it and ends there as a word.
What a line is tagged as, it therefore mentions.
-/

namespace DocTags

namespace Grammar

theorem mentions_iff {g : Grammar} {tag : Tag} {text : Text} :
    g.mentions tag text = true ↔ ∃ marker ∈ g.spellings tag, marker ≠ [] ∧ marker <:+: text := by
  simp [mentions, Text.contains_iff_infix]

/-- A comment mentions the tag that it begins with, whichever of its spellings was found there. The
mark of a block is cut off, and so need not be mentioned. -/
theorem mentions_of_classify {g : Grammar} {line body rest : Text} {tag : Tag}
    (h : Line.classify g line = .tagged tag body rest) (htag : tag ≠ .blockStart) :
    g.mentions tag body = true := by
  have hrule := Line.classified_classify g line
  rw [h] at hrule
  cases hrule with
  | blockStart => exact absurd rfl htag
  | @tagged r _ marker after _ _ _ hspecific =>
      have hmarker := hspecific.isCandidate
      refine mentions_iff.2 ⟨marker, hmarker.spelling, hmarker.ne_nil, ?_⟩
      exact List.IsPrefix.isInfix ⟨after, hmarker.body_eq.symm⟩

end Grammar

/-- A comment line of a source mentions the tag that it has. -/
theorem CommentLine.mentions_of_ofLine? {g : Grammar} {n : Nat} {line : Text} {l : CommentLine}
    (h : CommentLine.ofLine? n (Line.classify g line) = some l) {tag : Tag}
    (hl : l.has tag = true) (htag : tag ≠ .blockStart) : g.mentions tag l.text = true := by
  rw [has_iff] at hl
  cases hclass : Line.classify g line with
  | code => simp [hclass, ofLine?] at h
  | plain text =>
      obtain rfl : ⟨n, none, text, text⟩ = l := by simpa [hclass, ofLine?] using h
      cases hl
  | tagged t body rest =>
      obtain rfl : ⟨n, some t, body, rest⟩ = l := by simpa [hclass, ofLine?] using h
      cases hl
      exact Grammar.mentions_of_classify hclass htag

end DocTags
