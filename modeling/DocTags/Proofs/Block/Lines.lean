import DocTags.Proofs.Block.Partition
import DocTags.Proofs.Line.Candidates
import DocTags.Proofs.Text.Pieces
import DocTags.Proofs.Text.Trim

/-!
The lines of blocks as parts of source lines. Every line of a block is what a source line is
classified as, and holds no character that is not in that source line; line breaks are in none. Its
number is that of the source line, so that the numbers rise through each block and from block to
block, and no two lines share one.
-/

namespace DocTags

namespace Line

theorem subset_of_afterMark? {mark line rest : Text} (h : afterMark? mark line = some rest) :
    rest ⊆ line := by
  intro c hc
  unfold afterMark? at h
  split at h
  · cases h
  · obtain ⟨s, hs, rfl⟩ := Option.map_eq_some_iff.1 h
    rw [Text.eq_append_of_after? hs]
    exact List.mem_append_right mark (Text.mem_of_mem_trim hc)

theorem rest_subset_of_ofComment {g : Grammar} {body body' rest : Text} {tag : Tag}
    (h : ofComment g body = .tagged tag body' rest) : rest ⊆ body := by
  intro c hc
  unfold ofComment at h
  split at h
  · next m hm =>
      cases h
      rw [eq_append_of_mem_candidates (mem_of_longest? hm)]
      exact List.mem_append_right _ (Text.mem_of_mem_trim hc)
  · cases h

theorem rest_subset_of_classify {g : Grammar} {line body rest : Text} {tag : Tag}
    (h : classify g line = .tagged tag body rest) : rest ⊆ line := by
  intro c hc
  unfold classify at h
  dsimp only at h
  split at h
  · next hmark =>
      cases h
      exact Text.mem_of_mem_trim (subset_of_afterMark? hmark hc)
  · split at h
    · next hmark =>
        exact Text.mem_of_mem_trim
          (subset_of_afterMark? hmark (rest_subset_of_ofComment h hc))
    · cases h

theorem subset_of_classify_plain {g : Grammar} {line text : Text}
    (h : classify g line = .plain text) : text ⊆ line := by
  intro c hc
  unfold classify ofComment at h
  dsimp only at h
  split at h
  · cases h
  · split at h
    · next hmark =>
        split at h
        · cases h
        · cases h
          exact Text.mem_of_mem_trim (subset_of_afterMark? hmark hc)
    · cases h

end Line

namespace Block

/-- Every line of a block is what a source line is classified as. -/
theorem exists_line_of_mem {g : Grammar} {source : Text} {b : Block} (hb : b ∈ ofSource g source)
    {l : CommentLine} (hl : l ∈ b.lines) :
    ∃ i line, (Text.lines source)[i]? = some line ∧
      CommentLine.ofLine? (i + 1) (Line.classify g line) = some l := by
  have hmem : l ∈ (ofSource g source).flatMap (·.lines) := List.mem_flatMap.2 ⟨b, hb, hl⟩
  rw [(isPartition_ofSource g source).lines_eq] at hmem
  obtain ⟨⟨line, i⟩, hline, hclass⟩ := List.mem_filterMap.1 hmem
  exact ⟨i, line, List.mem_zipIdx_iff_getElem?.1 hline, hclass⟩

theorem rest_subset_of_ofLine? {g : Grammar} {n : Nat} {line : Text} {l : CommentLine}
    (h : CommentLine.ofLine? n (Line.classify g line) = some l) : l.rest ⊆ line := by
  cases hclass : Line.classify g line with
  | code => simp [hclass, CommentLine.ofLine?] at h
  | plain text =>
      simp only [hclass, CommentLine.ofLine?, Option.some.injEq] at h
      subst h
      exact Line.subset_of_classify_plain hclass
  | tagged tag body rest =>
      simp only [hclass, CommentLine.ofLine?, Option.some.injEq] at h
      subst h
      exact Line.rest_subset_of_classify hclass

/-- What follows a tag never goes beyond its line. -/
theorem not_mem_rest_of_mem {g : Grammar} {source : Text} {b : Block} (hb : b ∈ ofSource g source)
    {l : CommentLine} (hl : l ∈ b.lines) : '\n' ∉ l.rest := by
  obtain ⟨i, line, hline, hclass⟩ := exists_line_of_mem hb hl
  intro hn
  exact Text.not_mem_of_mem_lines (List.mem_of_getElem? hline) (rest_subset_of_ofLine? hclass hn)

/-! ### Numbers -/

/-- Line `n` of a source begins with the tag. -/
def IsTagged (g : Grammar) (source : Text) (tag : Tag) (n : Nat) : Prop :=
  ∃ i line body rest, n = i + 1 ∧ (Text.lines source)[i]? = some line ∧
    Line.classify g line = .tagged tag body rest

theorem isTagged_of_mem {g : Grammar} {source : Text} {b : Block} (hb : b ∈ ofSource g source)
    {l : CommentLine} (hl : l ∈ b.lines) {tag : Tag} (htag : l.has tag = true) :
    IsTagged g source tag l.number := by
  obtain ⟨i, line, hline, hclass⟩ := exists_line_of_mem hb hl
  have hnumber := number_of_ofLine? hclass
  rw [CommentLine.has_iff] at htag
  cases hkind : Line.classify g line with
  | code => simp [hkind, CommentLine.ofLine?] at hclass
  | plain text =>
      rw [hkind, CommentLine.ofLine?, Option.some.injEq] at hclass
      simp [← hclass] at htag
  | tagged other body rest =>
      rw [hkind, CommentLine.ofLine?, Option.some.injEq] at hclass
      obtain rfl : other = tag := by simpa [← hclass] using htag
      exact ⟨i, line, body, rest, hnumber, hline, hkind⟩

theorem number_of_mem {g : Grammar} {source : Text} {b : Block} (hb : b ∈ ofSource g source)
    {l : CommentLine} (hl : l ∈ b.lines) :
    1 ≤ l.number ∧ l.number ≤ (Text.lines source).length := by
  obtain ⟨i, line, hline, hclass⟩ := exists_line_of_mem hb hl
  have hi : i < (Text.lines source).length := (List.getElem?_eq_some_iff.1 hline).1
  have hnumber := number_of_ofLine? hclass
  omega

/-- Line numbers rise through each block, and from each block to those below it. -/
theorem pairwise_number_ofSource (g : Grammar) (source : Text) :
    (∀ b ∈ ofSource g source, b.lines.Pairwise fun l m => l.number < m.number) ∧
    (ofSource g source).Pairwise fun b c => ∀ l ∈ b.lines, ∀ m ∈ c.lines, l.number < m.number := by
  rw [← List.pairwise_flatMap, (isPartition_ofSource g source).lines_eq,
    ← reduceOption_sourceLines]
  exact (numbered_sourceLines g source).pairwise

theorem nodup_ofSource (g : Grammar) (source : Text) : (ofSource g source).Nodup := by
  refine (pairwise_number_ofSource g source).2.imp_of_mem fun {b c} hb _ hbc heq => ?_
  obtain ⟨l, hl⟩ :=
    List.exists_mem_of_ne_nil _ ((isPartition_ofSource g source).runs b hb).ne_nil
  exact Nat.lt_irrefl _ (hbc l hl l (heq ▸ hl))

/-- A number belongs to one block at most. -/
theorem eq_of_number_eq {g : Grammar} {source : Text} {b c : Block} (hb : b ∈ ofSource g source)
    (hc : c ∈ ofSource g source) {l m : CommentLine} (hl : l ∈ b.lines) (hm : m ∈ c.lines)
    (h : l.number = m.number) : b = c := by
  have hdisjoint : (ofSource g source).Pairwise fun b c =>
      ∀ l ∈ b.lines, ∀ m ∈ c.lines, l.number ≠ m.number :=
    (pairwise_number_ofSource g source).2.imp fun h l hl m hm => Nat.ne_of_lt (h l hl m hm)
  have : Std.Symm fun b c : Block => ∀ l ∈ b.lines, ∀ m ∈ c.lines, l.number ≠ m.number :=
    ⟨fun b c h l hl m hm => (h m hm l hl).symm⟩
  by_contra hne
  exact hdisjoint.forall hb hc hne l hl m hm h

end Block
end DocTags
