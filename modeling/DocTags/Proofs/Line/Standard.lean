import DocTags.Proofs.Block.Lines
import DocTags.Proofs.Text.Trim

/-!
Lines as they are written with the standard spellings. Whatever stands behind a comment mark and a
blank is a comment, and a spelling with a blank behind it is always found, since no spelling can be
taken for another one that begins with it.
-/

namespace DocTags.Line

open Grammar (standard)

theorem classify_blockMark : classify standard standard.blockMark = .tagged .blockStart [] [] := by
  decide

/-- A comment as it is written: behind the comment mark and a blank. -/
def written (s : Text) : Text :=
  standard.commentMark ++ ' ' :: s

theorem classify_written (s : Text) :
    classify standard (written s) = ofComment standard (Text.trim s) := by
  have htrim : Text.trim (written s) = '#' :: Text.trimEnd (' ' :: s) := by
    rw [Text.trim, show written s = '#' :: ' ' :: s from rfl, Text.trimStart_cons (by decide),
      Text.trimEnd_cons, if_neg fun h => absurd h.2 (by decide)]
  have hblock : afterMark? standard.blockMark ('#' :: Text.trimEnd (' ' :: s)) = none := by
    rw [Text.trimEnd_cons]
    split <;> rfl
  have hcomment : afterMark? standard.commentMark ('#' :: Text.trimEnd (' ' :: s)) =
      some (Text.trim s) := by
    have hafter : Text.after? standard.commentMark ('#' :: Text.trimEnd (' ' :: s)) =
        some (Text.trimEnd (' ' :: s)) := Text.after?_append ['#'] _
    rw [afterMark?, hafter, Option.map_some, Text.trim_trimEnd,
      Text.trim_cons_of_isBlank (by decide)]
    rfl
  rw [classify, htrim, hblock, hcomment]

/-! ### Spellings -/

/-- Where one spelling begins with another one, the word goes on behind that one. -/
theorem spellings_apart : ∀ tag ∈ Tag.declared, ∀ marker ∈ standard.spellings tag,
    ∀ tag' ∈ Tag.declared, ∀ marker' ∈ standard.spellings tag', marker <+: marker' →
      (tag = tag' ∧ marker = marker') ∨ endsWord (marker'.drop marker.length) = false := by
  decide

theorem spellings_isTrimmed : ∀ tag ∈ Tag.declared, ∀ marker ∈ standard.spellings tag,
    marker ≠ [] ∧ marker.IsTrimmed := by
  decide

theorem not_mem_spellings : ∀ tag ∈ Tag.declared, ∀ marker ∈ standard.spellings tag,
    '\n' ∉ marker := by
  decide

theorem head?_spellings : ∀ tag ∈ Tag.declared, ∀ marker ∈ standard.spellings tag,
    marker.head? = some '@' := by
  decide

theorem endsWord_append {s : Text} (hs : s ≠ []) (t : Text) : endsWord (s ++ t) = endsWord s := by
  cases s with
  | nil => exact absurd rfl hs
  | cons c s => rfl

/-- One spelling at the start of a comment can not go beyond another one that ends there. -/
theorem eq_of_isPrefix {m n : Match} {body : Text} (hm : m ∈ candidates standard body)
    (hn : n ∈ candidates standard body) (h : m.marker <+: n.marker) : m = n := by
  obtain ⟨hmtag, hmmarker, hmrest⟩ := mem_candidates.1 hm
  obtain ⟨hntag, hnmarker, hnrest⟩ := mem_candidates.1 hn
  obtain ⟨-, hmbody, hmend⟩ := afterMarker?_eq_some_iff.1 hmrest
  obtain ⟨-, hnbody, -⟩ := afterMarker?_eq_some_iff.1 hnrest
  rcases spellings_apart _ hmtag _ hmmarker _ hntag _ hnmarker h with ⟨htag, hmarker⟩ | hword
  · obtain ⟨mtag, mmarker, mrest⟩ := m
    obtain ⟨ntag, nmarker, nrest⟩ := n
    obtain rfl : mtag = ntag := htag
    obtain rfl : mmarker = nmarker := hmarker
    obtain rfl : mrest = nrest := List.append_cancel_left (hmbody.symm.trans hnbody)
    rfl
  · -- The shorter spelling would end inside a word.
    obtain ⟨more, hmore⟩ := h
    have hrest : m.rest = more ++ n.rest := by
      rw [hmbody, ← hmore, List.append_assoc] at hnbody
      exact List.append_cancel_left hnbody
    rw [← hmore, List.drop_left] at hword
    have hne : more ≠ [] := by
      rintro rfl
      cases hword
    rw [hrest, endsWord_append hne, hword] at hmend
    cases hmend

theorem eq_of_mem_candidates {m n : Match} {body : Text} (hm : m ∈ candidates standard body)
    (hn : n ∈ candidates standard body) : m = n := by
  have hmbody : m.marker <+: body := ⟨_, (eq_append_of_mem_candidates hm).symm⟩
  have hnbody : n.marker <+: body := ⟨_, (eq_append_of_mem_candidates hn).symm⟩
  rcases List.prefix_or_prefix_of_prefix hmbody hnbody with h | h
  · exact eq_of_isPrefix hm hn h
  · exact (eq_of_isPrefix hn hm h).symm

theorem ofComment_spelling {tag : Tag} {marker tail : Text} (htag : tag ∈ Tag.declared)
    (hmarker : marker ∈ standard.spellings tag) (htail : endsWord tail = true) :
    ofComment standard (marker ++ tail) = .tagged tag (marker ++ tail) (Text.trim tail) := by
  have hne : marker ≠ [] := (spellings_isTrimmed tag htag marker hmarker).1
  have hmem : ⟨tag, marker, tail⟩ ∈ candidates standard (marker ++ tail) :=
    mem_candidates.2 ⟨htag, hmarker, afterMarker?_eq_some_iff.2 ⟨hne, rfl, htail⟩⟩
  obtain ⟨m, hm⟩ := Option.ne_none_iff_exists'.1 (longest?_ne_none hmem)
  rw [ofComment, hm, eq_of_mem_candidates (mem_of_longest? hm) hmem]

/-- A comment that does not begin as the spellings do has no tag. -/
theorem ofComment_of_head {body : Text} (h : body.head? ≠ some '@') :
    ofComment standard body = .plain body := by
  have hnone : candidates standard body = [] := by
    refine List.eq_nil_iff_forall_not_mem.2 fun m hm => h ?_
    obtain ⟨htag, hmarker, -⟩ := mem_candidates.1 hm
    rw [eq_append_of_mem_candidates hm, List.head?_append, head?_spellings _ htag _ hmarker]
    rfl
  rw [ofComment, hnone, longest?]

/-- A line with a tag as it is written: a spelling of the tag, a blank, and a text. -/
theorem classify_written_spelling {tag : Tag} {marker : Text} (htag : tag ∈ Tag.declared)
    (hmarker : marker ∈ standard.spellings tag) (s : Text) :
    classify standard (written (marker ++ ' ' :: s)) =
      .tagged tag (Text.trim (marker ++ ' ' :: s)) (Text.trim s) := by
  obtain ⟨hne, htrimmed⟩ := spellings_isTrimmed tag htag marker hmarker
  have htail : endsWord (Text.trimEnd (' ' :: s)) = true := by
    rw [Text.trimEnd_cons]
    split <;> rfl
  rw [classify_written, Text.trim_append htrimmed hne, ofComment_spelling htag hmarker htail,
    Text.trim_trimEnd, Text.trim_cons_of_isBlank (by decide)]

end DocTags.Line
