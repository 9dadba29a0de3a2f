import DocTags.Proofs.PathGroup.Normalize
import Mathlib.Data.List.Forall2

/-!
Which paths are the same. Writing parameters in braces identifies as much as it has to and no more:
two paths come out equal exactly if they agree segment by segment, but for a parameter that one of
them writes with a colon and the other one in braces.
-/

namespace DocTags

/-- Segments that are the same text, or the two ways to write one parameter. The name of a parameter
may be any text, also an empty one or one that begins with a colon itself. -/
inductive SameSegment : Text → Text → Prop where
  | refl (s : Text) : SameSegment s s
  | colon (name : Text) : SameSegment (':' :: name) ('{' :: name ++ ['}'])
  | braces (name : Text) : SameSegment ('{' :: name ++ ['}']) (':' :: name)

/-- Segments are written with a colon, or they stay as they are. -/
theorem segment_cases (s : Text) :
    (∃ name, s = ':' :: name) ∨ s.head? ≠ some ':' ∧ normalizeSegment s = s := by
  cases s with
  | nil => exact .inr ⟨by simp, rfl⟩
  | cons c s =>
      by_cases hc : c = ':'
      · exact .inl ⟨s, by rw [hc]⟩
      · exact .inr ⟨by simpa using hc, normalizeSegment_cons_of_ne hc s⟩

theorem normalizeSegment_eq_self_iff {s : Text} :
    normalizeSegment s = s ↔ s.head? ≠ some ':' := by
  rcases segment_cases s with ⟨name, rfl⟩ | ⟨hhead, hs⟩
  · simp [normalizeSegment]
  · exact iff_of_true hs hhead

theorem normalizeSegment_eq_iff {s t : Text} :
    normalizeSegment s = normalizeSegment t ↔ SameSegment s t := by
  constructor
  · intro h
    rcases segment_cases s with ⟨name, rfl⟩ | ⟨-, hs⟩ <;>
      rcases segment_cases t with ⟨other, rfl⟩ | ⟨-, ht⟩
    · obtain rfl : name = other := by simpa [normalizeSegment] using h
      exact .refl _
    · rw [ht] at h
      exact h ▸ .colon name
    · rw [hs] at h
      exact h ▸ .braces other
    · rw [hs, ht] at h
      exact h ▸ .refl s
  · intro h
    cases h with
    | refl => rfl
    | colon name => exact (normalizeSegment_cons_of_ne (by decide) _).symm
    | braces name => exact normalizeSegment_cons_of_ne (by decide) _

/-- Normalised paths are equal where their segments are, one by one. -/
theorem normalizePath_eq_iff_forall₂ {a b : Text} :
    normalizePath a = normalizePath b ↔
      List.Forall₂ SameSegment (Text.pieces '/' a) (Text.pieces '/' b) := by
  have hsegments : normalizePath a = normalizePath b ↔
      (Text.pieces '/' a).map normalizeSegment = (Text.pieces '/' b).map normalizeSegment := by
    rw [← pieces_normalizePath, ← pieces_normalizePath, Text.pieces_inj]
  rw [hsegments, ← List.forall₂_eq_eq_eq, List.forall₂_map_left_iff, List.forall₂_map_right_iff]
  simp only [normalizeSegment_eq_iff]

theorem normalizePath_eq_self_iff {a : Text} :
    normalizePath a = a ↔ ∀ s ∈ Text.pieces '/' a, s.head? ≠ some ':' := by
  have hsegments : (Text.pieces '/' a).map normalizeSegment = (Text.pieces '/' a).map id ↔
      ∀ s ∈ Text.pieces '/' a, normalizeSegment s = id s := List.map_inj_left
  rw [List.map_id] at hsegments
  rw [← Text.pieces_inj, pieces_normalizePath, hsegments]
  simp only [id_eq, normalizeSegment_eq_self_iff]

/-- What writing parameters in braces does to paths. Doing it again changes nothing, no segment is
added or lost, the paths without a colon at the start of a segment stay as they are, and the paths
that become equal are those with the same segments up to the two ways to write a parameter. -/
theorem normalizePath_identifies (a b : Text) :
    normalizePath (normalizePath a) = normalizePath a ∧
    (Text.pieces '/' (normalizePath a)).length = (Text.pieces '/' a).length ∧
    (normalizePath a = a ↔ ∀ s ∈ Text.pieces '/' a, s.head? ≠ some ':') ∧
    (normalizePath a = normalizePath b ↔
      List.Forall₂ SameSegment (Text.pieces '/' a) (Text.pieces '/' b)) := by
  refine ⟨normalizePath_normalizePath a, ?_, normalizePath_eq_self_iff,
    normalizePath_eq_iff_forall₂⟩
  rw [pieces_normalizePath, List.length_map]

/-- Of these two paths each one writes one of the parameters in braces. -/
example : normalizePath "/w/:id/{k}".toList = normalizePath "/w/{id}/:k".toList := by decide

end DocTags
