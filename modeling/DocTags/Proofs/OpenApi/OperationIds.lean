import DocTags.OpenApi.Build
import DocTags.Proofs.PathGroup.SamePath

/-!
Identifiers of operations that have none of their own. An identifier is the verb and, behind it, the
word characters of the path, segment by segment. How a parameter is written does not show in it,
because the marks of a parameter are no word characters; and the verb does show, because no text
begins with the keys of two verbs, whatever words the path brings in.
-/

namespace DocTags

namespace Verb

theorem lower_name (v : Verb) : Text.lower v.name = v.key := by
  cases v <;> rfl

theorem isWordChar_of_mem_key {v : Verb} {c : Char} (h : c ∈ v.key) : isWordChar c = true := by
  have hkey : ∀ c ∈ v.key, isWordChar c = true := by cases v <;> decide
  exact hkey c h

theorem eq_of_key_isPrefix_key {v w : Verb} (h : v.key <+: w.key) : v = w := by
  cases v <;> cases w <;> first | rfl | exact absurd h (by decide)

/-- No text begins with the keys of two verbs. -/
theorem eq_of_key_isPrefix {v w : Verb} {s : Text} (hv : v.key <+: s) (hw : w.key <+: s) :
    v = w := by
  rcases List.prefix_or_prefix_of_prefix hv hw with h | h
  · exact eq_of_key_isPrefix_key h
  · exact (eq_of_key_isPrefix_key h).symm

end Verb

theorem filter_normalizeSegment (segment : Text) :
    (normalizeSegment segment).filter isWordChar = segment.filter isWordChar := by
  rcases segment_cases segment with ⟨name, rfl⟩ | ⟨-, hsame⟩
  · have hcolon : isWordChar ':' = false := by decide
    have hopening : isWordChar '{' = false := by decide
    have hclosing : isWordChar '}' = false := by decide
    simp [normalizeSegment, hcolon, hopening, hclosing]
  · rw [hsame]

namespace OpenApi

/-- What an identifier says of the path: the word characters of each segment that has any, with an
underscore before them. -/
def pathSuffix (path : Text) : Text :=
  let segments := (Text.pieces '/' path).map fun segment => segment.filter isWordChar
  (segments.filter (!·.isEmpty)).flatMap ('_' :: ·)

theorem defaultOperationId_eq (v : Verb) (path : Text) :
    defaultOperationId v path = v.key ++ pathSuffix path :=
  Text.join_cons '_' v.key _

theorem pathSuffix_normalizePath (path : Text) :
    pathSuffix (normalizePath path) = pathSuffix path := by
  simp only [pathSuffix, pieces_normalizePath, List.map_map, Function.comp_def,
    filter_normalizeSegment]

theorem isWordChar_of_mem_pathSuffix {path : Text} {c : Char} (h : c ∈ pathSuffix path) :
    isWordChar c = true := by
  obtain ⟨segment, hsegment, hc⟩ := List.mem_flatMap.1 h
  rcases List.mem_cons.1 hc with rfl | hc
  · decide
  · obtain ⟨piece, -, rfl⟩ := List.mem_map.1 (List.mem_of_mem_filter hsegment)
    exact List.of_mem_filter hc

theorem key_isPrefix_defaultOperationId (v : Verb) (path : Text) :
    v.key <+: defaultOperationId v path := by
  rw [defaultOperationId_eq]
  exact List.prefix_append v.key _

/-- An identifier is the same however parameters are written, it has nothing but alphanumeric
characters and underscores, and it begins with its verb in lower case and with no other verb. So
those of different verbs differ, whatever the paths, and for one verb it is the paths that decide,
for each verb in the same way. -/
theorem defaultOperationId_tells_verb (v w : Verb) (p q : Text) :
    defaultOperationId v (normalizePath p) = defaultOperationId v p ∧
    (∀ c ∈ defaultOperationId v p, isAlphanumeric c = true ∨ c = '_') ∧
    (∀ u : Verb, Text.lower u.name <+: defaultOperationId v p ↔ u = v) ∧
    (defaultOperationId v p = defaultOperationId w q ↔
      v = w ∧ ∀ u, defaultOperationId u p = defaultOperationId u q) := by
  refine ⟨?_, fun c hc => ?_, fun u => ?_, ?_⟩
  · rw [defaultOperationId_eq, pathSuffix_normalizePath, ← defaultOperationId_eq]
  · have hword : isWordChar c = true := by
      rw [defaultOperationId_eq, List.mem_append] at hc
      exact hc.elim Verb.isWordChar_of_mem_key isWordChar_of_mem_pathSuffix
    simpa [isWordChar] using hword
  · rw [Verb.lower_name]
    constructor
    · intro h
      exact Verb.eq_of_key_isPrefix h (key_isPrefix_defaultOperationId v p)
    · rintro rfl
      exact key_isPrefix_defaultOperationId u p
  · constructor
    · intro h
      obtain rfl : v = w := by
        have hw := key_isPrefix_defaultOperationId w q
        rw [← h] at hw
        exact Verb.eq_of_key_isPrefix (key_isPrefix_defaultOperationId v p) hw
      rw [defaultOperationId_eq, defaultOperationId_eq, List.append_right_inj] at h
      refine ⟨rfl, fun u => ?_⟩
      rw [defaultOperationId_eq, h, ← defaultOperationId_eq]
    · rintro ⟨rfl, h⟩
      exact h v

/-- The verb is told from the words in the path. -/
example : defaultOperationId .get "/post/_get/:id".toList = "get_post__get_id".toList := by decide

end OpenApi
end DocTags
