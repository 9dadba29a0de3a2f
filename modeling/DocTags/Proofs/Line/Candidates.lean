import DocTags.Line
import Mathlib.Data.List.Pairwise

/-!
The matches of a comment. A spelling matches where it begins the comment and is a whole word there;
the longest match is the first of those that no other one is longer than.
-/

namespace DocTags.Line

theorem afterMarker?_eq_some_iff {marker body rest : Text} :
    afterMarker? marker body = some rest ↔
      marker ≠ [] ∧ body = marker ++ rest ∧ endsWord rest = true := by
  unfold afterMarker?
  cases marker with
  | nil => simp
  | cons c marker => simp [Option.filter_eq_some_iff, Text.after?_eq_some_iff]

variable {g : Grammar} {body : Text}

theorem mem_candidates {m : Match} :
    m ∈ candidates g body ↔
      m.tag ∈ Tag.declared ∧ m.marker ∈ g.spellings m.tag ∧
        afterMarker? m.marker body = some m.rest := by
  simp only [candidates, List.mem_flatMap, List.mem_filterMap, Option.map_eq_some_iff]
  constructor
  · rintro ⟨tag, htag, marker, hmarker, rest, hrest, rfl⟩
    exact ⟨htag, hmarker, hrest⟩
  · rintro ⟨htag, hmarker, hrest⟩
    exact ⟨m.tag, htag, m.marker, hmarker, m.rest, hrest, rfl⟩

theorem eq_append_of_mem_candidates {m : Match} (h : m ∈ candidates g body) :
    body = m.marker ++ m.rest :=
  (afterMarker?_eq_some_iff.1 (mem_candidates.1 h).2.2).2.1

theorem pairwise_declared :
    Tag.declared.Pairwise fun t u => Tag.declared.idxOf t < Tag.declared.idxOf u := by
  decide

/-- The matches stand in the order in which their tags are declared. -/
theorem pairwise_candidates (g : Grammar) (body : Text) :
    (candidates g body).Pairwise fun m n =>
      Tag.declared.idxOf m.tag ≤ Tag.declared.idxOf n.tag := by
  have htag {t : Tag} {m : Match}
      (hm : m ∈ (g.spellings t).filterMap fun marker =>
        (afterMarker? marker body).map fun rest => ⟨t, marker, rest⟩) : m.tag = t := by
    obtain ⟨marker, -, hmatch⟩ := List.mem_filterMap.1 hm
    obtain ⟨rest, -, rfl⟩ := Option.map_eq_some_iff.1 hmatch
    rfl
  rw [candidates, List.pairwise_flatMap]
  constructor
  · intro t _
    refine List.pairwise_of_forall_mem_list ?_
    intro m hm n hn
    exact Nat.le_of_eq (by rw [htag hm, htag hn])
  · refine pairwise_declared.imp ?_
    intro t u htu m hm n hn
    rw [htag hm, htag hn]
    exact Nat.le_of_lt htu

/-! ### The longest match -/

theorem longest?_ne_none {m : Match} {ms : List Match} (h : m ∈ ms) : longest? ms ≠ none := by
  cases ms with
  | nil => cases h
  | cons n ms =>
      rw [longest?]
      split
      · simp
      · split <;> simp

/-- The longest match is longer than those in front of it and as long as those behind it. -/
theorem exists_eq_append_of_longest? {ms : List Match} {m : Match} (h : longest? ms = some m) :
    ∃ before after, ms = before ++ m :: after ∧
      (∀ n ∈ before, Text.byteLength n.marker < Text.byteLength m.marker) ∧
      ∀ n ∈ after, Text.byteLength n.marker ≤ Text.byteLength m.marker := by
  induction ms generalizing m with
  | nil => cases h
  | cons n ms ih =>
      rw [longest?] at h
      cases hlongest : longest? ms with
      | none =>
          obtain rfl : ms = [] := by
            cases ms with
            | nil => rfl
            | cons k ms => exact absurd hlongest (longest?_ne_none List.mem_cons_self)
          obtain rfl : n = m := by simpa [hlongest] using h
          exact ⟨[], [], rfl, by simp, by simp⟩
      | some k =>
          obtain ⟨before, after, hms, hbefore, hafter⟩ := ih hlongest
          simp only [hlongest] at h
          split at h
          · next hlt =>
              obtain rfl : k = m := by simpa using h
              exact ⟨n :: before, after, by rw [hms, List.cons_append],
                by simpa [hlt] using hbefore, hafter⟩
          · next hle =>
              obtain rfl : n = m := by simpa using h
              refine ⟨[], ms, rfl, by simp, ?_⟩
              intro j hj
              rw [hms, List.mem_append, List.mem_cons] at hj
              rcases hj with hj | rfl | hj
              · have := hbefore j hj
                omega
              · omega
              · have := hafter j hj
                omega

theorem mem_of_longest? {ms : List Match} {m : Match} (h : longest? ms = some m) : m ∈ ms := by
  obtain ⟨before, after, hms, -⟩ := exists_eq_append_of_longest? h
  simp [hms]

end DocTags.Line
