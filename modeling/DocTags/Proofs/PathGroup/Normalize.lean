import DocTags.PathGroup
import DocTags.Proofs.Text.Pieces
import DocTags.Proofs.Text.Trim

/-!
Normalised paths. Writing parameters in braces changes segments one by one: none of them vanishes,
none is added, and none begins with a colon afterwards. At the ends of a path only braces can come
in, so that a trimmed path stays trimmed.
-/

namespace DocTags

theorem normalizeSegment_cons_of_ne {c : Char} (h : c ≠ ':') (s : Text) :
    normalizeSegment (c :: s) = c :: s := by
  unfold normalizeSegment
  split
  · next he => exact absurd (List.cons.inj he).1 h
  · rfl

theorem normalizeSegment_eq_nil_iff {s : Text} : normalizeSegment s = [] ↔ s = [] := by
  cases s with
  | nil => exact Iff.rfl
  | cons c s =>
      by_cases h : c = ':'
      · simp [h, normalizeSegment]
      · simp [normalizeSegment_cons_of_ne h]

/-- A segment keeps its first character, unless that is the colon of a parameter. -/
theorem head?_normalizeSegment {s : Text} {c : Char} (h : c ∈ (normalizeSegment s).head?) :
    c ≠ ':' ∧ (c ∈ s.head? ∨ c = '{') := by
  cases s with
  | nil => cases h
  | cons d s =>
      by_cases hd : d = ':'
      · subst hd
        cases h
        exact ⟨by decide, .inr rfl⟩
      · rw [normalizeSegment_cons_of_ne hd] at h
        cases h
        exact ⟨hd, .inl rfl⟩

theorem getLast?_normalizeSegment {s : Text} {c : Char} (h : c ∈ (normalizeSegment s).getLast?) :
    c ∈ s.getLast? ∨ c = '}' := by
  cases s with
  | nil => cases h
  | cons d s =>
      by_cases hd : d = ':'
      · subst hd
        right
        simpa [normalizeSegment, List.getLast?_cons, eq_comm] using h
      · rw [normalizeSegment_cons_of_ne hd] at h
        exact .inl h

theorem mem_normalizeSegment {s : Text} {c : Char} (h : c ∈ normalizeSegment s) :
    c ∈ s ∨ c = '{' ∨ c = '}' := by
  cases s with
  | nil => cases h
  | cons d s =>
      by_cases hd : d = ':'
      · subst hd
        have h' : c = '{' ∨ c ∈ s ∨ c = '}' := by simpa [normalizeSegment] using h
        rcases h' with rfl | h' | rfl <;> simp_all
      · rw [normalizeSegment_cons_of_ne hd] at h
        exact .inl h

theorem normalizeSegment_normalizeSegment (s : Text) :
    normalizeSegment (normalizeSegment s) = normalizeSegment s := by
  cases s with
  | nil => rfl
  | cons c s =>
      by_cases hc : c = ':'
      · subst hc
        exact normalizeSegment_cons_of_ne (by decide) _
      · rw [normalizeSegment_cons_of_ne hc, normalizeSegment_cons_of_ne hc]

theorem slash_not_mem_normalizeSegment {s : Text} (h : '/' ∉ s) : '/' ∉ normalizeSegment s := by
  intro hc
  rcases mem_normalizeSegment hc with hc | hc | hc
  · exact h hc
  all_goals exact absurd hc (by decide)

/-- The segments of a normalised path are those of the path, each normalised. -/
theorem pieces_normalizePath (path : Text) :
    Text.pieces '/' (normalizePath path) = (Text.pieces '/' path).map normalizeSegment := by
  apply Text.pieces_join
  · simpa using Text.pieces_ne_nil '/' path
  · intro p hp
    obtain ⟨q, hq, rfl⟩ := List.mem_map.1 hp
    exact slash_not_mem_normalizeSegment (Text.not_mem_of_mem_pieces hq)

theorem normalizePath_normalizePath (path : Text) :
    normalizePath (normalizePath path) = normalizePath path := by
  rw [normalizePath, pieces_normalizePath, List.map_map, normalizePath]
  congr 1
  exact List.map_congr_left fun s _ => normalizeSegment_normalizeSegment s

theorem normalizePath_eq_nil_iff {path : Text} : normalizePath path = [] ↔ path = [] := by
  constructor
  · intro h
    have hpieces := pieces_normalizePath path
    rw [h] at hpieces
    obtain ⟨s, hs, hnil⟩ := List.map_eq_singleton_iff.1 hpieces.symm
    rw [← Text.join_pieces '/' path, hs, normalizeSegment_eq_nil_iff.1 hnil]
    rfl
  · rintro rfl
    rfl

theorem mem_normalizePath {path : Text} {c : Char} (h : c ∈ normalizePath path) :
    c ∈ path ∨ c = '/' ∨ c = '{' ∨ c = '}' := by
  rcases Text.mem_of_mem_join h with hc | ⟨p, hp, hc⟩
  · exact .inr (.inl hc)
  · obtain ⟨q, hq, rfl⟩ := List.mem_map.1 hp
    refine (mem_normalizeSegment hc).imp (fun hc => ?_) .inr
    rw [← Text.join_pieces '/' path]
    exact Text.subset_join hq hc

/-- Behind a separator that is no blank, a joined text is trimmed if its outer pieces are trimmed at
their outer ends. -/
theorem isTrimmed_join_iff {sep : Char} (hsep : isBlank sep = false) {ps : List Text}
    (hne : ps ≠ []) :
    (Text.join [sep] ps).IsTrimmed ↔
      (∀ c ∈ (ps.head hne).head?, isBlank c = false) ∧
      ∀ c ∈ (ps.getLast hne).getLast?, isBlank c = false := by
  have hor (end? : Option Char) (alone : Prop) [Decidable alone] :
      (∀ c ∈ end?.or (if alone then none else some sep), isBlank c = false) ↔
        ∀ c ∈ end?, isBlank c = false := by
    cases end? with
    | none => by_cases h : alone <;> simp [h, hsep]
    | some c => simp
  have hhead : (∀ c ∈ (Text.join [sep] ps).head?, isBlank c = false) ↔
      ∀ c ∈ (ps.head hne).head?, isBlank c = false := by
    obtain ⟨p, qs, rfl⟩ := List.exists_cons_of_ne_nil hne
    rw [Text.head?_join]
    exact hor p.head? (qs = [])
  have hlast : (∀ c ∈ (Text.join [sep] ps).getLast?, isBlank c = false) ↔
      ∀ c ∈ (ps.getLast hne).getLast?, isBlank c = false := by
    conv => lhs; rw [← List.dropLast_append_getLast hne, Text.getLast?_join]
    exact hor (ps.getLast hne).getLast? (ps.dropLast = [])
  exact ⟨fun h => ⟨hhead.1 h.head, hlast.1 h.last⟩, fun h => ⟨hhead.2 h.1, hlast.2 h.2⟩⟩

theorem isTrimmed_normalizePath {path : Text} (h : path.IsTrimmed) :
    (normalizePath path).IsTrimmed := by
  have hne := Text.pieces_ne_nil '/' path
  rw [← Text.join_pieces '/' path, isTrimmed_join_iff (by decide) hne] at h
  rw [normalizePath, isTrimmed_join_iff (by decide) (by simpa using hne)]
  constructor
  · intro c hc
    rw [List.head_map] at hc
    rcases (head?_normalizeSegment hc).2 with hc | rfl
    · exact h.1 c hc
    · decide
  · intro c hc
    rw [List.getLast_map] at hc
    rcases getLast?_normalizeSegment hc with hc | rfl
    · exact h.2 c hc
    · decide

end DocTags
