import DocTags.Text.Basic

/-!
Pieces of a text between separators. Cutting a text into its pieces and writing the pieces with the
separator between them undo each other, because no piece has the separator in it.
-/

namespace DocTags.Text

theorem pieces_cons (sep c : Char) (s : Text) :
    pieces sep (c :: s) = if c = sep then [] :: pieces sep s else consPiece c (pieces sep s) := rfl

theorem pieces_eq_splitOn (sep : Char) (s : Text) : pieces sep s = s.splitOn sep := by
  induction s with
  | nil => rfl
  | cons c s ih =>
      rw [pieces_cons, ih, List.splitOn_cons_eq_if_modifyHead]
      by_cases h : c = sep
      · simp [h]
      · cases hs : s.splitOn sep with
        | nil => exact absurd hs (List.splitOn_ne_nil sep s)
        | cons p ps => simp [h, consPiece]

theorem pieces_ne_nil (sep : Char) (s : Text) : pieces sep s ≠ [] := by
  rw [pieces_eq_splitOn]
  exact List.splitOn_ne_nil sep s

theorem join_pieces (sep : Char) (s : Text) : join [sep] (pieces sep s) = s := by
  rw [pieces_eq_splitOn]
  exact List.intercalate_splitOn sep

/-- A text is determined by its pieces. -/
theorem pieces_inj {sep : Char} {s t : Text} : pieces sep s = pieces sep t ↔ s = t := by
  refine ⟨fun h => ?_, fun h => h ▸ rfl⟩
  rw [← join_pieces sep s, h, join_pieces]

theorem pieces_join {sep : Char} {ps : List Text} (hne : ps ≠ []) (h : ∀ p ∈ ps, sep ∉ p) :
    pieces sep (join [sep] ps) = ps := by
  rw [pieces_eq_splitOn]
  exact List.splitOn_intercalate sep h hne

theorem pieces_of_notMem {sep : Char} {s : Text} (h : sep ∉ s) : pieces sep s = [s] := by
  rw [pieces_eq_splitOn]
  exact List.splitOn_eq_singleton h

theorem not_mem_of_mem_pieces {sep : Char} {s p : Text} (h : p ∈ pieces sep s) : sep ∉ p := by
  induction s generalizing p with
  | nil => simp_all [pieces]
  | cons c s ih =>
      rw [pieces_cons] at h
      split at h
      · rcases List.mem_cons.1 h with rfl | h
        · exact List.not_mem_nil
        · exact ih h
      · next hc =>
          cases hps : pieces sep s with
          | nil => exact absurd hps (pieces_ne_nil sep s)
          | cons q ps =>
              rw [hps] at h ih
              rcases List.mem_cons.1 h with rfl | h
              · have hq := ih List.mem_cons_self
                simp [Ne.symm hc, hq]
              · exact ih (List.mem_cons_of_mem q h)

/-! ### Characters of joined texts -/

theorem join_cons_cons (sep : Char) (p q : Text) (ps : List Text) :
    join [sep] (p :: q :: ps) = p ++ sep :: join [sep] (q :: ps) := by
  simp [join, List.intercalate_cons_cons]

theorem join_cons (sep : Char) (p : Text) (ps : List Text) :
    join [sep] (p :: ps) = p ++ ps.flatMap (sep :: ·) := by
  induction ps generalizing p with
  | nil => simp [join]
  | cons q ps ih => rw [join_cons_cons, ih, List.flatMap_cons, List.cons_append]

theorem mem_of_mem_join {sep c : Char} {ps : List Text} (h : c ∈ join [sep] ps) :
    c = sep ∨ ∃ p ∈ ps, c ∈ p := by
  cases ps with
  | nil => cases h
  | cons p ps =>
      rw [join_cons, List.mem_append, List.mem_flatMap] at h
      rcases h with h | ⟨q, hq, h⟩
      · exact .inr ⟨p, List.mem_cons_self, h⟩
      · exact (List.mem_cons.1 h).imp_right fun hc => ⟨q, List.mem_cons_of_mem p hq, hc⟩

theorem subset_join {sep : Char} {ps : List Text} {p : Text} (h : p ∈ ps) :
    p ⊆ join [sep] ps := by
  cases ps with
  | nil => cases h
  | cons q ps =>
      rw [join_cons]
      rcases List.mem_cons.1 h with rfl | h
      · exact List.subset_append_left p _
      · intro c hc
        exact List.mem_append_right q (List.mem_flatMap.2 ⟨p, h, List.mem_cons_of_mem sep hc⟩)

theorem head?_join (sep : Char) (p : Text) (ps : List Text) :
    (join [sep] (p :: ps)).head? = p.head?.or (if ps = [] then none else some sep) := by
  rw [join_cons, List.head?_append]
  cases ps <;> rfl

theorem getLast?_join (sep : Char) (ps : List Text) (p : Text) :
    (join [sep] (ps ++ [p])).getLast? = p.getLast?.or (if ps = [] then none else some sep) := by
  induction ps with
  | nil => simp [join]
  | cons q ps ih =>
      obtain ⟨r, rs, hrs⟩ : ∃ r rs, ps ++ [p] = r :: rs := by cases ps <;> simp
      rw [List.cons_append, hrs, join_cons_cons, ← hrs, List.getLast?_append, List.getLast?_cons,
        ih]
      cases hp : p.getLast? <;> by_cases hps : ps = [] <;> simp [hps]

/-! ### Lines -/

theorem dropLastEmpty_subset (ps : List Text) : dropLastEmpty ps ⊆ ps := by
  induction ps using dropLastEmpty.induct with
  | case1 => exact List.Subset.refl []
  | case2 p h => simp [dropLastEmpty, h]
  | case3 p h => simp [dropLastEmpty, h]
  | case4 p q ps ih => exact List.cons_subset_cons p ih

theorem not_mem_of_mem_lines {s l : Text} (h : l ∈ lines s) : '\n' ∉ l :=
  not_mem_of_mem_pieces (dropLastEmpty_subset (pieces '\n' s) h)

/-- Writes lines one below the other, each with a line break at its end. -/
def ofLines (ls : List Text) : Text :=
  ls.flatMap (· ++ ['\n'])

theorem pieces_append_cons {sep : Char} {p : Text} (h : sep ∉ p) (s : Text) :
    pieces sep (p ++ sep :: s) = p :: pieces sep s := by
  induction p with
  | nil => simp [pieces_cons]
  | cons c p ih =>
      rw [List.mem_cons, not_or] at h
      rw [List.cons_append, pieces_cons, if_neg (Ne.symm h.1), ih h.2]
      rfl

theorem pieces_append (sep : Char) (s t : Text) :
    pieces sep (s ++ sep :: t) = pieces sep s ++ pieces sep t := by
  induction s with
  | nil => simp [pieces]
  | cons c s ih =>
      rw [List.cons_append, pieces_cons, pieces_cons, ih]
      by_cases hc : c = sep
      · simp [hc]
      · obtain ⟨p, ps, hps⟩ := List.exists_cons_of_ne_nil (pieces_ne_nil sep s)
        simp [hc, hps, consPiece]

theorem length_pieces (sep : Char) (s : Text) : (pieces sep s).length = s.count sep + 1 := by
  induction s with
  | nil => rfl
  | cons c s ih =>
      rw [pieces_cons, List.count_cons]
      by_cases hc : c = sep
      · simp [hc, ih]
      · obtain ⟨p, ps, hps⟩ := List.exists_cons_of_ne_nil (pieces_ne_nil sep s)
        rw [hps] at ih
        simpa [hc, hps, consPiece] using ih

theorem dropLastEmpty_cons (p : Text) {ps : List Text} (h : ps ≠ []) :
    dropLastEmpty (p :: ps) = p :: dropLastEmpty ps := by
  cases ps with
  | nil => exact absurd rfl h
  | cons q ps => rfl

theorem lines_ofLines {ls : List Text} (h : ∀ l ∈ ls, '\n' ∉ l) : lines (ofLines ls) = ls := by
  induction ls with
  | nil => rfl
  | cons l ls ih =>
      have htail := ih fun m hm => h m (List.mem_cons_of_mem l hm)
      have hsource : ofLines (l :: ls) = l ++ '\n' :: ofLines ls := by simp [ofLines]
      rw [hsource, lines, pieces_append_cons (h l List.mem_cons_self),
        dropLastEmpty_cons l (pieces_ne_nil _ _), ← lines, htail]

/-- At most one empty piece is left out. -/
theorem eq_dropLastEmpty_or (ps : List Text) :
    ps = dropLastEmpty ps ∨ ps = dropLastEmpty ps ++ [[]] := by
  induction ps using dropLastEmpty.induct with
  | case1 => exact .inl rfl
  | case2 p h =>
      obtain rfl : p = [] := by simpa using h
      exact .inr rfl
  | case3 p h => exact .inl (by simp [dropLastEmpty, h])
  | case4 p q ps ih =>
      rw [dropLastEmpty_cons p (List.cons_ne_nil q ps), List.cons_append]
      exact ih.imp (congrArg _) (congrArg _)

/-- The lines of a text, none if it is empty. -/
def linesOf (s : Text) : List Text :=
  if s.isEmpty then [] else pieces '\n' s

theorem joinLines_linesOf (s : Text) : joinLines (linesOf s) = s := by
  cases s with
  | nil => rfl
  | cons c s => exact join_pieces '\n' (c :: s)

theorem linesOf_of_notMem {s : Text} (h : '\n' ∉ s) :
    linesOf s = if s = [] then [] else [s] := by
  cases s with
  | nil => rfl
  | cons c s => exact pieces_of_notMem h

theorem linesOf_paragraphs {s t : Text} (hs : '\n' ∉ s) (ht : '\n' ∉ t) :
    linesOf (s ++ ['\n', '\n'] ++ t) = [s, [], t] := by
  have hmore : pieces '\n' ('\n' :: t) = [[], t] := by
    rw [pieces_cons, if_pos rfl, pieces_of_notMem ht]
  rw [linesOf, if_neg (by simp), List.append_assoc]
  exact (pieces_append_cons hs _).trans (congrArg _ hmore)

end DocTags.Text
