import DocTags.Proofs.Line.Candidates
import Mathlib.Data.List.Basic

/-!
The most specific spelling wins, in every grammar. What a line is classified as is fixed by rules
that speak of spellings only as the members of the list of their tag, so that neither the order of
the spellings of one tag nor a repetition among them can be seen.
-/

namespace DocTags.Line

/-- A mark that is not empty, at the start of a text. -/
def Opens (mark s : Text) : Prop :=
  mark ≠ [] ∧ mark <+: s

/-- A spelling of a tag that begins a comment and ends there as a word. -/
structure IsCandidate (g : Grammar) (body : Text) (tag : Tag) (marker rest : Text) : Prop where
  declared : tag ∈ Tag.declared
  spelling : marker ∈ g.spellings tag
  ne_nil : marker ≠ []
  body_eq : body = marker ++ rest
  boundary : ∀ c ∈ rest.head?, isAlphanumeric c = false ∧ c ≠ '_'

/-- The longest candidate, of the first tag among those that have one of this length. -/
structure IsMostSpecific (g : Grammar) (body : Text) (tag : Tag) (marker rest : Text) : Prop where
  isCandidate : IsCandidate g body tag marker rest
  longest : ∀ t m r, IsCandidate g body t m r → Text.byteLength m ≤ Text.byteLength marker
  first : ∀ t m r, IsCandidate g body t m r → Text.byteLength m = Text.byteLength marker →
    Tag.declared.idxOf tag ≤ Tag.declared.idxOf t

/-- The rules of classification. -/
inductive Classified (g : Grammar) (line : Text) : Line → Prop where
  | blockStart {rest : Text} : g.blockMark ≠ [] → Text.trim line = g.blockMark ++ rest →
      Classified g line (.tagged .blockStart (Text.trim rest) (Text.trim rest))
  | code : ¬Opens g.blockMark (Text.trim line) → ¬Opens g.commentMark (Text.trim line) →
      Classified g line .code
  | plain {rest : Text} : ¬Opens g.blockMark (Text.trim line) → g.commentMark ≠ [] →
      Text.trim line = g.commentMark ++ rest →
      (∀ t m r, ¬IsCandidate g (Text.trim rest) t m r) →
      Classified g line (.plain (Text.trim rest))
  | tagged {rest : Text} {tag : Tag} {marker after : Text} :
      ¬Opens g.blockMark (Text.trim line) → g.commentMark ≠ [] →
      Text.trim line = g.commentMark ++ rest →
      IsMostSpecific g (Text.trim rest) tag marker after →
      Classified g line (.tagged tag (Text.trim rest) (Text.trim after))

/-- Grammars with the same marks whose tags have the same spellings, in any order and any number of
times each. -/
structure SameSpellings (g g' : Grammar) : Prop where
  commentMark : g.commentMark = g'.commentMark
  blockMark : g.blockMark = g'.blockMark
  spellings : ∀ tag ∈ Tag.declared,
    g.spellings tag ⊆ g'.spellings tag ∧ g'.spellings tag ⊆ g.spellings tag

variable {g g' : Grammar} {line body : Text}

/-! ### The rules hold -/

theorem endsWord_iff {s : Text} :
    endsWord s = true ↔ ∀ c ∈ s.head?, isAlphanumeric c = false ∧ c ≠ '_' := by
  cases s <;> simp [endsWord, isWordChar]

theorem mem_candidates_iff {m : Match} :
    m ∈ candidates g body ↔ IsCandidate g body m.tag m.marker m.rest := by
  rw [mem_candidates, afterMarker?_eq_some_iff, endsWord_iff]
  constructor
  · intro ⟨htag, hmarker, hne, hbody, hend⟩
    exact ⟨htag, hmarker, hne, hbody, hend⟩
  · intro h
    exact ⟨h.declared, h.spelling, h.ne_nil, h.body_eq, h.boundary⟩

theorem afterMark?_eq_some_iff {mark s rest : Text} :
    afterMark? mark s = some rest ↔ mark ≠ [] ∧ ∃ r, s = mark ++ r ∧ Text.trim r = rest := by
  cases mark with
  | nil => simp [afterMark?]
  | cons c mark => simp [afterMark?, Text.after?_eq_some_iff]

theorem afterMark?_eq_none_iff {mark s : Text} : afterMark? mark s = none ↔ ¬Opens mark s := by
  rw [Option.eq_none_iff_forall_ne_some]
  constructor
  · rintro h ⟨hne, rest, rfl⟩
    exact h _ (afterMark?_eq_some_iff.2 ⟨hne, rest, rfl, rfl⟩)
  · intro h rest hsome
    obtain ⟨hne, r, rfl, -⟩ := afterMark?_eq_some_iff.1 hsome
    exact h ⟨hne, List.prefix_append mark r⟩

theorem isMostSpecific_of_longest? {m : Match} (h : longest? (candidates g body) = some m) :
    IsMostSpecific g body m.tag m.marker m.rest := by
  obtain ⟨before, after, hms, hbefore, hafter⟩ := exists_eq_append_of_longest? h
  have hpairwise := pairwise_candidates g body
  rw [hms, List.pairwise_append, List.pairwise_cons] at hpairwise
  have hmem {t : Tag} {marker rest : Text} (hc : IsCandidate g body t marker rest) :
      ⟨t, marker, rest⟩ ∈ before ∨ ⟨t, marker, rest⟩ = m ∨ ⟨t, marker, rest⟩ ∈ after := by
    have hc := (mem_candidates_iff (m := ⟨t, marker, rest⟩)).2 hc
    rwa [hms, List.mem_append, List.mem_cons] at hc
  refine ⟨mem_candidates_iff.1 (mem_of_longest? h), ?_, ?_⟩
  · intro t marker rest hc
    rcases hmem hc with hc | rfl | hc
    · exact Nat.le_of_lt (hbefore _ hc)
    · exact Nat.le_refl _
    · exact hafter _ hc
  · intro t marker rest hc hlength
    rcases hmem hc with hc | rfl | hc
    · exact absurd hlength (Nat.ne_of_lt (hbefore _ hc))
    · exact Nat.le_refl _
    · exact hpairwise.2.1.1 _ hc

theorem classified_classify (g : Grammar) (line : Text) : Classified g line (classify g line) := by
  rw [classify]
  cases hblock : afterMark? g.blockMark (Text.trim line) with
  | some rest =>
      obtain ⟨hne, r, hline, rfl⟩ := afterMark?_eq_some_iff.1 hblock
      exact .blockStart hne hline
  | none =>
      have hblock := afterMark?_eq_none_iff.1 hblock
      cases hcomment : afterMark? g.commentMark (Text.trim line) with
      | none => exact .code hblock (afterMark?_eq_none_iff.1 hcomment)
      | some body =>
          obtain ⟨hne, r, hline, rfl⟩ := afterMark?_eq_some_iff.1 hcomment
          dsimp only
          rw [ofComment]
          cases hlongest : longest? (candidates g (Text.trim r)) with
          | some m => exact .tagged hblock hne hline (isMostSpecific_of_longest? hlongest)
          | none =>
              refine .plain hblock hne hline ?_
              intro t marker rest hc
              have hc := (mem_candidates_iff (m := ⟨t, marker, rest⟩)).2 hc
              exact longest?_ne_none hc hlongest

/-! ### The rules leave one answer -/

theorem eq_of_isPrefix_of_byteLength_eq {s t : Text} (h : s <+: t)
    (hlength : Text.byteLength t = Text.byteLength s) : s = t := by
  obtain ⟨rest, rfl⟩ := h
  cases rest with
  | nil => rw [List.append_nil]
  | cons c rest =>
      have hc := c.utf8Size_pos
      rw [Text.byteLength_append, Text.byteLength] at hlength
      omega

theorem IsMostSpecific.unique {t u : Tag} {m n r s : Text} (hm : IsMostSpecific g body t m r)
    (hn : IsMostSpecific g body u n s) : t = u ∧ r = s := by
  have hlength : Text.byteLength m = Text.byteLength n :=
    Nat.le_antisymm (hn.longest t m r hm.isCandidate) (hm.longest u n s hn.isCandidate)
  have htag : Tag.declared.idxOf t = Tag.declared.idxOf u :=
    Nat.le_antisymm (hm.first u n s hn.isCandidate hlength.symm)
      (hn.first t m r hm.isCandidate hlength)
  have hmbody := hm.isCandidate.body_eq
  have hnbody := hn.isCandidate.body_eq
  obtain rfl : m = n := by
    rcases List.prefix_or_prefix_of_prefix ⟨r, hmbody.symm⟩ ⟨s, hnbody.symm⟩ with h | h
    · exact eq_of_isPrefix_of_byteLength_eq h hlength.symm
    · exact (eq_of_isPrefix_of_byteLength_eq h hlength).symm
  exact ⟨(List.idxOf_inj hm.isCandidate.declared).1 htag,
    List.append_cancel_left (hmbody.symm.trans hnbody)⟩

theorem Classified.unique {r s : Line} (hr : Classified g line r) (hs : Classified g line s) :
    r = s := by
  -- Two rules that ask for different marks at the start of the line exclude each other.
  have hopens {mark rest : Text} (hne : mark ≠ []) (hline : Text.trim line = mark ++ rest) :
      Opens mark (Text.trim line) :=
    ⟨hne, rest, hline.symm⟩
  have hrest {mark rest rest' : Text} (h : Text.trim line = mark ++ rest)
      (h' : Text.trim line = mark ++ rest') : rest' = rest :=
    List.append_cancel_left (h'.symm.trans h)
  cases hr with
  | blockStart hne hline =>
      cases hs with
      | blockStart _ hline' => rw [hrest hline hline']
      | code hblock _ => exact absurd (hopens hne hline) hblock
      | plain hblock _ _ _ => exact absurd (hopens hne hline) hblock
      | tagged hblock _ _ _ => exact absurd (hopens hne hline) hblock
  | code hblock hcomment =>
      cases hs with
      | blockStart hne hline => exact absurd (hopens hne hline) hblock
      | code _ _ => rfl
      | plain _ hne hline _ => exact absurd (hopens hne hline) hcomment
      | tagged _ hne hline _ => exact absurd (hopens hne hline) hcomment
  | plain hblock hne hline hnone =>
      cases hs with
      | blockStart hne' hline' => exact absurd (hopens hne' hline') hblock
      | code _ hcomment => exact absurd (hopens hne hline) hcomment
      | plain _ _ hline' _ => rw [hrest hline hline']
      | tagged _ _ hline' hspecific =>
          rw [hrest hline hline'] at hspecific
          exact absurd hspecific.isCandidate (hnone _ _ _)
  | tagged hblock hne hline hspecific =>
      cases hs with
      | blockStart hne' hline' => exact absurd (hopens hne' hline') hblock
      | code _ hcomment => exact absurd (hopens hne hline) hcomment
      | plain _ _ hline' hnone =>
          rw [hrest hline hline'] at hnone
          exact absurd hspecific.isCandidate (hnone _ _ _)
      | tagged _ _ hline' hspecific' =>
          obtain rfl := hrest hline hline'
          obtain ⟨rfl, rfl⟩ := hspecific.unique hspecific'
          rfl

/-! ### Grammars with the same spellings -/

theorem SameSpellings.isCandidate_iff (h : SameSpellings g g') {tag : Tag} {marker rest : Text} :
    IsCandidate g body tag marker rest ↔ IsCandidate g' body tag marker rest := by
  constructor
  · intro hc
    exact { hc with spelling := (h.spellings tag hc.declared).1 hc.spelling }
  · intro hc
    exact { hc with spelling := (h.spellings tag hc.declared).2 hc.spelling }

theorem SameSpellings.classified (h : SameSpellings g g') {r : Line} (hr : Classified g line r) :
    Classified g' line r := by
  cases hr with
  | blockStart hne hline => exact .blockStart (h.blockMark ▸ hne) (h.blockMark ▸ hline)
  | code hblock hcomment => exact .code (h.blockMark ▸ hblock) (h.commentMark ▸ hcomment)
  | plain hblock hne hline hnone =>
      refine .plain (h.blockMark ▸ hblock) (h.commentMark ▸ hne) (h.commentMark ▸ hline) ?_
      intro t m r hc
      exact hnone t m r (h.isCandidate_iff.2 hc)
  | tagged hblock hne hline hspecific =>
      refine .tagged (h.blockMark ▸ hblock) (h.commentMark ▸ hne) (h.commentMark ▸ hline)
        ⟨h.isCandidate_iff.1 hspecific.isCandidate, ?_, ?_⟩
      · intro t m r hc
        exact hspecific.longest t m r (h.isCandidate_iff.2 hc)
      · intro t m r hc
        exact hspecific.first t m r (h.isCandidate_iff.2 hc)

/-- A line is classified as the rules say, and as nothing else; what can not be seen of a grammar
are the order and the repetitions of the spellings of a tag. -/
theorem classify_eq_iff_classified (g : Grammar) (line : Text) :
    (∀ r, classify g line = r ↔ Classified g line r) ∧
    ∀ g', SameSpellings g g' → classify g' line = classify g line := by
  constructor
  · intro r
    constructor
    · rintro rfl
      exact classified_classify g line
    · exact (classified_classify g line).unique
  · intro g' h
    exact (classified_classify g' line).unique (h.classified (classified_classify g line))

/-- Spellings of two tags that are prefixes of each other, with repetitions and an empty one. The
longest spelling in the line would end inside a word, so that the next shorter one is meant, which
two tags have. -/
theorem classify_congr_overlapping_spellings :
    let g := { Grammar.standard with
      path := ["@p".toList, "@p.q".toList, []], resource := ["@p".toList] }
    let g' := { Grammar.standard with
      path := [[], "@p.q".toList, "@p".toList, "@p.q".toList]
      resource := ["@p".toList, "@p".toList] }
    let line := "  # @p.qr [GET] ".toList
    SameSpellings g g' ∧ classify g' line = classify g line ∧
      classify g line = .tagged .resource "@p.qr [GET]".toList ".qr [GET]".toList := by
  intro g g' line
  have h : SameSpellings g g' := ⟨rfl, rfl, by decide⟩
  exact ⟨h, (classify_eq_iff_classified g line).2 g' h, by decide⟩

end DocTags.Line
