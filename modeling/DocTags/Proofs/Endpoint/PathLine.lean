import DocTags.Endpoint.Reader
import DocTags.Proofs.Text.Cuts
import DocTags.Proofs.Text.Trim

/-!
Which path lines are read. Behind the tag stands a verb, in brackets or as the first word, and behind
the verb a path. Verbs, like locations, are told apart by their letters in any case.
-/

namespace DocTags

/-- Of names that differ in more than the case of their letters a token fits one at most. -/
theorem Text.find?_sameLetters {α : Type} {name : α → Text} {all : List α}
    (hname : ∀ x ∈ all, ∀ y ∈ all, lower (name x) = lower (name y) → x = y) {x : α} (hx : x ∈ all)
    (token : Text) :
    (all.find? fun y => sameLetters (name y) token) = some x ↔ lower (name x) = lower token := by
  constructor
  · intro h
    simpa [sameLetters] using List.find?_some h
  · intro h
    have hsome : (all.find? fun y => sameLetters (name y) token).isSome :=
      List.find?_isSome.2 ⟨x, hx, by simpa [sameLetters] using h⟩
    obtain ⟨y, hy⟩ := Option.isSome_iff_exists.1 hsome
    have hsame : lower (name y) = lower token := by simpa [sameLetters] using List.find?_some hy
    rw [hy, hname y (List.mem_of_find?_eq_some hy) x hx (hsame.trans h.symm)]

theorem firstWord_of_cut {s before after : Text} (h : Text.cut? isBlank s = some (before, after)) :
    firstWord s = (before, after) := by
  simp [firstWord, h]

theorem firstWord_of_forall {s : Text} (h : ∀ c ∈ s, isBlank c = false) :
    firstWord s = (s, []) := by
  simp [firstWord, Text.cut?_eq_none_iff.2 h]

/-- The first word of a text has no blanks, and what is behind it is part of the text. -/
theorem firstWord_spec (s : Text) :
    (∀ c ∈ (firstWord s).1, isBlank c = false) ∧ (firstWord s).2 ⊆ s := by
  cases hcut : Text.cut? isBlank s with
  | none =>
      have hword := Text.cut?_eq_none_iff.1 hcut
      rw [firstWord_of_forall hword]
      exact ⟨hword, List.nil_subset s⟩
  | some parts =>
      obtain ⟨before, after⟩ := parts
      obtain ⟨c, -, rfl, hword⟩ := Text.cut?_eq_some hcut
      rw [firstWord_of_cut hcut]
      exact ⟨hword, fun x hx => by simp [hx]⟩

theorem Verb.ofToken?_eq_some_iff {token : Text} {verb : Verb} :
    ofToken? token = some verb ↔ Text.lower verb.name = Text.lower (Text.trim token) :=
  Text.find?_sameLetters (by decide) (by cases verb <;> decide) (Text.trim token)

theorem Location.ofToken?_eq_some_iff {token : Text} {location : Location} :
    ofToken? token = some location ↔ Text.lower location.name = Text.lower (Text.trim token) :=
  Text.find?_sameLetters (by decide) (by cases location <;> decide) (Text.trim token)

namespace PathLine

/-- A verb and what is behind it: the verb stands in brackets, or it is the first word. -/
inductive IsWritten : (rest verb path : Text) → Prop where
  | bracketed {verb path : Text} : ']' ∉ verb → IsWritten ('[' :: (verb ++ ']' :: path)) verb path
  | bare {verb path : Text} {blank : Char} : (verb ++ blank :: path).head? ≠ some '[' →
      (∀ c ∈ verb, isBlank c = false) → isBlank blank = true →
      IsWritten (verb ++ blank :: path) verb path

/-- What is behind the tag names a verb, whatever the case of its letters, and a path. -/
def Names (rest : Text) (verb : Verb) (path : Text) : Prop :=
  ∃ token, IsWritten (Text.trim rest) token path ∧
    Text.lower verb.name = Text.lower (Text.trim token) ∧ ∃ c ∈ path, isBlank c = false

theorem exists_isWritten_of_split {rest token path : Text} (h : split rest = .ok (token, path))
    (hpath : path ≠ []) :
    ∃ t q, IsWritten rest t q ∧ Text.trim t = Text.trim token ∧ Text.trim q = path := by
  unfold split at h
  split at h
  · next s =>
      split at h
      · next t q hcut =>
          obtain ⟨rfl, rfl⟩ : Text.trim t = token ∧ Text.trim q = path := by simpa using h
          obtain ⟨c, hc, rfl, ht⟩ := Text.cut?_eq_some hcut
          obtain rfl : c = ']' := by simpa using hc
          have hbracket : ']' ∉ t := fun hmem => by simpa using ht ']' hmem
          exact ⟨t, q, .bracketed hbracket, (Text.trim_trim t).symm, rfl⟩
      · cases h
  · next hbracket =>
      cases hcut : Text.cut? isBlank rest with
      | none =>
          -- A single word leaves nothing for the path.
          rw [firstWord_of_forall (Text.cut?_eq_none_iff.1 hcut)] at h
          obtain ⟨-, rfl⟩ : rest = token ∧ Text.trim [] = path := by simpa using h
          exact absurd rfl hpath
      | some parts =>
          obtain ⟨t, q⟩ := parts
          rw [firstWord_of_cut hcut] at h
          obtain ⟨rfl, rfl⟩ : t = token ∧ Text.trim q = path := by simpa using h
          obtain ⟨c, hc, rfl, ht⟩ := Text.cut?_eq_some hcut
          refine ⟨t, q, .bare ?_ ht hc, rfl, rfl⟩
          intro hhead
          obtain ⟨s, hs⟩ := List.head?_eq_some_iff.1 hhead
          exact hbracket s hs

theorem split_of_isWritten {rest token path : Text} (h : IsWritten rest token path) :
    ∃ t, split rest = .ok (t, Text.trim path) ∧ Text.trim t = Text.trim token := by
  cases h with
  | bracketed hbracket =>
      have hbracket : ∀ c ∈ token, (c == ']') = false := by
        intro c hc
        exact beq_false_of_ne fun h => hbracket (h ▸ hc)
      refine ⟨Text.trim token, ?_, Text.trim_trim token⟩
      simp only [split, Text.cut?_append_cons path hbracket (beq_self_eq_true ']')]
  | @bare _ _ c hhead hword hc =>
      refine ⟨token, ?_, rfl⟩
      unfold split
      split
      · next s hs => exact absurd (by rw [hs]; rfl) hhead
      · rw [firstWord_of_cut (Text.cut?_append_cons path hword hc)]

theorem read_eq_ok_iff {rest path : Text} {verb : Verb} :
    read rest = .ok (verb, path) ↔ ∃ q, Names rest verb q ∧ path = Text.trim q := by
  constructor
  · intro h
    unfold read at h
    cases hsplit : split (Text.trim rest) with
    | error fault => simp [hsplit, bind, Except.bind] at h
    | ok parts =>
        obtain ⟨token, p⟩ := parts
        simp only [hsplit, bind, Except.bind] at h
        split at h
        · cases h
        · next v hverb =>
            split at h
            · cases h
            · next hp =>
                cases h
                have hp : path ≠ [] := by simpa using hp
                obtain ⟨t, q, hwritten, ht, rfl⟩ := exists_isWritten_of_split hsplit hp
                rw [Verb.ofToken?_eq_some_iff, ← ht] at hverb
                exact ⟨q, ⟨t, hwritten, hverb, Text.trim_ne_nil_iff.1 hp⟩, rfl⟩
  · rintro ⟨q, ⟨token, hwritten, hverb, hq⟩, rfl⟩
    obtain ⟨t, hsplit, ht⟩ := split_of_isWritten hwritten
    rw [← ht, ← Verb.ofToken?_eq_some_iff] at hverb
    have hne : (Text.trim q).isEmpty = false := by simpa using Text.trim_ne_nil_iff.2 hq
    simp [read, hsplit, bind, Except.bind, hverb, hne, pure, Except.pure]

theorem IsWritten.path_subset {rest token path : Text} (h : IsWritten rest token path) :
    path ⊆ rest := by
  intro c hc
  cases h with
  | bracketed | bare => simp [hc]

theorem path_of_read {rest path : Text} {verb : Verb} (h : read rest = .ok (verb, path)) :
    path ≠ [] ∧ path.IsTrimmed ∧ path ⊆ rest := by
  obtain ⟨q, ⟨token, hwritten, -, hq⟩, rfl⟩ := read_eq_ok_iff.1 h
  refine ⟨Text.trim_ne_nil_iff.2 hq, Text.isTrimmed_trim q, fun c hc => ?_⟩
  exact Text.mem_of_mem_trim (hwritten.path_subset (Text.mem_of_mem_trim hc))

end PathLine
end DocTags
