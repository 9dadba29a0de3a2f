import DocTags.Proofs.Endpoint.PathLine
import Mathlib.Data.List.Forall2

/-!
Which lines of parameters and responses are read. A parameter line has to name a location, and a
response line a status code. The lines of a block are looked at one after the other, up to the first
that is not readable.
-/

namespace DocTags

theorem error_of_map_error {α β : Type} {r : Except Problem α} {f : α → β} {p : Problem}
    (h : r.map f = .error p) : r = .error p := by
  cases r with
  | error q => simpa [Except.map] using h
  | ok a => simp [Except.map] at h

theorem ok_of_map_ok {α β : Type} {r : Except Problem α} {f : α → β} {y : β}
    (h : r.map f = .ok y) : ∃ x, r = .ok x ∧ f x = y := by
  cases r with
  | error p => cases h
  | ok x => exact ⟨x, rfl, by simpa [Except.map] using h⟩

namespace Parameter

/-- The first group in parentheses that does not say that the parameter is required. -/
def IsLocationToken (rest token : Text) : Prop :=
  ∃ before after, Text.groups '(' ')' rest = before ++ token :: after ∧
    (∀ group ∈ before, isRequiredMark group = true) ∧ isRequiredMark token = false

theorem find?_eq_some_iff_isLocationToken {rest token : Text} :
    ((Text.groups '(' ')' rest).find? fun group => !isRequiredMark group) = some token ↔
      IsLocationToken rest token := by
  rw [List.find?_eq_some_iff_append, IsLocationToken]
  constructor
  · intro ⟨htoken, before, after, hgroups, hbefore⟩
    exact ⟨before, after, hgroups, by simpa using hbefore, by simpa using htoken⟩
  · intro ⟨before, after, hgroups, hbefore, htoken⟩
    exact ⟨by simpa using htoken, before, after, hgroups, by simpa using hbefore⟩

/-- Only the location of a parameter can be wrong. -/
theorem read_of_readLocation_error {rest : Text} {fault : ParameterFault}
    (h : readLocation (Text.trim (headline rest)) (Text.groups '(' ')' rest) = .error fault)
    (below : List CommentLine) : read rest below = .error fault := by
  unfold read
  dsimp only
  rw [h]
  rfl

theorem exists_read_of_readLocation_ok {rest : Text} {location : Location}
    (h : readLocation (Text.trim (headline rest)) (Text.groups '(' ')' rest) = .ok location)
    (below : List CommentLine) : ∃ p, read rest below = .ok p := by
  unfold read
  dsimp only
  rw [h]
  exact ⟨_, rfl⟩

end Parameter

theorem Response.read?_eq_none_iff {rest : Text} :
    read? rest = none ↔ ∀ c ∈ rest, isBlank c = true := by
  rw [← Text.trim_eq_nil_iff, read?]
  have htrimmed := Text.isTrimmed_trim rest
  cases hrest : Text.trim rest with
  | nil => simp [firstWord, Text.cut?]
  | cons c s =>
      rw [hrest] at htrimmed
      have hc : isBlank c = false := htrimmed.head c rfl
      cases hcut : Text.cut? isBlank s <;> simp [firstWord, Text.cut?, hc, hcut]

namespace CommentLine

/-- What the line has to say if it is one of a parameter or of a response. -/
structure IsReadable (l : CommentLine) : Prop where
  parameter : l.has .parameter = true → ∃ token, ∃ location : Location,
    Parameter.IsLocationToken l.rest token ∧
      Text.lower location.name = Text.lower (Text.trim token)
  response : l.has .response = true → ∃ c ∈ l.rest, isBlank c = false

/-- What is wrong with a line on its own. -/
inductive HasFault (l : CommentLine) : Problem → Prop where
  | noLocation : l.has .parameter = true →
      (∀ group ∈ Text.groups '(' ')' l.rest, isRequiredMark group = true) →
      HasFault l (.malformedParameter l.number (.noLocation (Text.trim (headline l.rest))))
  | unknownLocation {token : Text} : l.has .parameter = true →
      Parameter.IsLocationToken l.rest token →
      (∀ location : Location, Text.lower location.name ≠ Text.lower (Text.trim token)) →
      HasFault l
        (.malformedParameter l.number (.unknownLocation (Text.trim (headline l.rest)) token))
  | noCode : l.has .response = true → (∀ c ∈ l.rest, isBlank c = true) →
      HasFault l (.malformedResponse l.number)

theorem HasFault.not_isReadable {l : CommentLine} {problem : Problem} (h : l.HasFault problem) :
    ¬l.IsReadable := by
  intro hl
  cases h with
  | noLocation hparameter hgroups =>
      obtain ⟨token, location, ⟨before, after, htoken, -, hmark⟩, -⟩ := hl.parameter hparameter
      have := hgroups token (by simp [htoken])
      simp [this] at hmark
  | unknownLocation hparameter htoken hnone =>
      obtain ⟨token, location, htoken', hname⟩ := hl.parameter hparameter
      rw [← Parameter.find?_eq_some_iff_isLocationToken] at htoken htoken'
      obtain rfl := Option.some.inj (htoken.symm.trans htoken')
      exact hnone location hname
  | noCode hresponse hblank =>
      obtain ⟨c, hc, hword⟩ := hl.response hresponse
      simp [hblank c hc] at hword

/-- The location of a parameter line is read, or its problem is told. -/
theorem readLocation_cases {l : CommentLine} (h : l.tag = some .parameter) :
    (∃ location, Parameter.readLocation (Text.trim (headline l.rest))
        (Text.groups '(' ')' l.rest) = .ok location ∧ l.IsReadable) ∨
      ∃ fault, Parameter.readLocation (Text.trim (headline l.rest))
        (Text.groups '(' ')' l.rest) = .error fault ∧
          l.HasFault (.malformedParameter l.number fault) := by
  have hl : l.has .parameter = true := has_iff.2 h
  unfold Parameter.readLocation
  split
  · next hnone =>
      refine .inr ⟨_, rfl, .noLocation hl ?_⟩
      simpa using hnone
  · next token htoken =>
      rw [Parameter.find?_eq_some_iff_isLocationToken] at htoken
      split
      · next hlocation =>
          refine .inr ⟨_, rfl, .unknownLocation hl htoken ?_⟩
          intro location hname
          rw [← Location.ofToken?_eq_some_iff, hlocation] at hname
          cases hname
      · next location hlocation =>
          have hname := Location.ofToken?_eq_some_iff.1 hlocation
          refine .inl ⟨location, rfl, fun _ => ⟨token, location, htoken, hname⟩, ?_⟩
          intro hresponse
          rw [has_iff, h] at hresponse
          cases hresponse

end CommentLine

namespace Operation

variable {l : CommentLine} {below : List CommentLine}

theorem readItems_parameter {p : Parameter} (htag : l.tag = some .parameter)
    (hread : Parameter.read l.rest below = .ok p) :
    readItems (l :: below) = (readItems below).map fun (ps, rs) => (p :: ps, rs) := by
  simp only [readItems, htag, hread]

theorem readItems_response {r : Response} (htag : l.tag = some .response)
    (hread : Response.read? l.rest = some r) :
    readItems (l :: below) = (readItems below).map fun (ps, rs) => (ps, r :: rs) := by
  simp only [readItems, htag, hread]

theorem readItems_other (hparameter : l.tag ≠ some .parameter)
    (hresponse : l.tag ≠ some .response) : readItems (l :: below) = readItems below := by
  rw [readItems]
  split
  · next h => exact absurd h hparameter
  · next h => exact absurd h hresponse
  · rfl

/-- A line adds a parameter or a response to what is read below it, or nothing, or it is the end. -/
theorem readItems_cons_cases (l : CommentLine) (below : List CommentLine) :
    (∃ problem, readItems (l :: below) = .error problem ∧ l.HasFault problem) ∨
    l.IsReadable ∧
      ((∃ p, l.tag = some .parameter ∧ Parameter.read l.rest below = .ok p ∧
          readItems (l :: below) = (readItems below).map fun (ps, rs) => (p :: ps, rs)) ∨
       (∃ r, l.tag = some .response ∧ Response.read? l.rest = some r ∧
          readItems (l :: below) = (readItems below).map fun (ps, rs) => (ps, r :: rs)) ∨
       (l.has .parameter = false ∧ l.has .response = false ∧
          readItems (l :: below) = readItems below)) := by
  rw [readItems]
  split
  · next htag =>
      rcases CommentLine.readLocation_cases htag with ⟨location, hok, hl⟩ | ⟨fault, herror, hl⟩
      · obtain ⟨p, hread⟩ := Parameter.exists_read_of_readLocation_ok hok below
        exact .inr ⟨hl, .inl ⟨p, htag, hread, by rw [hread]⟩⟩
      · have hread := Parameter.read_of_readLocation_error herror below
        exact .inl ⟨_, by rw [hread], hl⟩
  · next htag =>
      have hl : l.has .response = true := CommentLine.has_iff.2 htag
      cases hread : Response.read? l.rest with
      | none =>
          exact .inl ⟨_, rfl, .noCode hl (Response.read?_eq_none_iff.1 hread)⟩
      | some r =>
          have hblank : ∃ c ∈ l.rest, isBlank c = false := by
            by_contra hblank
            have hnone : Response.read? l.rest = none :=
              Response.read?_eq_none_iff.2 (by simpa using hblank)
            simp [hread] at hnone
          refine .inr ⟨⟨?_, fun _ => hblank⟩, .inr (.inl ⟨r, htag, rfl, rfl⟩)⟩
          intro hparameter
          rw [CommentLine.has_iff, htag] at hparameter
          cases hparameter
  · next hparameter hresponse =>
      have hno {tag : Tag} (htag : l.tag = some tag → False) : l.has tag = false := by
        simpa [CommentLine.has] using htag
      have hl := hno hparameter
      have hl' := hno hresponse
      exact .inr ⟨⟨by simp [hl], by simp [hl']⟩, .inr (.inr ⟨hl, hl', rfl⟩)⟩

/-- The lines that are read, each with what is read off it. -/
structure Reads (lines : List CommentLine) (ps : List Parameter) (rs : List Response) : Prop where
  readable : ∀ l ∈ lines, l.IsReadable
  parameters : List.Forall₂
    (fun l p => ∃ below, l :: below <:+ lines ∧ Parameter.read l.rest below = .ok p)
    (lines.filter (·.has .parameter)) ps
  responses : List.Forall₂ (fun l r => Response.read? l.rest = some r)
    (lines.filter (·.has .response)) rs

theorem Reads.parameters_below {ps : List Parameter} {rs : List Response} (h : Reads below ps rs)
    (l : CommentLine) :
    List.Forall₂
      (fun k p => ∃ after, k :: after <:+ l :: below ∧ Parameter.read k.rest after = .ok p)
      (below.filter (·.has .parameter)) ps := by
  refine h.parameters.imp ?_
  rintro k p ⟨after, hsuffix, hread⟩
  exact ⟨after, hsuffix.trans (List.suffix_cons l below), hread⟩

theorem Reads.cons_parameter {ps : List Parameter} {rs : List Response} (h : Reads below ps rs)
    (hl : l.IsReadable) (htag : l.tag = some .parameter) {p : Parameter}
    (hread : Parameter.read l.rest below = .ok p) : Reads (l :: below) (p :: ps) rs where
  readable := by simpa [hl] using h.readable
  parameters := by
    rw [List.filter_cons_of_pos (by simp [CommentLine.has, htag])]
    exact .cons ⟨below, List.suffix_refl _, hread⟩ (h.parameters_below l)
  responses := by
    rw [List.filter_cons_of_neg (by simp [CommentLine.has, htag])]
    exact h.responses

theorem Reads.cons_response {ps : List Parameter} {rs : List Response} (h : Reads below ps rs)
    (hl : l.IsReadable) (htag : l.tag = some .response) {r : Response}
    (hread : Response.read? l.rest = some r) : Reads (l :: below) ps (r :: rs) where
  readable := by simpa [hl] using h.readable
  parameters := by
    rw [List.filter_cons_of_neg (by simp [CommentLine.has, htag])]
    exact h.parameters_below l
  responses := by
    rw [List.filter_cons_of_pos (by simp [CommentLine.has, htag])]
    exact .cons hread h.responses

theorem Reads.cons_other {ps : List Parameter} {rs : List Response} (h : Reads below ps rs)
    (hl : l.IsReadable) (hparameter : l.has .parameter = false)
    (hresponse : l.has .response = false) : Reads (l :: below) ps rs where
  readable := by simpa [hl] using h.readable
  parameters := by
    rw [List.filter_cons_of_neg (by simp [hparameter])]
    exact h.parameters_below l
  responses := by
    rw [List.filter_cons_of_neg (by simp [hresponse])]
    exact h.responses

theorem reads_of_readItems_ok {lines : List CommentLine} {ps : List Parameter}
    {rs : List Response} (h : readItems lines = .ok (ps, rs)) : Reads lines ps rs := by
  induction lines generalizing ps rs with
  | nil =>
      cases h
      exact ⟨by simp, .nil, .nil⟩
  | cons l below ih =>
      rcases readItems_cons_cases l below with ⟨problem, herror, -⟩ | ⟨hl, hcases⟩
      · rw [herror] at h
        cases h
      rcases hcases with ⟨p, htag, hread, heq⟩ | ⟨r, htag, hread, heq⟩ | ⟨hno, hno', heq⟩
      · rw [heq] at h
        obtain ⟨⟨ps', rs'⟩, hbelow, he⟩ := ok_of_map_ok h
        cases he
        exact (ih hbelow).cons_parameter hl htag hread
      · rw [heq] at h
        obtain ⟨⟨ps', rs'⟩, hbelow, he⟩ := ok_of_map_ok h
        cases he
        exact (ih hbelow).cons_response hl htag hread
      · rw [heq] at h
        exact (ih h).cons_other hl hno hno'

/-- The problem is that of the first line that is not readable. -/
theorem exists_hasFault_of_readItems_error {lines : List CommentLine} {problem : Problem}
    (h : readItems lines = .error problem) :
    ∃ above l below, lines = above ++ l :: below ∧ (∀ m ∈ above, m.IsReadable) ∧
      l.HasFault problem := by
  induction lines with
  | nil => cases h
  | cons l below ih =>
      have hbelow (hl : l.IsReadable) (herror : readItems below = .error problem) :
          ∃ above k after, l :: below = above ++ k :: after ∧ (∀ m ∈ above, m.IsReadable) ∧
            k.HasFault problem := by
        obtain ⟨above, k, after, rfl, habove, hk⟩ := ih herror
        exact ⟨l :: above, k, after, rfl, by simpa [hl] using habove, hk⟩
      rcases readItems_cons_cases l below with ⟨q, herror, hl⟩ | ⟨hl, hcases⟩
      · rw [herror] at h
        cases h
        exact ⟨[], l, below, rfl, by simp, hl⟩
      rcases hcases with ⟨p, -, -, heq⟩ | ⟨r, -, -, heq⟩ | ⟨-, -, heq⟩
      · exact hbelow hl (error_of_map_error (heq ▸ h))
      · exact hbelow hl (error_of_map_error (heq ▸ h))
      · exact hbelow hl (heq ▸ h)

end Operation

end DocTags
