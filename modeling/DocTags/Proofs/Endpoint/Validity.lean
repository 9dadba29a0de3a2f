import DocTags.Proofs.Endpoint.Items

/-!
What reading an endpoint block guarantees about the endpoint, whatever stands in the block: its path
is a trimmed text on one line, a parameter in the path is required, a response has a status code
without blanks, and an operation identifier that is given is not empty.
-/

namespace DocTags

/-- A parameter in the path can not be left out. -/
def Parameter.Valid (p : Parameter) : Prop :=
  p.location = .path → p.required = true

structure Response.Valid (r : Response) : Prop where
  code_ne_nil : r.code ≠ []
  code_word : ∀ c ∈ r.code, isBlank c = false

structure Endpoint.Valid (e : Endpoint) : Prop where
  path_ne_nil : e.path ≠ []
  path_isTrimmed : e.path.IsTrimmed
  path_line : '\n' ∉ e.path
  operationId : ∀ id ∈ e.operation.operationId, id ≠ []
  parameters : ∀ p ∈ e.operation.parameters, p.Valid
  responses : ∀ r ∈ e.operation.responses, r.Valid

theorem Text.ne_nil_of_nonempty? {s t : Text} (h : Text.nonempty? s = some t) : t ≠ [] := by
  unfold Text.nonempty? at h
  split at h
  · simp at h
  · next hs =>
      cases h
      simpa using hs

/-- What is read off each element of a list has the properties that reading gives. -/
theorem forall_of_forall₂ {α β : Type} {R : α → β → Prop} {P : β → Prop} {xs : List α} {ys : List β}
    (h : List.Forall₂ R xs ys) (hP : ∀ x y, R x y → P y) : ∀ y ∈ ys, P y := by
  induction h with
  | nil => simp
  | cons hxy _ ih => simpa using ⟨hP _ _ hxy, ih⟩

theorem Parameter.valid_of_read {rest : Text} {below : List CommentLine} {p : Parameter}
    (h : Parameter.read rest below = .ok p) : p.Valid := by
  intro hpath
  unfold Parameter.read at h
  dsimp only at h
  cases hloc : Parameter.readLocation (Text.trim (headline rest)) (Text.groups '(' ')' rest) with
  | error fault =>
      rw [hloc] at h
      cases h
  | ok location =>
      rw [hloc] at h
      cases h
      obtain rfl : location = .path := hpath
      rfl

theorem Response.valid_of_read? {rest : Text} {r : Response} (h : Response.read? rest = some r) :
    r.Valid := by
  obtain ⟨hword, -⟩ := firstWord_spec (Text.trim rest)
  unfold Response.read? at h
  dsimp only at h
  split at h
  · simp at h
  · next hne =>
      cases h
      exact ⟨by simpa using hne, hword⟩

namespace Operation

theorem valid_of_readItems {lines : List CommentLine} {ps : List Parameter} {rs : List Response}
    (h : readItems lines = .ok (ps, rs)) : (∀ p ∈ ps, p.Valid) ∧ ∀ r ∈ rs, r.Valid := by
  obtain ⟨-, hps, hrs⟩ := reads_of_readItems_ok h
  refine ⟨forall_of_forall₂ hps ?_, forall_of_forall₂ hrs fun _ _ => Response.valid_of_read?⟩
  rintro l p ⟨below, -, hread⟩
  exact Parameter.valid_of_read hread

end Operation

namespace Endpoint

/-- The endpoint of a block, once its path line and its items are read. -/
def assembled (resource : Resource) (lines above : List CommentLine) (verb : Verb) (path : Text)
    (parameters : List Parameter) (responses : List Response) : Endpoint :=
  { resource
    path
    operation := {
      verb
      description := CommentLine.prose above
      summary := Operation.textOf? .summary lines
      operationId := Operation.textOf? .operationId lines
      parameters
      responses
      responseType := Operation.typeOf? .responseType lines
      requestSample := Operation.sampleOf? .requestSample lines
      responseSample := Operation.sampleOf? .sample lines } }

theorem ofBlock_eq_ok_iff {resource : Resource} {b : Block} {e : Endpoint} :
    ofBlock resource b = .ok e ↔
      ∃ above l below verb path ps rs, Block.splitAt? .path b.lines = some (above, l, below) ∧
        PathLine.read l.rest = .ok (verb, path) ∧ Operation.readItems b.lines = .ok (ps, rs) ∧
          e = assembled resource b.lines above verb path ps rs := by
  constructor
  · intro h
    unfold ofBlock at h
    split at h
    · cases h
    · next above l below hsplit =>
        split at h
        · cases h
        · next verb path hread =>
            obtain ⟨⟨ps, rs⟩, hitems, rfl⟩ := ok_of_map_ok h
            exact ⟨above, l, below, verb, path, ps, rs, hsplit, hread, hitems, rfl⟩
  · rintro ⟨above, l, below, verb, path, ps, rs, hsplit, hread, hitems, rfl⟩
    simp only [ofBlock, hsplit, hread, hitems]
    rfl

theorem valid_of_ofBlock {resource : Resource} {b : Block} {e : Endpoint}
    (hlines : ∀ l ∈ b.lines, '\n' ∉ l.rest) (h : ofBlock resource b = .ok e) : e.Valid := by
  obtain ⟨above, l, below, verb, path, ps, rs, hsplit, hread, hitems, rfl⟩ :=
    ofBlock_eq_ok_iff.1 h
  obtain ⟨hb, -, -⟩ := Block.splitAt?_eq_some hsplit
  obtain ⟨hne, htrim, hsub⟩ := PathLine.path_of_read hread
  obtain ⟨hps, hrs⟩ := Operation.valid_of_readItems hitems
  have hl : l ∈ b.lines := by simp [hb]
  refine ⟨hne, htrim, fun hn => hlines l hl (hsub hn), fun id hid => ?_, hps, hrs⟩
  obtain ⟨rest, -, hid⟩ := Option.bind_eq_some_iff.1 hid
  exact Text.ne_nil_of_nonempty? hid

end Endpoint
end DocTags
