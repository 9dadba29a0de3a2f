import DocTags.Proofs.Endpoint.Items

/-!
Which endpoint blocks are read, and what is said of the others. A block is read if its first path
line names a verb and a path, every parameter line a location and every response line a status code.
Otherwise the path line is looked at first, and then the lines one after the other.
-/

namespace DocTags

/-- The first path line of a block names a verb and a path. -/
def Block.NamesPath (b : Block) (verb : Verb) (path : Text) : Prop :=
  ∃ above l below, b.lines = above ++ l :: below ∧ (∀ m ∈ above, m.has .path = false) ∧
    l.has .path = true ∧ PathLine.Names l.rest verb path

namespace Endpoint

open Operation (readItems Reads)

variable (resource : Resource) {b : Block}

theorem ofBlock_of_namesPath {verb : Verb} {path : Text} (h : b.NamesPath verb path) :
    ∃ f : List Parameter × List Response → Endpoint,
      ofBlock resource b = (readItems b.lines).map f ∧
      ∀ items, (f items).operation.verb = verb ∧ (f items).path = Text.trim path ∧
        (f items).operation.parameters = items.1 ∧ (f items).operation.responses = items.2 := by
  obtain ⟨above, l, below, hlines, habove, hl, hnames⟩ := h
  have hread : PathLine.read l.rest = .ok (verb, Text.trim path) :=
    PathLine.read_eq_ok_iff.2 ⟨path, hnames, rfl⟩
  have hsplit : Block.splitAt? .path b.lines = some (above, l, below) := by
    rw [hlines]
    exact Block.splitAt?_append_cons habove hl
  simp only [ofBlock, hsplit, hread]
  exact ⟨_, rfl, fun items => ⟨rfl, rfl, rfl, rfl⟩⟩

theorem ofBlock_of_not_namesPath (h : ¬∃ verb path, b.NamesPath verb path) :
    ∃ line fault, ofBlock resource b = .error (.malformedPath line fault) := by
  unfold ofBlock
  split
  · exact ⟨_, _, rfl⟩
  · next above l below hsplit =>
      obtain ⟨hlines, hl, habove⟩ := Block.splitAt?_eq_some hsplit
      cases hread : PathLine.read l.rest with
      | error fault => exact ⟨_, _, rfl⟩
      | ok parts =>
          obtain ⟨verb, path⟩ := parts
          obtain ⟨q, hnames, -⟩ := PathLine.read_eq_ok_iff.1 hread
          exact absurd ⟨verb, q, above, l, below, hlines, habove, hl, hnames⟩ h

/-- A block is read if and only if its first path line and each line of a parameter or a response
can be; then each such line has given one of them, and otherwise the first problem is told. -/
theorem ofBlock_acceptance (b : Block) :
    ((∃ e, ofBlock resource b = .ok e) ↔
      (∃ verb path, b.NamesPath verb path) ∧ ∀ l ∈ b.lines, l.IsReadable) ∧
    (∀ e, ofBlock resource b = .ok e →
      (∃ path, b.NamesPath e.operation.verb path ∧ e.path = Text.trim path) ∧
      Reads b.lines e.operation.parameters e.operation.responses) ∧
    ∀ problem, ofBlock resource b = .error problem →
      ((¬∃ verb path, b.NamesPath verb path) ∧ ∃ line fault, problem = .malformedPath line fault) ∨
      ((∃ verb path, b.NamesPath verb path) ∧
        ∃ above l below, b.lines = above ++ l :: below ∧ (∀ m ∈ above, m.IsReadable) ∧
          l.HasFault problem) := by
  by_cases hpath : ∃ verb path, b.NamesPath verb path
  · obtain ⟨verb, path, hnames⟩ := hpath
    obtain ⟨f, heq, hf⟩ := ofBlock_of_namesPath resource hnames
    refine ⟨⟨?_, ?_⟩, ?_, ?_⟩
    · rintro ⟨e, he⟩
      rw [heq] at he
      obtain ⟨⟨ps, rs⟩, hitems, -⟩ := ok_of_map_ok he
      exact ⟨⟨verb, path, hnames⟩, (Operation.reads_of_readItems_ok hitems).readable⟩
    · rintro ⟨-, hreadable⟩
      cases hitems : readItems b.lines with
      | ok items => exact ⟨f items, by rw [heq, hitems]; rfl⟩
      | error problem =>
          obtain ⟨above, l, below, hlines, -, hl⟩ :=
            Operation.exists_hasFault_of_readItems_error hitems
          exact absurd (hreadable l (by simp [hlines])) hl.not_isReadable
    · intro e he
      rw [heq] at he
      obtain ⟨⟨ps, rs⟩, hitems, rfl⟩ := ok_of_map_ok he
      obtain ⟨rfl, htrim, hps, hrs⟩ := hf (ps, rs)
      rw [hps, hrs]
      exact ⟨⟨path, hnames, htrim⟩, Operation.reads_of_readItems_ok hitems⟩
    · intro problem hproblem
      rw [heq] at hproblem
      exact .inr ⟨⟨verb, path, hnames⟩,
        Operation.exists_hasFault_of_readItems_error (error_of_map_error hproblem)⟩
  · obtain ⟨line, fault, herror⟩ := ofBlock_of_not_namesPath resource hpath
    refine ⟨⟨?_, fun h => absurd h.1 hpath⟩, ?_, ?_⟩
    · rintro ⟨e, he⟩
      rw [herror] at he
      cases he
    · intro e he
      rw [herror] at he
      cases he
    · intro problem hproblem
      rw [herror] at hproblem
      exact .inl ⟨hpath, line, fault, (Except.error.inj hproblem).symm⟩

/-- A block whose parameter stands above its path and says twice that it is required, and a block in
which a response and a parameter are wrong, the response first. -/
theorem ofBlock_acceptance_mixed_lines :
    let parameter : CommentLine :=
      ⟨2, some .parameter, [], "id (Required) ( PATH ) (required) [integer]".toList⟩
    let path : CommentLine := ⟨3, some .path, [], "  get\t /pets".toList⟩
    let response : CommentLine := ⟨4, some .response, [], " ".toList⟩
    let good : Block := ⟨[⟨1, some .blockStart, [], []⟩, parameter, path]⟩
    let bad : Block := ⟨[parameter, path, response, ⟨5, some .parameter, [], "id".toList⟩]⟩
    (∃ e, ofBlock ⟨[], []⟩ good = .ok e ∧ e.path = "/pets".toList ∧
      Reads good.lines e.operation.parameters e.operation.responses) ∧
    ofBlock ⟨[], []⟩ bad = .error (.malformedResponse 4) ∧
      ∃ above l below, bad.lines = above ++ l :: below ∧ (∀ m ∈ above, m.IsReadable) ∧
        l.HasFault (.malformedResponse 4) := by
  intro parameter path response good bad
  have hgood : ofBlock ⟨[], []⟩ good = .ok ⟨⟨[], []⟩, "/pets".toList,
      { verb := .get, description := [], summary := none, operationId := none
        parameters := [⟨"id".toList, .path, "integer".toList, [], true⟩], responses := []
        responseType := none, requestSample := none, responseSample := none }⟩ := by decide
  have hbad : ofBlock ⟨[], []⟩ bad = .error (.malformedResponse 4) := by decide
  refine ⟨⟨_, hgood, rfl, ?_⟩, hbad, ?_⟩
  · exact ((ofBlock_acceptance ⟨[], []⟩ good).2.1 _ hgood).2
  · rcases (ofBlock_acceptance ⟨[], []⟩ bad).2.2 _ hbad with ⟨-, line, fault, h⟩ | ⟨-, h⟩
    · cases h
    · exact h

end Endpoint
end DocTags
